import AccessControl.Plan
import AccessControl.Proofs.Plan
import AccessControl.Proofs.Sql.Meaning

/-! # Groups of conditions

Where the truth of every member of a group is known, so is that of the group (`Group.truth_all`,
`Group.truth_any`, `Group.truth_negate`).  So if the conditions of the comparisons of a plan come to
what the comparisons do, the condition of the plan comes to what the plan does
(`Plan.truth_render`). -/

namespace AccessControl

/-- Whether a truth value is known and is the outcome of a decision. -/
def Sql.Truth.IsOutcome (x : Sql.Truth) (y : Except Failure Bool) : Prop :=
  ∃ b, x = some b ∧ y = .ok b

namespace Sql.Group

variable {e : Engine} {db : Database} {rows : Rows}

/-- What a group is worth for the rows in scope. -/
def truth (e : Engine) (db : Database) (rows : Rows) (g : Group) : Truth :=
  g.toExpression.truth e db rows

/-- What a junction makes of truth values that are known. -/
def Junction.of : Junction → List Bool → Bool
  | .all, bs => bs.all id
  | .any, bs => bs.any id

theorem truth_connect (j : Junction) {left right : Expression} {a b : Bool}
    (ha : left.truth e db rows = some a) (hb : right.truth e db rows = some b) :
    (connect j left right).truth e db rows = some (Junction.of j [a, b]) := by
  cases j with
  | all => simp only [connect, Expression.truth, ha, hb, Truth.and_some, Junction.of, List.all_cons,
      List.all_nil, id_eq, Bool.and_true]
  | any => simp only [connect, Expression.truth, ha, hb, Truth.or_some, Junction.of, List.any_cons,
      List.any_nil, id_eq, Bool.or_false]

theorem Junction.of_cons (j : Junction) (a b : Bool) (bs : List Bool) :
    Junction.of j (Junction.of j [a, b] :: bs) = Junction.of j (a :: b :: bs) := by
  cases j with
  | all => simp [Junction.of, Bool.and_assoc]
  | any => simp [Junction.of, Bool.or_assoc]

theorem truth_foldl_connect (j : Junction) : ∀ (rest : List Expression) (bs : List Bool)
    (first : Expression) (b : Bool), first.truth e db rows = some b →
    rest.map (Expression.truth e db rows) = bs.map some →
    (rest.foldl (connect j) first).truth e db rows = some (Junction.of j (b :: bs))
  | [], bs, first, b, hfirst, hrest => by
      cases bs with
      | nil => cases j <;> simpa [Junction.of] using hfirst
      | cons _ _ => cases hrest
  | next :: rest, bs, first, b, hfirst, hrest => by
      cases bs with
      | nil => cases hrest
      | cons b' bs =>
          obtain ⟨hnext, hrest⟩ := List.cons.inj hrest
          rw [List.foldl_cons, truth_foldl_connect j rest bs _ _ (truth_connect j hfirst hnext) hrest,
            Junction.of_cons]

/-- A group whose members are known is known. -/
theorem truth_of_members {j : Junction} {members : List Expression} {bs : List Bool}
    (h : members.map (Expression.truth e db rows) = bs.map some) :
    truth e db rows ⟨false, j, members⟩ = some (Junction.of j bs) := by
  match members, bs with
  | [], [] => cases j <;> rfl
  | first :: rest, b :: bs =>
      obtain ⟨hfirst, hrest⟩ := List.cons.inj h
      exact truth_foldl_connect j rest bs first b hfirst hrest

theorem truth_all {groups : List Group} {bs : List Bool}
    (h : groups.map (truth e db rows) = bs.map some) :
    (all groups).truth e db rows = some (bs.all id) := by
  match groups, bs with
  | [], [] => rfl
  | first :: rest, bs =>
      refine truth_of_members (j := .all) ?_
      rw [List.map_map]
      exact h

theorem truth_any {groups : List Group} {bs : List Bool}
    (h : groups.map (truth e db rows) = bs.map some) :
    (any groups).truth e db rows = some (bs.any id) := by
  match groups, bs with
  | [], [] => rfl
  | first :: rest, bs =>
      refine truth_of_members (j := .any) ?_
      rw [List.map_map]
      exact h

theorem truth_negate (g : Group) : g.negate.truth e db rows = (g.truth e db rows).not := by
  have hjoined : g.negate.joined = g.joined := rfl
  have hflag : g.negate.negated = !g.negated := rfl
  unfold truth toExpression
  rw [hjoined, hflag]
  cases g.negated with
  | false => rfl
  | true => exact (Truth.not_not _).symm

end Sql.Group

namespace Plan

open Sql

variable {e : Engine} {db : Database} {rows : Rows} {schema : Schema} {place : Place}
  {r : Registry} {s : Scope} {subject : Resource}

mutual

/-- The condition of a plan comes to what the plan does, if those of its comparisons do. -/
theorem truth_render : ∀ {plan : Plan} {g : Group},
    (∀ c ∈ plan.comparisons, ∀ f, c.render schema.language place s.principal = .ok f →
      (f.truth e db rows).IsOutcome (c.evaluate r s subject).outcome) →
    plan.render schema.language place s.principal = .ok g →
    (g.truth e db rows).IsOutcome (plan.evaluate r s subject).outcome
  | .compare c, g, h, hg => h c List.mem_cons_self g hg
  | .all parts, g, h, hg => by
      obtain ⟨fs, hfs, hg⟩ := bind_eq_ok.mp hg
      cases hg
      obtain ⟨bs, htruth, hall, -⟩ := truth_renderParts h hfs
      exact ⟨_, Group.truth_all htruth, hall⟩
  | .any parts, g, h, hg => by
      obtain ⟨fs, hfs, hg⟩ := bind_eq_ok.mp hg
      cases hg
      obtain ⟨bs, htruth, -, hany⟩ := truth_renderParts h hfs
      exact ⟨_, Group.truth_any htruth, hany⟩
  | .not inner, g, h, hg => by
      obtain ⟨f, hf, hg⟩ := bind_eq_ok.mp hg
      cases hg
      rw [comparisons] at h
      obtain ⟨b, htruth, hb⟩ := truth_render h hf
      refine ⟨!b, ?_, ?_⟩
      · show (f.negate).truth e db rows = _
        rw [Group.truth_negate, htruth]
        rfl
      · simp only [evaluate, Inquiry.outcome_bind, hb]
        rfl

theorem truth_renderParts : ∀ {parts : List Plan} {fs : List Group},
    (∀ c ∈ comparisonsOf parts, ∀ f, c.render schema.language place s.principal = .ok f →
      (f.truth e db rows).IsOutcome (c.evaluate r s subject).outcome) →
    renderParts schema.language place s.principal parts = .ok fs →
    ∃ bs : List Bool, fs.map (Group.truth e db rows) = bs.map some ∧
      (evaluateAll r s subject parts).outcome = .ok (bs.all id) ∧
      (evaluateAny r s subject parts).outcome = .ok (bs.any id)
  | [], fs, h, hfs => by
      cases hfs
      exact ⟨[], rfl, rfl, rfl⟩
  | part :: rest, fs, h, hfs => by
      obtain ⟨f, hf, hfs⟩ := bind_eq_ok.mp hfs
      obtain ⟨more, hmore, hfs⟩ := bind_eq_ok.mp hfs
      cases hfs
      obtain ⟨b, htruth, hb⟩ := truth_render
        (fun c hc => h c (List.mem_append_left _ hc)) hf
      obtain ⟨bs, htruths, hall, hany⟩ := truth_renderParts
        (fun c hc => h c (List.mem_append_right _ hc)) hmore
      refine ⟨b :: bs, by rw [List.map_cons, htruth, htruths, List.map_cons], ?_, ?_⟩
      · simp only [evaluateAll, Inquiry.outcome_bind, hb, ok_bind]
        cases b with
        | true => exact hall
        | false => rfl
      · simp only [evaluateAny, Inquiry.outcome_bind, hb, ok_bind]
        cases b with
        | true => rfl
        | false => exact hany

end

end Plan
end AccessControl
