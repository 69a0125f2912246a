import AccessControl.Proofs.Context
import AccessControl.Proofs.Lookups
import Mathlib.Data.List.Forall2

/-! # Paths compose

`Registry.reach` follows a path breadth first: it takes everything that one relation reaches from all
that was reached so far before it looks at the next relation.  Read depth first, the same path is its
first part, and behind everything that the first part reaches its second part.  Both readings
find the same resources in the same order, each as often as there are ways to it
(`Registry.reach_append`).

Two equations carry this.  A path from several resources is its first part and then its second
(`reachFrom_append`), whatever fails on the way; and where a path can be followed from several
resources, it can be followed from each of them, and reaches what these reach one after another
(`reachFrom_eq_ok_iff`). -/

namespace AccessControl

namespace Plan

/-- A path of two parts leads where the second part leads from where the first does. -/
theorem follow_append (r : Registry) : ∀ (p q : List String) (type : String),
    follow r type (p ++ q) = follow r type p >>= fun mid => follow r mid q
  | [], _, _ => rfl
  | name :: p, q, type => by
      rw [List.cons_append, follow, follow]
      cases r.relation type name with
      | error e => rfl
      | ok found => exact follow_append r p q found.target

theorem follow_cons_eq_ok {r : Registry} {type name target : String} {rest : List String} :
    follow r type (name :: rest) = .ok target ↔
      ∃ found, r.relation type name = .ok found ∧ follow r found.target rest = .ok target :=
  bind_eq_ok

end Plan

namespace Registry

variable {r : Registry} {type name mid target : String} {found : Relation}

/-! ### Several resources at once -/

theorem reachFrom_nil (r : Registry) (type : String) (path : List String) :
    r.reachFrom type [] path = pure [] := by
  cases path <;> simp [reachFrom]

/-- Nothing is reached from no resources, so that the test for them can be left out of a step along a
known relation. -/
theorem reachFrom_cons (h : r.relation type name = .ok found) (current : List Resource)
    (rest : List String) : r.reachFrom type current (name :: rest) =
      (do r.reachFrom found.target (← r.relatedToAll type name current) rest) := by
  cases current with
  | nil => simp [reachFrom, relatedToAll, reachFrom_nil]
  | cons x xs => simp [reachFrom, h]

theorem relatedToAll_append (r : Registry) (type name : String) (xs ys : List Resource) :
    r.relatedToAll type name (xs ++ ys) = (do
      let reached ← r.relatedToAll type name xs
      let more ← r.relatedToAll type name ys
      return reached ++ more) := by
  induction xs with
  | nil => simp [relatedToAll]
  | cons x xs ih =>
      simp only [List.cons_append, relatedToAll, ih, bind_assoc, pure_bind, List.append_assoc]

/-- A path of two parts is followed from several resources one part after the other. -/
theorem reachFrom_append (q : List String) : ∀ (p : List String) {type : String}
    (current : List Resource), Plan.follow r type p = .ok mid →
    r.reachFrom type current (p ++ q) =
      (do r.reachFrom mid (← r.reachFrom type current p) q)
  | [], type, current, h => by
      cases h
      simp [reachFrom]
  | name :: p, type, current, h => by
      obtain ⟨found, hfound, hrest⟩ := Plan.follow_cons_eq_ok.mp h
      rw [List.cons_append, reachFrom_cons hfound, reachFrom_cons hfound, bind_assoc]
      congr 1
      funext next
      exact reachFrom_append q p next hrest

/-- What a path reaches from two lists of resources is what it reaches from the one and then what it
reaches from the other. -/
theorem reachFrom_both : ∀ (path : List String) {type : String} (xs ys : List Resource)
    {rs : List Resource}, Plan.follow r type path = .ok target →
    ((r.reachFrom type (xs ++ ys) path).outcome = .ok rs ↔
      ∃ as bs, (r.reachFrom type xs path).outcome = .ok as ∧
        (r.reachFrom type ys path).outcome = .ok bs ∧ rs = as ++ bs)
  | [], type, xs, ys, rs, _ => by
      simp [reachFrom, eq_comm]
  | name :: rest, type, xs, ys, rs, h => by
      obtain ⟨found, hfound, hrest⟩ := Plan.follow_cons_eq_ok.mp h
      simp only [reachFrom_cons hfound, relatedToAll_append, bind_assoc, pure_bind,
        Inquiry.outcome_bind, bind_eq_ok]
      constructor
      · rintro ⟨us, hus, vs, hvs, hreached⟩
        obtain ⟨as, bs, has, hbs, rfl⟩ := (reachFrom_both rest us vs hrest).mp hreached
        exact ⟨as, bs, ⟨us, hus, has⟩, ⟨vs, hvs, hbs⟩, rfl⟩
      · rintro ⟨as, bs, ⟨us, hus, has⟩, ⟨vs, hvs, hbs⟩, rfl⟩
        exact ⟨us, hus, vs, hvs, (reachFrom_both rest us vs hrest).mpr ⟨as, bs, has, hbs, rfl⟩⟩

/-- A path can be followed from several resources exactly when it can be from each of them, and then
it reaches what these reach, one after another. -/
theorem reachFrom_eq_ok_iff {path : List String} (h : Plan.follow r type path = .ok target)
    (current : List Resource) {rs : List Resource} :
    (r.reachFrom type current path).outcome = .ok rs ↔
      ∃ parts, List.Forall₂ (fun x part => (r.reachFrom type [x] path).outcome = .ok part)
        current parts ∧ rs = parts.flatten := by
  induction current generalizing rs with
  | nil => simp [reachFrom_nil, eq_comm]
  | cons x xs ih =>
      rw [← List.singleton_append, reachFrom_both path [x] xs h]
      constructor
      · rintro ⟨part, more, hpart, hmore, rfl⟩
        obtain ⟨parts, hparts, rfl⟩ := ih.mp hmore
        exact ⟨part :: parts, .cons hpart hparts, List.flatten_cons.symm⟩
      · rintro ⟨_, hall, rfl⟩
        cases hall with
        | @cons _ part _ parts hpart hparts =>
            exact ⟨part, parts.flatten, hpart, ih.mpr ⟨parts, hparts, rfl⟩, List.flatten_cons⟩

/-! ### One resource -/

variable {subject : Resource} {context : Context}

/-- Without resources at hand, a path from one resource is a path from several of which there is one. -/
theorem reach_eq_reachFrom {path : List String} (hne : path ≠ [])
    (h : Plan.follow r type path = .ok target) :
    r.reach type subject path [] = r.reachFrom type [subject] path := by
  cases path with
  | nil => exact absurd rfl hne
  | cons name rest =>
      obtain ⟨found, hfound, -⟩ := Plan.follow_cons_eq_ok.mp h
      rw [reachFrom_cons hfound]
      simp [reach, firstStep, relatedToAll, related, hfound]

/-- A path of two parts from one resource.  The resources at hand are consulted for the first part
alone. -/
theorem reach_append_eq {p : List String} (hne : p ≠ []) (hp : Plan.follow r type p = .ok mid)
    {q : List String} (hq : Plan.follow r mid q = .ok target) :
    r.reach type subject (p ++ q) context =
      (do r.reachFrom mid (← r.reach type subject p context) q) := by
  cases p with
  | nil => exact absurd rfl hne
  | cons name rest =>
      obtain ⟨found, hfound, hrest⟩ := Plan.follow_cons_eq_ok.mp hp
      cases hheld : context.held? name with
      | some held =>
          rw [List.cons_append, reach_of_held hheld, reach_of_held hheld, hfound, Inquiry.lift_ok,
            pure_bind, pure_bind]
          exact reachFrom_append q rest held hrest
      | none =>
          have hwhole : Plan.follow r type (name :: (rest ++ q)) = .ok target := by
            rw [← List.cons_append, Plan.follow_append, hp]
            exact hq
          rw [List.cons_append, reach_of_not_held hheld, reach_of_not_held hheld,
            reach_eq_reachFrom (List.cons_ne_nil _ _) hwhole, reach_eq_reachFrom hne hp]
          exact reachFrom_append q (name :: rest) [subject] hp

/-- Paths compose.  A path of two parts, neither of them empty, that leads along the relations of the
registry can be followed from a resource exactly when its first part can be, and the second part can be
followed from everything that the first part reaches.  Then it reaches what the second part reaches
from each of these, one after another.  Whatever is at hand is consulted for the first part alone. -/
theorem reach_append {p q : List String} (hp : p ≠ []) (hq : q ≠ [])
    (h : Plan.follow r type (p ++ q) = .ok target) (subject : Resource) (context : Context) :
    ∃ mid, Plan.follow r type p = .ok mid ∧ Plan.follow r mid q = .ok target ∧
      ∀ rs, (r.reach type subject (p ++ q) context).outcome = .ok rs ↔
        ∃ ms parts, (r.reach type subject p context).outcome = .ok ms ∧
          List.Forall₂ (fun m part => (r.reach mid m q []).outcome = .ok part) ms parts ∧
          rs = parts.flatten := by
  rw [Plan.follow_append, bind_eq_ok] at h
  obtain ⟨mid, hfirst, hsecond⟩ := h
  refine ⟨mid, hfirst, hsecond, fun rs => ?_⟩
  rw [reach_append_eq hp hfirst hsecond, Inquiry.outcome_bind, bind_eq_ok]
  simp only [reach_eq_reachFrom hq hsecond]
  constructor
  · rintro ⟨ms, hms, hrs⟩
    obtain ⟨parts, hparts, rfl⟩ := (reachFrom_eq_ok_iff hsecond ms).mp hrs
    exact ⟨ms, parts, hms, hparts, rfl⟩
  · rintro ⟨ms, parts, hms, hparts, rfl⟩
    exact ⟨ms, hms, (reachFrom_eq_ok_iff hsecond ms).mpr ⟨parts, hparts, rfl⟩⟩

/-- A task leads to its case, on to both tasks of that case, and from each of these back to the case,
which is therefore reached twice. -/
theorem reach_append_busy :
    Plan.follow Office.busyRegistry "task" (["relatedCase", "tasks"] ++ ["relatedCase"]) = .ok "case" ∧
    (Office.busyRegistry.reach "task" Office.openTask.view ["relatedCase", "tasks"] []).outcome =
      .ok [Office.openTask.view, Office.nextTask.view] ∧
    (Office.busyRegistry.reach "task" Office.openTask.view
        (["relatedCase", "tasks"] ++ ["relatedCase"]) []).outcome =
      .ok [Office.openCase.view, Office.openCase.view] := by
  have hpath : Plan.follow Office.busyRegistry "task" (["relatedCase", "tasks"] ++ ["relatedCase"]) =
      .ok "case" := rfl
  have hfirst : (Office.busyRegistry.reach "task" Office.openTask.view ["relatedCase", "tasks"]
      []).outcome = .ok [Office.openTask.view, Office.nextTask.view] := rfl
  obtain ⟨mid, hmid, -, hcompose⟩ :=
    reach_append (List.cons_ne_nil _ _) (List.cons_ne_nil _ _) hpath Office.openTask.view []
  cases hmid
  refine ⟨hpath, hfirst, (hcompose _).mpr ⟨_, [[Office.openCase.view], [Office.openCase.view]], hfirst,
    ?_, rfl⟩⟩
  exact .cons rfl (.cons rfl .nil)

end Registry
end AccessControl
