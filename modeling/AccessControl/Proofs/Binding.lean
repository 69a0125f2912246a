import AccessControl.Proofs.Failure

/-! # Binding the principal

A check binds an attribute of the principal when it reaches a comparison that refers to it, a filter
binds all of them when it is made.  So making a filter comes to binding the comparisons of the
candidates one after another, up to the first candidate without a condition
(`Request.discard_filter`).

Hence a request can be granted for a resource while its filter cannot be made: an attribute that the
check never came to may be missing.  That is the only way in which a filter fails to select what is
granted (`Request.filter_of_granted`). -/

namespace AccessControl

/-- Whether the right sides of comparisons can be bound one after another, or else the first failure. -/
def Principal.bindAll (p : Principal) : List Comparison → Except Failure Unit
  | [] => .ok ()
  | c :: rest => do
    discard (c.expected p)
    p.bindAll rest

/-- The plans that a filter is made of: those of the permissions before the first that has no
condition. -/
def boundPlans : List Permission → List Plan
  | [] => []
  | p :: rest =>
    match p.plan with
    | none => []
    | some plan => plan :: boundPlans rest

/-- The comparisons that a filter binds. -/
def boundComparisons (permissions : List Permission) : List Comparison :=
  Plan.comparisonsOf (boundPlans permissions)

/-! ### What is left of a computation without its result -/

section discard
variable {α β γ : Type}

theorem discard_eq_ok {x : Except Failure α} : discard x = .ok () ↔ ∃ a, x = .ok a := by
  cases x with
  | ok a => exact ⟨fun _ => ⟨a, rfl⟩, fun _ => rfl⟩
  | error e => exact ⟨fun h => (nomatch h), fun ⟨_, h⟩ => (nomatch h)⟩

theorem discard_eq_error {x : Except Failure α} {e : Failure} : discard x = .error e ↔ x = .error e := by
  cases x with
  | ok a => exact ⟨fun h => (nomatch h), fun h => (nomatch h)⟩
  | error e' => exact ⟨fun h => (by cases h; rfl), fun h => (by cases h; rfl)⟩

theorem discard_return (x : Except Failure α) (f : α → β) :
    discard (do return f (← x) : Except Failure β) = discard x := by
  cases x <;> rfl

theorem discard_both (x : Except Failure α) (y : Except Failure β) (f : α → β → γ) :
    discard (do return f (← x) (← y) : Except Failure γ) = discard x >>= fun _ => discard y := by
  cases x with
  | error e => rfl
  | ok a => cases y <;> rfl

end discard

namespace Principal

theorem bindAll_append (p : Principal) (cs ds : List Comparison) :
    p.bindAll (cs ++ ds) = p.bindAll cs >>= fun _ => p.bindAll ds := by
  induction cs with
  | nil => rfl
  | cons c cs ih =>
      rw [List.cons_append, bindAll, bindAll, ih]
      cases c.expected p <;> rfl

/-- All comparisons can be bound exactly when each of them can. -/
theorem bindAll_eq_ok {p : Principal} {cs : List Comparison} :
    p.bindAll cs = .ok () ↔ ∀ c ∈ cs, ∃ v, c.expected p = .ok v := by
  induction cs with
  | nil => exact ⟨fun _ _ hc => (nomatch hc), fun _ => rfl⟩
  | cons c cs ih =>
      rw [bindAll, bind_eq_ok, List.forall_mem_cons, ← ih, ← discard_eq_ok]
      exact ⟨fun ⟨_, hc, hcs⟩ => ⟨hc, hcs⟩, fun ⟨hc, hcs⟩ => ⟨(), hc, hcs⟩⟩

end Principal

/-! ### Making filters -/

section render
variable {Place Fragment : Type} {l : FilterLanguage Place Fragment} {place : Place} {p : Principal}

/-- Whether writing a comparison in a language fails only as binding its right side does. -/
def BindsOnly (l : FilterLanguage Place Fragment) (place : Place) (p : Principal) (c : Comparison) :
    Prop :=
  discard (c.render l place p) = discard (c.expected p)

/-- A comparison whose path can be followed makes a filter of records once its right side is bound. -/
theorem Comparison.bindsOnly_of_follow {r : Registry} {type target : String} {c : Comparison}
    (h : Plan.follow r type c.path.relations = .ok target) :
    BindsOnly (RecordFilter.language r) (RecordFilter.rootOf type) p c := by
  obtain ⟨reached, hreached⟩ := RecordFilter.traverseAll_of_follow _ (RecordFilter.rootOf type) h
  unfold BindsOnly render
  rw [hreached]
  cases c.expected p <;> rfl

namespace Plan

mutual

/-- Writing a plan binds its comparisons in their order. -/
theorem discard_render : ∀ plan : Plan, (∀ c ∈ plan.comparisons, BindsOnly l place p c) →
    discard (plan.render l place p) = p.bindAll plan.comparisons
  | .compare c, h => by
      have hc : discard (c.render l place p) = discard (c.expected p) := h c (List.mem_singleton.mpr rfl)
      rw [render, hc, comparisons, Principal.bindAll]
      cases c.expected p <;> rfl
  | .all parts, h => by
      rw [render, discard_return, discard_renderParts parts h, comparisons]
  | .any parts, h => by
      rw [render, discard_return, discard_renderParts parts h, comparisons]
  | .not inner, h => by
      have hinner : ∀ c ∈ inner.comparisons, BindsOnly l place p c := h
      rw [render, discard_return, discard_render inner hinner, comparisons]

theorem discard_renderParts : ∀ parts : List Plan, (∀ c ∈ comparisonsOf parts, BindsOnly l place p c) →
    discard (renderParts l place p parts) = p.bindAll (comparisonsOf parts)
  | [], _ => rfl
  | part :: rest, h => by
      obtain ⟨hpart, hrest⟩ := List.forall_mem_append.mp h
      rw [renderParts, discard_both, discard_render part hpart, discard_renderParts rest hrest,
        comparisonsOf, Principal.bindAll_append]

end

end Plan

namespace Request

/-- The fragments of permissions are their plans, written one after another, and a last fragment that
every resource satisfies if some permission has no condition. -/
theorem fragments_eq (l : FilterLanguage Place Fragment) (place : Place) (p : Principal) :
    ∀ candidates : List Permission, fragments l place p candidates = do
      return (← Plan.renderParts l place p (boundPlans candidates)) ++
        if candidates.any (·.isUnconditional) then [l.always] else []
  | [] => rfl
  | candidate :: rest => by
      unfold fragments boundPlans
      rw [List.any_cons, Permission.isUnconditional]
      cases hplan : candidate.plan with
      | none => rfl
      | some plan =>
          have ih := fragments_eq l place p rest
          simp only [ih, Plan.renderParts, Option.isNone_some, Bool.false_or]
          cases plan.render l place p with
          | error e => rfl
          | ok f => cases Plan.renderParts l place p (boundPlans rest) <;> rfl

theorem discard_fragments {candidates : List Permission}
    (h : ∀ c ∈ boundComparisons candidates, BindsOnly l place p c) :
    discard (fragments l place p candidates) = p.bindAll (boundComparisons candidates) := by
  rw [fragments_eq, discard_return]
  exact Plan.discard_renderParts _ h

end Request
end render

theorem exists_of_mem_boundPlans {plan : Plan} : ∀ {permissions : List Permission},
    plan ∈ boundPlans permissions → ∃ p ∈ permissions, p.plan = some plan
  | p :: rest, h => by
      unfold boundPlans at h
      cases hplan : p.plan with
      | none =>
          simp only [hplan] at h
          cases h
      | some found =>
          simp only [hplan] at h
          rcases List.mem_cons.mp h with rfl | h
          · exact ⟨p, List.mem_cons_self, hplan⟩
          · obtain ⟨p', hp', hfound⟩ := exists_of_mem_boundPlans h
            exact ⟨p', List.mem_cons_of_mem p hp', hfound⟩

theorem Plan.exists_of_mem_comparisonsOf {c : Comparison} : ∀ {plans : List Plan},
    c ∈ comparisonsOf plans → ∃ plan ∈ plans, c ∈ plan.comparisons
  | plan :: rest, h => by
      rcases List.mem_append.mp h with hc | hc
      · exact ⟨plan, List.mem_cons_self, hc⟩
      · obtain ⟨plan', hplan, hc⟩ := exists_of_mem_comparisonsOf hc
        exact ⟨plan', List.mem_cons_of_mem plan hplan, hc⟩

theorem exists_of_mem_boundComparisons {c : Comparison} {permissions : List Permission}
    (h : c ∈ boundComparisons permissions) :
    ∃ p ∈ permissions, ∃ plan, p.plan = some plan ∧ c ∈ plan.comparisons := by
  obtain ⟨plan, hplan, hc⟩ := Plan.exists_of_mem_comparisonsOf h
  obtain ⟨p, hp, hfound⟩ := exists_of_mem_boundPlans hplan
  exact ⟨p, hp, plan, hfound, hc⟩

namespace Request

section filter
variable {r : Registry} {q : Request} {ps : Permissions}

/-- Making the filter of a request with a known action comes to binding the comparisons of the
candidates. -/
theorem discard_filter {a : Action} (ha : r.resolveAction q.type q.action = .ok a)
    (hknown : PathsKnown r q.type (ps.candidates q.principal q.type q.action)) :
    discard (q.filter r ps (RecordFilter.language r) (RecordFilter.rootOf q.type)) =
      q.principal.bindAll (boundComparisons (ps.candidates q.principal q.type q.action)) := by
  have hbinds : ∀ c ∈ boundComparisons (ps.candidates q.principal q.type q.action),
      BindsOnly (RecordFilter.language r) (RecordFilter.rootOf q.type) q.principal c := by
    intro c hc
    obtain ⟨p, hp, plan, hplan, hc⟩ := exists_of_mem_boundComparisons hc
    obtain ⟨target, htarget⟩ := (hknown p hp plan hplan c hc).exists_follow
    exact Comparison.bindsOnly_of_follow htarget
  unfold filter
  rw [candidates_ok ha, ok_bind]
  split
  · rename_i hempty
    rw [List.isEmpty_iff.mp hempty]
    rfl
  · rw [discard_return, discard_fragments hbinds]

/-- Where a check over a catalog grants, the filter of the request fails exactly as binding the
comparisons of the candidates does, one after another up to the first candidate without a condition.
If all of them can be bound, there is a filter and it selects the resource. -/
theorem filter_of_granted {c : Catalog} {declarations : List Declaration} {ds : List Definition}
    (hr : c.registry declarations = .ok r) (hps : Permissions.load r ds = .ok ps)
    {subject : Resource} {g : Permission} (hg : (q.check r ps subject []).outcome = .ok ⟨some g⟩) :
    let bound := boundComparisons (ps.candidates q.principal q.type q.action)
    (∀ e, q.filter r ps (RecordFilter.language r) (RecordFilter.rootOf q.type) = .error e ↔
      q.principal.bindAll bound = .error e) ∧
    ((∀ comparison ∈ bound, ∃ v, comparison.expected q.principal = .ok v) ↔
      ∃ found f, q.filter r ps (RecordFilter.language r) (RecordFilter.rootOf q.type) =
        .ok ⟨found, some f⟩ ∧ (f.holds r subject).outcome = .ok true) := by
  intro bound
  obtain ⟨a, ha⟩ := resolveAction_of_check hg
  have hmade := discard_filter ha (pathsKnown_candidates hr hps ha)
  refine ⟨fun e => ?_, ?_⟩
  · rw [← hmade, discard_eq_error]
  · rw [← Principal.bindAll_eq_ok, ← hmade, discard_eq_ok]
    constructor
    · rintro ⟨⟨found, filter?⟩, hq⟩
      have hagree := agree_selection
        (sameOutcome_onComparisons (Catalog.registry_answers hr) q.principal q.type subject) hq
      have hholds : (Selection.holds r subject ⟨found, filter?⟩).outcome = .ok true := by
        rw [← hagree, Inquiry.outcome_map_pure, hg]
        rfl
      -- what is selected is selected by a filter
      cases filter? with
      | none => cases hholds
      | some f => exact ⟨found, f, hq, hholds⟩
    · rintro ⟨found, f, hq, -⟩
      exact ⟨_, hq⟩

end filter

end Request

/-! ### A board of tasks -/

namespace Board

def openTask : CatalogRecord := ⟨[("id", .string "t1"), ("status", .string "OPEN")]⟩

def catalog : Catalog := ⟨[("task", [openTask])]⟩

def declarations : List Declaration := [⟨"task", ["view"], []⟩]

def registry : Registry := ⟨declarations.map (·.provider catalog)⟩

def isOpen : Condition := .compare "status" .equals (.literal (.infer (.string "OPEN")))

def ofTeam : Condition := .compare "team" .equals (.principal "team" .string)

/-- Users may view the open tasks, and the tasks of their team. -/
def definitions : List Definition :=
  [⟨"user", "task", "view", some isOpen⟩, ⟨"user", "task", "view", some ofTeam⟩]

def openRule : Permission where
  id := Permissions.idOf "user" ⟨"task", "view"⟩ 0
  role := "user"
  action := ⟨"task", "view"⟩
  condition := some isOpen
  plan := some (.compare ⟨⟨[], "status"⟩, .equals, .value (.string "OPEN"), .string⟩)

def teamRule : Permission where
  id := Permissions.idOf "user" ⟨"task", "view"⟩ 1
  role := "user"
  action := ⟨"task", "view"⟩
  condition := some ofTeam
  plan := some (.compare ⟨⟨[], "team"⟩, .equals, .attribute "team", .string⟩)

/-- The request of a user of no team. -/
def loner : Request := ⟨⟨"alice", ["user"], []⟩, "task", "view"⟩

def member : Request := ⟨⟨"alice", ["user"], [("team", .string "red")]⟩, "task", "view"⟩

end Board

namespace Request

/-- With a team, an open task that may be viewed is selected. -/
theorem filter_of_granted_board :
    Permissions.load Board.registry Board.definitions = .ok [Board.openRule, Board.teamRule] ∧
    (Board.member.check Board.registry [Board.openRule, Board.teamRule] Board.openTask.view
      []).outcome = .ok ⟨some Board.openRule⟩ ∧
    ∃ found f, Board.member.filter Board.registry [Board.openRule, Board.teamRule]
        (RecordFilter.language Board.registry) (RecordFilter.rootOf "task") = .ok ⟨found, some f⟩ ∧
      (f.holds Board.registry Board.openTask.view).outcome = .ok true := by
  have hr : Board.catalog.registry Board.declarations = .ok Board.registry := rfl
  have hps : Permissions.load Board.registry Board.definitions =
      .ok [Board.openRule, Board.teamRule] := rfl
  have hg : (Board.member.check Board.registry [Board.openRule, Board.teamRule] Board.openTask.view
      []).outcome = .ok ⟨some Board.openRule⟩ := rfl
  refine ⟨hps, hg, (filter_of_granted hr hps hg).2.mp ?_⟩
  intro comparison hcomparison
  rcases List.mem_cons.mp hcomparison with rfl | hcomparison
  · exact ⟨.string "OPEN", rfl⟩
  · rw [List.mem_singleton.mp hcomparison]
    exact ⟨.string "red", rfl⟩

/-- A user of no team may view an open task, but there is no filter for what this user may view. -/
theorem granted_without_filter_board :
    Board.catalog.registry Board.declarations = .ok Board.registry ∧
    Permissions.load Board.registry Board.definitions = .ok [Board.openRule, Board.teamRule] ∧
    (Board.loner.check Board.registry [Board.openRule, Board.teamRule] Board.openTask.view
      []).outcome = .ok ⟨some Board.openRule⟩ ∧
    Board.loner.filter Board.registry [Board.openRule, Board.teamRule]
      (RecordFilter.language Board.registry) (RecordFilter.rootOf "task") =
        .error (.missingAttribute "team") :=
  ⟨rfl, rfl, rfl, rfl⟩

end Request
end AccessControl
