import AccessControl.Proofs.Catalog

/-! # Checks and filters

A request is answered for one resource by `Request.check` and for all resources by the filter that
`Request.filter` makes.

* Over a catalog the two have the same outcome for every record, failures included, so that the
  records selected are those for which the check grants (`outcome_check_eq_filter`).
* With providers that may fail, the filter still has every answer of the check: it may look at less,
  but what it leaves out never changes an answer (`filter_of_outcome_check`). -/

namespace AccessControl

theorem Inquiry.outcome_map_pure {α β : Type} (x : Inquiry α) (f : α → β) :
    (do return f (← x) : Inquiry β).outcome = x.outcome.map f := by
  rw [Inquiry.outcome_bind]
  cases x.outcome <;> rfl

/-! ### Comparisons -/

/-- Over a registry that answers for every known relation, comparisons and their filters have the
same outcome. -/
theorem sameOutcome_onComparisons {r : Registry} (h : r.Answers) (p : Principal) (type : String)
    (subject : Resource) : Agreement.sameOutcome.OnComparisons r ⟨p, type, []⟩ subject := by
  intro c f hf
  obtain ⟨v, hv, hf⟩ := RecordFilter.render_comparison hf
  obtain ⟨target, htarget⟩ := RecordFilter.follow_of_along _ _ hf
  obtain ⟨ys, hys⟩ := Registry.reach_of_follow h htarget subject
  exact Registry.outcome_holds_of_reach hv hf rfl hys

/-- Over any registry, the filter of a comparison has every answer of the comparison. -/
theorem refines_onComparisons (r : Registry) (p : Principal) (type : String) (subject : Resource) :
    Agreement.refines.OnComparisons r ⟨p, type, []⟩ subject := by
  intro c f hf b hb
  obtain ⟨v, hv, hf⟩ := RecordFilter.render_comparison hf
  -- the comparison has an answer, so its whole path was followed
  have hreach : ∃ ys, (r.reach type subject c.path.relations []).outcome = .ok ys := by
    cases hpath : c.path.relations with
    | nil => exact ⟨[], rfl⟩
    | cons name rest =>
        simp only [Comparison.evaluate, hv, Inquiry.lift_ok, pure_bind, hpath,
          Inquiry.outcome_bind] at hb
        obtain ⟨ys, hys, -⟩ := bind_eq_ok.mp hb
        exact ⟨ys, hys⟩
  obtain ⟨ys, hys⟩ := hreach
  rw [← Registry.outcome_holds_of_reach hv hf rfl hys]
  exact hb

/-! ### A small office

Tasks belong to cases.  Whether one case is urgent is told in words that are no truth value, so that
checks of its tasks fail. -/

namespace Office

def openCase : CatalogRecord := ⟨[("id", .string "c1"), ("urgent", .boolean true)]⟩

def oddCase : CatalogRecord :=
  ⟨[("id", .string "c2"), ("urgent", .string "very"), ("parentId", .string "c1")]⟩

def openTask : CatalogRecord := ⟨[("caseId", .string "c1"), ("id", .string "t1")]⟩

def oddTask : CatalogRecord := ⟨[("caseId", .string "c2"), ("id", .string "t2")]⟩

def looseTask : CatalogRecord := ⟨[("id", .string "t3")]⟩

def catalog : Catalog := ⟨[("case", [openCase, oddCase]), ("task", [openTask, oddTask, looseTask])]⟩

def cases : Declaration := ⟨"case", ["view"], [⟨"parent", "case", .key "parentId"⟩]⟩

def tasks : Declaration := ⟨"task", ["view"], [⟨"relatedCase", "case", .key "caseId"⟩]⟩

def declarations : List Declaration := [cases, tasks]

def registry : Registry := ⟨declarations.map (·.provider catalog)⟩

def isUrgent : Condition := .compare "relatedCase.urgent" .equals (.literal (.infer (.boolean true)))

/-- Users may view the tasks of urgent cases. -/
def urgentRule : Permission where
  id := Permissions.idOf "user" ⟨"task", "view"⟩ 0
  role := "user"
  action := ⟨"task", "view"⟩
  condition := some isUrgent
  plan := some (.compare ⟨⟨["relatedCase"], "urgent"⟩, .equals, .value (.boolean true), .boolean⟩)

def isLoose : Condition := .compare "id" .equals (.literal (.infer (.string "t3")))

/-- Administrators may view one task of no case. -/
def looseRule : Permission where
  id := Permissions.idOf "admin" ⟨"task", "view"⟩ 0
  role := "admin"
  action := ⟨"task", "view"⟩
  condition := some isLoose
  plan := some (.compare ⟨⟨[], "id"⟩, .equals, .value (.string "t3"), .string⟩)

/-- Users may view any task. -/
def anyRule : Permission where
  id := Permissions.idOf "user" ⟨"task", "view"⟩ 1
  role := "user"
  action := ⟨"task", "view"⟩
  condition := none
  plan := none

def definitions : List Definition :=
  [⟨"user", "task", "view", some isUrgent⟩, ⟨"admin", "task", "view", some isLoose⟩,
    ⟨"user", "task", "view", none⟩]

/-- A request of one who holds both roles. -/
def clerk : Request := ⟨⟨"carol", ["user", "admin"], []⟩, "task", "view"⟩

def request : Request := ⟨⟨"alice", ["user"], []⟩, "task", "view"⟩

/-- The filter that the rule makes. -/
def urgentFilter : RecordFilter :=
  .traverse "task" "relatedCase" (.compare "urgent" .equals (.boolean true))

/-- A registry of the same types whose provider cannot tell the case of an archived task. -/
def faultyRegistry : Registry :=
  ⟨[⟨"case", [⟨"case", "view"⟩], [], noRelations "case"⟩,
    ⟨"task", [⟨"task", "view"⟩], [⟨"relatedCase", "case"⟩],
      fun task _ =>
        if (task.field "archived").isSome then .error (.io "no such file")
        else .ok (.one openCase.view)⟩]⟩

def archivedTask : Resource := .ofFields [("archived", .boolean true), ("id", .string "t4")]

end Office

/-! ### Requests -/

namespace Request

/-- Over a catalog, deciding a request for a record and deciding its filter have the same outcome,
whatever the permissions; and what the filter selects from a list of records are those granted, in
their order, unless a check fails, in which case the first such failure is the failure of the
selection. -/
theorem outcome_check_eq_filter {c : Catalog} {declarations : List Declaration} {r : Registry}
    (hr : c.registry declarations = .ok r) (q : Request) (ps : Permissions)
    {selection : Selection RecordFilter}
    (hq : q.filter r ps (RecordFilter.language r) (RecordFilter.rootOf q.type) = .ok selection) :
    (∀ subject : Resource,
      (q.check r ps subject []).outcome.map Decision.granted = (selection.holds r subject).outcome) ∧
    ∀ {α : Type} (view : α → Resource) (f : RecordFilter), selection.filter? = some f →
      (∀ (records : List α) (granted : α → Bool),
        (∀ x ∈ records,
          (q.check r ps (view x) []).outcome.map Decision.granted = .ok (granted x)) →
        (f.select r view records).outcome = .ok (records.filter granted)) ∧
      ∀ (before after : List α) (x : α) (e : Failure),
        (∀ y ∈ before, ∃ d, (q.check r ps (view y) []).outcome = .ok d) →
        (q.check r ps (view x) []).outcome = .error e →
        (f.select r view (before ++ x :: after)).outcome = .error e := by
  have same : ∀ subject : Resource,
      (q.check r ps subject []).outcome.map Decision.granted =
        (selection.holds r subject).outcome := by
    intro subject
    rw [← Inquiry.outcome_map_pure]
    exact agree_selection (sameOutcome_onComparisons (Catalog.registry_answers hr) _ _ subject) hq
  refine ⟨same, fun view f hf => ?_⟩
  have holds : ∀ subject, (selection.holds r subject).outcome = (f.holds r subject).outcome := by
    intro subject
    rw [Selection.holds, hf]
  refine ⟨fun records granted h => ?_, fun before after x e hbefore hx => ?_⟩
  · apply RecordFilter.outcome_select_ok
    intro x hx
    rw [← holds, ← same, h x hx]
  · apply RecordFilter.outcome_select_error
    · rw [← holds, ← same, hx]
      rfl
    · intro y hy
      obtain ⟨d, hd⟩ := hbefore y hy
      refine ⟨d.granted, ?_⟩
      rw [← holds, ← same, hd]
      rfl

/-- The task of an urgent case is selected and the task of no case is left out; a task between them whose
case has a text for its urgency fails the selection as it fails its check. -/
theorem outcome_check_eq_filter_office :
    (Office.urgentFilter.select Office.registry CatalogRecord.view
      [Office.openTask, Office.looseTask]).outcome = .ok [Office.openTask] ∧
    (Office.urgentFilter.select Office.registry CatalogRecord.view
      [Office.openTask, Office.oddTask, Office.looseTask]).outcome =
        .error (.fieldType "urgent" "bool" "string") := by
  have hq : Office.request.filter Office.registry [Office.urgentRule]
      (RecordFilter.language Office.registry) (RecordFilter.rootOf "task") =
      .ok ⟨[Office.urgentRule], some Office.urgentFilter⟩ := rfl
  have hr : Office.catalog.registry Office.declarations = .ok Office.registry := rfl
  have agree := (outcome_check_eq_filter hr Office.request [Office.urgentRule] hq).2
    CatalogRecord.view Office.urgentFilter rfl
  constructor
  · refine agree.1 [Office.openTask, Office.looseTask] (fun x => x.idText == "t1") ?_
    intro x hx
    simp only [List.mem_cons, List.not_mem_nil, or_false] at hx
    rcases hx with rfl | rfl
    · rfl
    · rfl
  · refine agree.2 [Office.openTask] [Office.looseTask] Office.oddTask _ ?_ ?_
    · intro y hy
      rw [List.mem_singleton] at hy
      subst hy
      exact ⟨⟨some Office.urgentRule⟩, rfl⟩
    · rfl

/-- With any providers, where a check has an answer the filter of the request has the same.  So the
filter fails only where the check does, and it never selects what a check denies. -/
theorem filter_of_outcome_check (r : Registry) (q : Request) (ps : Permissions)
    {selection : Selection RecordFilter}
    (hq : q.filter r ps (RecordFilter.language r) (RecordFilter.rootOf q.type) = .ok selection)
    (subject : Resource) :
    (∀ d, (q.check r ps subject []).outcome = .ok d →
      (selection.holds r subject).outcome = .ok d.granted) ∧
    (∀ e, (selection.holds r subject).outcome = .error e →
      ∃ e', (q.check r ps subject []).outcome = .error e') ∧
    (∀ d, (selection.holds r subject).outcome = .ok true →
      (q.check r ps subject []).outcome = .ok d → d.granted = true) := by
  have answers : ∀ d, (q.check r ps subject []).outcome = .ok d →
      (selection.holds r subject).outcome = .ok d.granted := by
    intro d hd
    refine agree_selection (refines_onComparisons r q.principal q.type subject) hq d.granted ?_
    rw [Inquiry.outcome_map_pure, hd]
    rfl
  refine ⟨answers, fun e he => ?_, fun d hholds hd => ?_⟩
  · cases hcheck : (q.check r ps subject []).outcome with
    | error e' => exact ⟨e', rfl⟩
    | ok d =>
        rw [answers d hcheck] at he
        cases he
  · rw [answers d hd] at hholds
    exact Except.ok.inj hholds

/-- A task for which the provider answers is selected as the check grants it, although the provider fails
for other tasks. -/
theorem filter_of_outcome_check_office :
    ((⟨[Office.urgentRule], some Office.urgentFilter⟩ : Selection RecordFilter).holds
      Office.faultyRegistry Office.looseTask.view).outcome = .ok true := by
  have hq : Office.request.filter Office.faultyRegistry [Office.urgentRule]
      (RecordFilter.language Office.faultyRegistry) (RecordFilter.rootOf "task") =
      .ok ⟨[Office.urgentRule], some Office.urgentFilter⟩ := rfl
  exact (filter_of_outcome_check Office.faultyRegistry Office.request [Office.urgentRule] hq
    Office.looseTask.view).1 ⟨some Office.urgentRule⟩ rfl

end Request
end AccessControl
