import AccessControl.Proofs.Dependence

/-! # Related resources at hand

A caller may hold related resources already and hand them over as a context, by the relation that leads
to them from the subject.  Only the first step of a path consults the context.  So contexts that hold
the same for the relations that paths of the candidates start with are the same to a check, whatever
else they hold and in whatever shape; and a context that holds what the provider would have answered
changes nothing but the number of lookups (`Request.check_with_context`).

Both are about the steps of one path, `Registry.reach_congr` and `Registry.outcome_reach_of_confirms`;
`Request.agree_check` carries them to decisions. -/

namespace AccessControl

/-- Whether a path in the conditions of permissions starts with a relation. -/
def StartsWith (permissions : List Permission) (name : String) : Prop :=
  ∃ c, Mentions permissions c ∧ c.path.relations.head? = some name

/-- The resources at hand for a relation, if there is an entry for it. -/
def Context.held? (context : Context) (name : String) : Option (List Resource) :=
  (context.lookup name).map Related.toList

/-- Whether the provider of a type would answer what a context holds for a relation of a resource, if
there is an entry for it. -/
def Registry.Confirms (r : Registry) (type : String) (subject : Resource) (context : Context)
    (name : String) : Prop :=
  ∀ held, context.held? name = some held →
    ∃ p reached, r.provider type = .ok p ∧ p.related subject name = .ok reached ∧ reached.toList = held

namespace Registry

variable {r : Registry} {type name : String} {subject : Resource} {context context' : Context}

/-- A path from resources at hand. -/
theorem reach_of_held {held : List Resource} (h : context.held? name = some held)
    (rest : List String) :
    r.reach type subject (name :: rest) context =
      (do r.reachFrom (← r.relation type name).target held rest) := by
  obtain ⟨related, hrelated, rfl⟩ := Option.map_eq_some_iff.mp h
  simp only [reach, firstStep, hrelated, bind_assoc, pure_bind]

/-- A path whose first step is not at hand. -/
theorem reach_of_not_held (h : context.held? name = none) (rest : List String) :
    r.reach type subject (name :: rest) context = r.reach type subject (name :: rest) [] := by
  simp only [reach, firstStep, Option.map_eq_none_iff.mp h, List.lookup_nil]

/-- A path is followed alike with contexts that hold the same for its first step. -/
theorem reach_congr {path : List String}
    (h : ∀ name, path.head? = some name → context.held? name = context'.held? name) :
    r.reach type subject path context = r.reach type subject path context' := by
  cases path with
  | nil => rfl
  | cons name rest =>
      have hname : context'.held? name = context.held? name := (h name rfl).symm
      cases hheld : context.held? name with
      | none => rw [reach_of_not_held hheld, reach_of_not_held (hname.trans hheld)]
      | some held => rw [reach_of_held hheld, reach_of_held (hname.trans hheld)]

/-- A path whose first step is confirmed leads where it leads without a context. -/
theorem outcome_reach_of_confirms {path : List String}
    (h : ∀ name, path.head? = some name → r.Confirms type subject context name) :
    (r.reach type subject path context).outcome = (r.reach type subject path []).outcome := by
  cases path with
  | nil => rfl
  | cons name rest =>
      cases hheld : context.held? name with
      | none => rw [reach_of_not_held hheld]
      | some held =>
          obtain ⟨p, reached, hp, hreached, rfl⟩ := h name rfl held hheld
          rw [reach_of_held hheld]
          simp only [reach, firstStep, List.lookup_nil, related, ask, hp, hreached,
            Inquiry.outcome_bind, Inquiry.outcome_lift, Inquiry.outcome_asked,
            Inquiry.outcome_pure, bind_assoc, ok_bind]

end Registry

/-! ### Cases of cases -/

namespace Office

/-- A case below the odd one, which is below the open one. -/
def lowCase : CatalogRecord := ⟨[("id", .string "c3"), ("parentId", .string "c2")]⟩

/-- Users may view cases two levels below an urgent one. -/
def belowRule : Permission where
  id := Permissions.idOf "user" ⟨"case", "view"⟩ 0
  role := "user"
  action := ⟨"case", "view"⟩
  condition := some (.compare "parent.parent.urgent" .equals (.literal (.infer (.boolean true))))
  plan := some (.compare
    ⟨⟨["parent", "parent"], "urgent"⟩, .equals, .value (.boolean true), .boolean⟩)

def caseRequest : Request := ⟨⟨"alice", ["user"], []⟩, "case", "view"⟩

theorem eq_parent_of_startsWith {name : String} (h : StartsWith [belowRule] name) : name = "parent" := by
  obtain ⟨c, ⟨p, hp, plan, hplan, hc⟩, hname⟩ := h
  rw [List.mem_singleton.mp hp] at hplan
  cases hplan
  rw [List.mem_singleton.mp hc] at hname
  cases hname
  rfl

end Office

namespace Request

/-- What a context changes.  If the provider confirms whatever the context holds for relations that
paths of the candidates start with, a check with it has the outcome of a check without.  And
contexts that hold the same for these relations, be it true or not, are the same to a check: entries
for other relations, or for relations further along a path, are never consulted. -/
theorem check_with_context (r : Registry) (ps : Permissions) (q : Request) (subject : Resource) :
    let found := ps.candidates q.principal q.type q.action
    (∀ context, (∀ name, StartsWith found name → r.Confirms q.type subject context name) →
      (q.check r ps subject context).outcome = (q.check r ps subject []).outcome) ∧
    ∀ context context' : Context,
      (∀ name, StartsWith found name → context.held? name = context'.held? name) →
      q.check r ps subject context = q.check r ps subject context' := by
  intro found
  refine ⟨fun context h => ?_, fun context context' h => ?_⟩
  · refine agree_check (A := .sameOutcome) rfl fun c hc => ?_
    refine Comparison.agree_evaluate (A := .sameOutcome) rfl ?_
    exact Registry.outcome_reach_of_confirms fun name hname => h name ⟨c, hc, hname⟩
  · refine agree_check (A := .same) rfl fun c hc => ?_
    refine Comparison.agree_evaluate (A := .same) rfl ?_
    exact Registry.reach_congr fun name hname => h name ⟨c, hc, hname⟩

/-- The case may be viewed with its true parent at hand, which is no second parent.  With a wrong one
at hand the check fails, whatever the context holds besides. -/
theorem check_with_context_office :
    (Office.caseRequest.check Office.registry [Office.belowRule] Office.lowCase.view
      [("parent", .many [Office.oddCase.view])]).outcome = .ok ⟨some Office.belowRule⟩ ∧
    (Office.caseRequest.check Office.registry [Office.belowRule] Office.lowCase.view
      [("parent", .many [Office.lowCase.view]), ("urgent", .missing)]).outcome =
        .error (.fieldType "urgent" "bool" "string") := by
  obtain ⟨confirmed, same⟩ := check_with_context Office.registry [Office.belowRule] Office.caseRequest
    Office.lowCase.view
  constructor
  · refine (confirmed [("parent", .many [Office.oddCase.view])] fun name hname => ?_).trans rfl
    rw [Office.eq_parent_of_startsWith hname]
    intro held hheld
    cases hheld
    exact ⟨_, .one Office.oddCase.view, rfl, rfl, rfl⟩
  · have halike := same [("parent", .many [Office.lowCase.view]), ("urgent", .missing)]
      [("parent", .one Office.lowCase.view)] fun name hname => by
        rw [Office.eq_parent_of_startsWith hname]
        rfl
    rw [halike]
    rfl

end Request
end AccessControl
