import AccessControl.Proofs.Acceptance
import AccessControl.Proofs.Extension

/-! # Grants only add up

A request is denied when no candidate holds.  Further definitions and further roles only add
candidates, so that they never turn a grant into a denial: what was granted is granted still, unless
a candidate fails that is now asked before.  For the same reason the order in which definitions and
policy files are written, and how often, makes no difference to an answer
(`Request.grants_additive`). -/

namespace AccessControl

/-- Whether the second of two principals is the first, with the same attributes and at least the same
roles. -/
structure Principal.Within (a b : Principal) : Prop where
  id : b.id = a.id
  attributes : ∀ name, b.attributes.lookup name = a.attributes.lookup name
  roles : a.roles ⊆ b.roles

namespace Principal.Within

theorem refl (a : Principal) : a.Within a := ⟨rfl, fun _ => rfl, List.Subset.refl _⟩

/-- Comparisons expect the same of a principal with more roles. -/
theorem expected_eq {a b : Principal} (h : a.Within b) (c : Comparison) :
    c.expected b = c.expected a := by
  have hattribute : ∀ name, b.attribute? name = a.attribute? name := by
    intro name
    rw [attribute?, attribute?, h.id, h.attributes]
  unfold Comparison.expected Comparison.attributeValue
  simp only [hattribute]

end Principal.Within

namespace Request

section denials
variable {providers providers' : List Provider} {r r' : Registry} {ds ds' : List Definition}
  {ps ps' : Permissions}

/-- A request is denied exactly when its action is known and no candidate holds. -/
theorem check_eq_denied_iff {q : Request} {subject : Resource} {context : Context} :
    (q.check r ps subject context).outcome = .ok ⟨none⟩ ↔
      (∃ a, r.resolveAction q.type q.action = .ok a) ∧
      ∀ p ∈ ps.candidates q.principal q.type q.action,
        (permits r ⟨q.principal, q.type, context⟩ subject p).outcome = .ok false := by
  cases ha : r.resolveAction q.type q.action with
  | error e =>
      have hfailed : q.candidates r ps = .error e := by
        rw [candidates, ha]
        rfl
      simp [check, hfailed]
  | ok a =>
      have hnone : (firstGrant r ⟨q.principal, q.type, context⟩ subject
            ((ps.candidates q.principal q.type q.action).map id)).outcome = .ok none ↔
          ∀ p ∈ ps.candidates q.principal q.type q.action,
            (permits r ⟨q.principal, q.type, context⟩ subject p).outcome = .ok false :=
        firstGrant_eq_none_iff fun _ _ => rfl
      rw [List.map_id] at hnone
      rw [check_eq_firstGrant ha, Inquiry.outcome_map_pure, map_mk_eq_ok, hnone]
      simp

/-- What is denied with more definitions and more roles, and perhaps more types, is denied. -/
theorem denied_of_denied (hr : Registry.build providers = .ok r)
    (hr' : Registry.build providers' = .ok r') (h : r.Within r')
    (hps : Permissions.load r ds = .ok ps) (hps' : Permissions.load r' ds' = .ok ps')
    (hds : ds ⊆ ds') {a b : Principal} (hab : a.Within b) {type action : String}
    {known : Action} (hknown : r.resolveAction type action = .ok known) {subject : Resource}
    {context : Context}
    (hdenied : (check ⟨b, type, action⟩ r' ps' subject context).outcome = .ok ⟨none⟩) :
    (check ⟨a, type, action⟩ r ps subject context).outcome = .ok ⟨none⟩ := by
  obtain ⟨actions, hactions, -⟩ := bind_eq_ok.mp hknown
  obtain ⟨provider, hprovider, -⟩ := bind_eq_ok.mp hactions
  have hno := (check_eq_denied_iff.mp hdenied).2
  refine check_eq_denied_iff.mpr ⟨⟨known, hknown⟩, fun p hp => ?_⟩
  obtain ⟨hmem, hrole, htype, hkey⟩ := Permissions.mem_candidates.mp hp
  -- the definition of this candidate has made a candidate on the other side too
  obtain ⟨d, hd, henacts⟩ := Permissions.exists_enacts hr hps hmem
  obtain ⟨p', hmem', henacts'⟩ := Permissions.exists_enacted hr' hps' (hds hd)
  have hp' : p' ∈ ps'.candidates b type action := by
    refine Permissions.mem_candidates.mpr ⟨hmem', ?_, ?_, ?_⟩
    · rw [henacts'.role, ← henacts.role]
      exact hab.roles hrole
    · rw [henacts'.type, ← henacts.type, htype]
    · rw [henacts'.key, ← henacts.key, hkey]
  have htype : type = d.type := htype.symm.trans henacts.type
  subst htype
  have hd := hno p' hp'
  rw [henacts'.permits_eq, Definition.holds_of_within hr h hprovider hab.expected_eq] at hd
  rw [henacts.permits_eq]
  exact hd

end denials

/-! ### Order and repetition -/

/-- Whether two checks have the same answer, if both have one. -/
def SameAnswer (x y : Inquiry Decision) : Prop :=
  ∀ d e, x.outcome = .ok d → y.outcome = .ok e → d.granted = e.granted

/-- Two checks of which neither grants what the other denies have the same answer. -/
theorem sameAnswer_of_denied {x y : Inquiry Decision}
    (hxy : ∀ d, x.outcome = .ok d → y.outcome = .ok ⟨none⟩ → x.outcome = .ok ⟨none⟩)
    (hyx : ∀ d, y.outcome = .ok d → x.outcome = .ok ⟨none⟩ → y.outcome = .ok ⟨none⟩) :
    SameAnswer x y := by
  rintro ⟨found⟩ ⟨found'⟩ hx hy
  cases found with
  | none =>
      rw [hyx _ hy hx] at hy
      cases hy
      rfl
  | some g =>
      cases found' with
      | some g' => rfl
      | none =>
          rw [hxy _ hx hy] at hx
          cases hx

section order
variable {providers providers' : List Provider} {r r' : Registry} {ds ds' : List Definition}
  {ps ps' : Permissions}

/-- Neither the order of types and definitions nor their repetition makes a difference. -/
theorem sameAnswer_of_subset (hr : Registry.build providers = .ok r)
    (hr' : Registry.build providers' = .ok r') (h : r.Within r') (h' : r'.Within r)
    (hps : Permissions.load r ds = .ok ps) (hps' : Permissions.load r' ds' = .ok ps')
    (hds : ds ⊆ ds') (hds' : ds' ⊆ ds) (q : Request) (subject : Resource) (context : Context) :
    SameAnswer (q.check r ps subject context) (q.check r' ps' subject context) := by
  refine sameAnswer_of_denied (fun d hd hdenied => ?_) (fun d hd hdenied => ?_)
  · obtain ⟨a, ha⟩ := resolveAction_of_check hd
    exact denied_of_denied hr hr' h hps hps' hds (.refl _) ha hdenied
  · obtain ⟨a, ha⟩ := resolveAction_of_check hd
    exact denied_of_denied hr' hr h' hps' hps hds' (.refl _) ha hdenied

/-- What policies are loaded as over a catalog. -/
def Loads (c : Catalog) (policies : List Policy) (r : Registry) (ps : Permissions) : Prop :=
  ∃ p, Policy.merge policies = .ok p ∧ c.registry p.resources = .ok r ∧
    Permissions.load r p.permissions = .ok ps

/-- The types that policies declare are known wherever these policies are among those loaded. -/
theorem within_of_loads {c : Catalog} {policies policies' : List Policy}
    (hr : c.registry (policies.flatMap (·.resources)) = .ok r)
    (hr' : c.registry (policies'.flatMap (·.resources)) = .ok r') (h : policies ⊆ policies') :
    r.Within r' := by
  refine Registry.within_of_subset hr hr' (List.map_subset _ fun d hd => ?_)
  obtain ⟨p, hp, hd⟩ := List.mem_flatMap.mp hd
  exact List.mem_flatMap.mpr ⟨p, h hp, hd⟩

/-- Grants only add up.  With more definitions, written in any order and as often as one likes, and
on behalf of one who holds more roles, what was denied with them was denied without them, and what
was granted is granted or fails.  So with the same definitions, or with the same policy files, two
checks that both have an answer have the same. -/
theorem grants_additive :
    (∀ {providers r ds ds' ps ps'}, Registry.build providers = .ok r →
      Permissions.load r ds = .ok ps → Permissions.load r ds' = .ok ps' → ds ⊆ ds' →
      ∀ {a b : Principal}, a.Within b → ∀ type action subject context,
        ((check ⟨b, type, action⟩ r ps' subject context).outcome = .ok ⟨none⟩ →
          (check ⟨a, type, action⟩ r ps subject context).outcome = .ok ⟨none⟩) ∧
        ∀ g, (check ⟨a, type, action⟩ r ps subject context).outcome = .ok ⟨some g⟩ →
          (∃ g', (check ⟨b, type, action⟩ r ps' subject context).outcome = .ok ⟨some g'⟩) ∨
            ∃ e, (check ⟨b, type, action⟩ r ps' subject context).outcome = .error e) ∧
    (∀ {providers r ds ds' ps ps'}, Registry.build providers = .ok r →
      Permissions.load r ds = .ok ps → Permissions.load r ds' = .ok ps' → ds ⊆ ds' → ds' ⊆ ds →
      ∀ (q : Request) subject context,
        SameAnswer (q.check r ps subject context) (q.check r ps' subject context)) ∧
    ∀ {c policies policies' r r' ps ps'}, Loads c policies r ps → Loads c policies' r' ps' →
      policies ⊆ policies' → policies' ⊆ policies → ∀ (q : Request) subject context,
        SameAnswer (q.check r ps subject context) (q.check r' ps' subject context) := by
  refine ⟨?more, ?definitions, ?files⟩
  case more =>
    intro providers r ds ds' ps ps' hr hps hps' hds a b hab type action subject context
    have denied : (check ⟨b, type, action⟩ r ps' subject context).outcome = .ok ⟨none⟩ →
        (check ⟨a, type, action⟩ r ps subject context).outcome = .ok ⟨none⟩ := by
      intro hdenied
      obtain ⟨known, hknown⟩ := resolveAction_of_check hdenied
      exact denied_of_denied hr hr (.refl r) hps hps' hds hab hknown hdenied
    refine ⟨denied, fun g hg => ?_⟩
    cases hcheck : (check ⟨b, type, action⟩ r ps' subject context).outcome with
    | error e => exact .inr ⟨e, rfl⟩
    | ok d =>
        obtain ⟨found⟩ := d
        cases found with
        | some g' => exact .inl ⟨g', rfl⟩
        | none =>
            rw [denied hcheck] at hg
            cases hg
  case definitions =>
    intro providers r ds ds' ps ps' hr hps hps' hds hds'
    exact sameAnswer_of_subset hr hr (.refl r) (.refl r) hps hps' hds hds'
  case files =>
    rintro c policies policies' r r' ps ps' ⟨p, hp, hr, hps⟩ ⟨p', hp', hr', hps'⟩ h h'
    obtain ⟨rfl, -⟩ := Policy.merge_eq_ok.mp hp
    obtain ⟨rfl, -⟩ := Policy.merge_eq_ok.mp hp'
    have hds : ∀ {xs ys : List Policy}, xs ⊆ ys →
        xs.flatMap (·.permissions) ⊆ ys.flatMap (·.permissions) := by
      intro xs ys hsub d hd
      obtain ⟨x, hx, hd⟩ := List.mem_flatMap.mp hd
      exact List.mem_flatMap.mpr ⟨x, hsub hx, hd⟩
    exact sameAnswer_of_subset hr hr' (within_of_loads hr hr' h) (within_of_loads hr' hr h') hps hps'
      (hds h) (hds h')

end order

end Request

/-! ### In the office -/

namespace Office

/-- The rule that lets users view any task, where it is the first of its role. -/
def firstRule : Permission := { anyRule with id := Permissions.idOf "user" ⟨"task", "view"⟩ 0 }

/-- The request of one who holds the role of the administrators too. -/
def secondRequest : Request := ⟨⟨"alice", ["admin", "user"], []⟩, "task", "view"⟩

def types : Policy := ⟨declarations, []⟩

def rules : Policy := ⟨[], definitions⟩

end Office

namespace Request

/-- Where users may view any task, one of them may view a task of an odd case.  With the other rules,
which are asked before, and a role more, the request fails instead.  A file of rules that is loaded
twice, before and after the types, gives no other answer. -/
theorem grants_additive_office :
    (Office.request.check Office.registry [Office.firstRule] Office.oddTask.view []).outcome =
      .ok ⟨some Office.firstRule⟩ ∧
    ((∃ g, (Office.secondRequest.check Office.registry
        [Office.urgentRule, Office.looseRule, Office.anyRule] Office.oddTask.view []).outcome =
          .ok ⟨some g⟩) ∨
      ∃ e, (Office.secondRequest.check Office.registry
        [Office.urgentRule, Office.looseRule, Office.anyRule] Office.oddTask.view []).outcome =
          .error e) ∧
    ∃ r ps, Loads Office.catalog [Office.rules, Office.types, Office.rules] r ps ∧
      SameAnswer (Office.clerk.check Office.registry
          [Office.urgentRule, Office.looseRule, Office.anyRule] Office.openTask.view [])
        (Office.clerk.check r ps Office.openTask.view []) := by
  have hr : Registry.build (Office.declarations.map (·.provider Office.catalog)) =
      .ok Office.registry := rfl
  have hfirst : Permissions.load Office.registry [⟨"user", "task", "view", none⟩] =
      .ok [Office.firstRule] := rfl
  have hall : Permissions.load Office.registry Office.definitions =
      .ok [Office.urgentRule, Office.looseRule, Office.anyRule] := rfl
  have hsubset : [⟨"user", "task", "view", none⟩] ⊆ Office.definitions := by
    intro d hd
    rw [List.mem_singleton.mp hd]
    exact List.mem_cons_of_mem _ (List.mem_cons_of_mem _ List.mem_cons_self)
  have hroles : Office.request.principal.Within Office.secondRequest.principal :=
    ⟨rfl, fun _ => rfl, by decide⟩
  have hgrant : (Office.request.check Office.registry [Office.firstRule] Office.oddTask.view
      []).outcome = .ok ⟨some Office.firstRule⟩ := rfl
  have hload : Loads Office.catalog [Office.types, Office.rules] Office.registry
      [Office.urgentRule, Office.looseRule, Office.anyRule] := ⟨_, rfl, rfl, rfl⟩
  have hagain : Loads Office.catalog [Office.rules, Office.types, Office.rules] Office.registry _ :=
    ⟨_, rfl, rfl, rfl⟩
  obtain ⟨hmore, -, hfiles⟩ := grants_additive
  refine ⟨hgrant, ?_, Office.registry, _, hagain, ?_⟩
  · exact (hmore hr hfirst hall hsubset hroles "task" "view" Office.oddTask.view []).2 _ hgrant
  · exact hfiles hload hagain (by simp) (by simp) Office.clerk Office.openTask.view []

end Request
end AccessControl
