import AccessControl.Proofs.Plan
import AccessControl.Proofs.Rules

/-! # Registries that know more types

A registry is within another if every type that it knows has the same provider there
(`Registry.Within`).  In a registry that was built, what starts at a known type stays among known
types.  So a definition for such a type holds for the same resources in both
(`Definition.holds_of_within`), and neither further types nor the order of registration make a
difference. -/

namespace AccessControl

namespace Registry

/-- Whether every type that a registry knows has the same provider in another. -/
def Within (r r' : Registry) : Prop :=
  ∀ type p, r.provider type = .ok p → r'.provider type = .ok p

theorem Within.refl (r : Registry) : r.Within r := fun _ _ h => h

/-- A registry is within every other that was built of the same providers and perhaps more. -/
theorem within_of_subset {ps ps' : List Provider} {r r' : Registry} (hr : build ps = .ok r)
    (hr' : build ps' = .ok r') (hps : ps ⊆ ps') : r.Within r' := by
  intro type p hp
  obtain ⟨hmem, rfl⟩ := provider_ok hp
  rw [build_providers hr] at hmem
  exact build_provider hr' (hps hmem)

/-! ### Following relations -/

section following
variable {ps : List Provider} {r r' : Registry} {type : String} {p : Provider}

theorem relation_of_within (h : r.Within r') (hp : r.provider type = .ok p) (name : String) :
    r'.relation type name = r.relation type name := by
  rw [relation, relation, hp, h type p hp]

theorem related_of_within (h : r.Within r') (hp : r.provider type = .ok p) (x : Resource)
    (name : String) : r'.related type x name = r.related type x name := by
  rw [related, related, relation_of_within h hp, ask, ask, hp, h type p hp]

theorem relatedToAll_of_within (h : r.Within r') (hp : r.provider type = .ok p) (name : String) :
    ∀ xs, r'.relatedToAll type name xs = r.relatedToAll type name xs
  | [] => rfl
  | x :: xs => by
      rw [relatedToAll, relatedToAll, related_of_within h hp, relatedToAll_of_within h hp name xs]

theorem reachFrom_of_within (hr : build ps = .ok r) (h : r.Within r') :
    ∀ (path : List String) {type : String} {p : Provider}, r.provider type = .ok p →
    ∀ xs, r'.reachFrom type xs path = r.reachFrom type xs path
  | [], _, _, _, _ => rfl
  | name :: rest, type, p, hp, xs => by
      rw [reachFrom, reachFrom, relation_of_within h hp]
      split
      · rfl
      · refine Inquiry.bind_congr_ok rfl fun found hfound => ?_
        obtain ⟨next, hnext⟩ := build_known hr hfound
        refine Inquiry.bind_congr_ok (relatedToAll_of_within h hp name xs) fun ys _ => ?_
        exact reachFrom_of_within hr h rest hnext ys

/-- A first step leads to a type that the registry knows, also where the caller holds it already. -/
theorem firstStep_known (hr : build ps = .ok r) {subject : Resource} {name : String}
    {context : Context} {a : String × Related}
    (h : (r.firstStep type subject name context).outcome = .ok a) :
    ∃ p, r.provider a.1 = .ok p := by
  unfold firstStep at h
  split at h
  · rw [Inquiry.outcome_bind] at h
    obtain ⟨found, hfound, h⟩ := bind_eq_ok.mp h
    cases h
    exact build_known hr hfound
  · rw [related, Inquiry.outcome_bind] at h
    obtain ⟨found, hfound, h⟩ := bind_eq_ok.mp h
    rw [Inquiry.outcome_bind] at h
    obtain ⟨reached, -, h⟩ := bind_eq_ok.mp h
    cases h
    exact build_known hr hfound

theorem reach_of_within (hr : build ps = .ok r) (h : r.Within r') (hp : r.provider type = .ok p)
    (subject : Resource) (path : List String) (context : Context) :
    r'.reach type subject path context = r.reach type subject path context := by
  cases path with
  | nil => rfl
  | cons name rest =>
      have hstep : r'.firstStep type subject name context = r.firstStep type subject name context := by
        rw [firstStep, firstStep, relation_of_within h hp, related_of_within h hp]
      rw [reach, reach, hstep]
      refine Inquiry.bind_congr_ok rfl fun a ha => ?_
      obtain ⟨next, hnext⟩ := firstStep_known hr ha
      exact reachFrom_of_within hr h rest hnext a.2.toList

end following

end Registry

/-! ### Conditions -/

section conditions
variable {ps : List Provider} {r r' : Registry} {type : String} {p : Provider}

namespace Plan

theorem follow_of_within (hr : Registry.build ps = .ok r) (h : r.Within r') :
    ∀ (path : List String) {type : String} {p : Provider}, r.provider type = .ok p →
    follow r' type path = follow r type path
  | [], _, _, _ => rfl
  | name :: rest, type, p, hp => by
      rw [follow, follow, Registry.relation_of_within h hp]
      cases hfound : r.relation type name with
      | error e => rfl
      | ok found =>
          obtain ⟨next, hnext⟩ := Registry.build_known hr hfound
          exact follow_of_within hr h rest hnext

theorem compileComparison_of_within (hr : Registry.build ps = .ok r) (h : r.Within r')
    (hp : r.provider type = .ok p) (field : String) (operator : Operator) (operand : Operand) :
    compileComparison r' type field operator operand =
      compileComparison r type field operator operand := by
  have hpath : compilePath r' type field = compilePath r type field := by
    simp only [compilePath, follow_of_within hr h _ hp]
  rw [compileComparison, compileComparison, hpath]

mutual

/-- A condition for a known type has the same plan, or is refused for the same reason. -/
theorem compile_of_within (hr : Registry.build ps = .ok r) (h : r.Within r')
    (hp : r.provider type = .ok p) : ∀ c : Condition, compile r' type c = compile r type c
  | .compare field operator operand => by
      rw [compile, compile, compileComparison_of_within hr h hp]
  | .all parts => by rw [compile, compile, compileParts_of_within hr h hp parts]
  | .any parts => by rw [compile, compile, compileParts_of_within hr h hp parts]
  | .not inner => by rw [compile, compile, compile_of_within hr h hp inner]

theorem compileParts_of_within (hr : Registry.build ps = .ok r) (h : r.Within r')
    (hp : r.provider type = .ok p) :
    ∀ parts : List Condition, compileParts r' type parts = compileParts r type parts
  | [] => rfl
  | part :: rest => by
      rw [compileParts, compileParts, compile_of_within hr h hp part,
        compileParts_of_within hr h hp rest]

end

end Plan

/-- A comparison is decided alike for principals of whom it expects the same. -/
theorem Comparison.evaluate_of_within (hr : Registry.build ps = .ok r) (h : r.Within r')
    (hp : r.provider type = .ok p) {c : Comparison} {a b : Principal}
    (hexpected : c.expected b = c.expected a) (context : Context) (subject : Resource) :
    c.evaluate r' ⟨b, type, context⟩ subject = c.evaluate r ⟨a, type, context⟩ subject := by
  exact agree_evaluate (A := .same) hexpected (Registry.reach_of_within hr h hp _ _ _)

/-- A definition for a known type holds for the same resources, on behalf of all principals with the
same attributes. -/
theorem Definition.holds_of_within (hr : Registry.build ps = .ok r) (h : r.Within r') {d : Definition}
    (hp : r.provider d.type = .ok p) {a b : Principal}
    (hexpected : ∀ c : Comparison, c.expected b = c.expected a) (context : Context)
    (subject : Resource) :
    d.holds r' ⟨b, d.type, context⟩ subject = d.holds r ⟨a, d.type, context⟩ subject := by
  unfold holds
  split
  · rfl
  · rename_i condition _
    rw [Plan.compile_of_within hr h hp]
    refine Inquiry.bind_congr_ok rfl fun plan _ => ?_
    exact Plan.evaluate_congr fun c _ =>
      Comparison.evaluate_of_within hr h hp (hexpected c) context subject

end conditions
end AccessControl
