import AccessControl.Policy
import AccessControl.Proofs.Inquiry

/-! # What building a registry establishes

A registry is built exactly of providers of different types that are well declared
(`Provider.WellDeclared`) and whose relations lead to each other's types (`build_eq_ok`).  It holds
them in their order (`build_providers`) and finds each by its type (`build_provider`), each relation
by its name (`relation_eq_ok`), and actions of the right type (`build_action_type`).
`Registry.Answers` says of a registry that its providers know every relation that they declare. -/

namespace AccessControl

/-- The entry with a key, where no two entries have one key. -/
theorem find?_key_eq_some {α : Type} {key : α → String} {name : String} {x : α} : ∀ {xs : List α},
    (xs.map key).Nodup → (xs.find? (key · == name) = some x ↔ x ∈ xs ∧ key x = name)
  | [], _ => by simp
  | y :: ys, h => by
      rw [List.map_cons, List.nodup_cons] at h
      by_cases hy : key y = name
      · rw [List.find?_cons_of_pos (by simpa using hy), Option.some.injEq, List.mem_cons]
        constructor
        · rintro rfl
          exact ⟨Or.inl rfl, hy⟩
        · rintro ⟨rfl | hx, hname⟩
          · rfl
          · exact absurd (hname.trans hy.symm ▸ List.mem_map_of_mem hx) h.1
      · rw [List.find?_cons_of_neg (by simpa using hy), find?_key_eq_some h.2, List.mem_cons]
        constructor
        · rintro ⟨hx, hname⟩
          exact ⟨Or.inr hx, hname⟩
        · rintro ⟨rfl | hx, hname⟩
          · exact absurd hname hy
          · exact ⟨hx, hname⟩

/-- No name of a list repeats exactly when the names are different, also from those seen. -/
theorem Policy.repeatedName?_eq_none : ∀ {names seen : List String},
    repeatedName? seen names = none ↔ names.Nodup ∧ ∀ name ∈ names, name ∉ seen
  | [], seen => by simp [repeatedName?]
  | name :: rest, seen => by
      unfold repeatedName?
      by_cases h : name ∈ seen
      · simp [h]
      · rw [if_neg (by simpa using h), repeatedName?_eq_none, List.nodup_cons, List.forall_mem_cons]
        simp only [List.mem_cons, not_or]
        constructor
        · rintro ⟨hrest, hnew⟩
          exact ⟨⟨fun hmem => (hnew name hmem).1 rfl, hrest⟩, h, fun n hn => (hnew n hn).2⟩
        · rintro ⟨⟨hname, hrest⟩, -, hnew⟩
          exact ⟨hrest, fun n hn => ⟨fun heq => hname (heq ▸ hn), hnew n hn⟩⟩

/-- A batch of actions is admitted exactly when they are all of the one type and no key occurs twice,
and it is added to those known. -/
theorem admitActions_eq_ok {type : String} : ∀ {batch known all : List Action},
    (known.map (·.key)).Nodup → (admitActions type known batch = .ok all ↔
      all = known ++ batch ∧ (∀ a ∈ batch, a.type = type) ∧ (all.map (·.key)).Nodup)
  | [], known, all, hknown => by
      rw [admitActions, Except.ok.injEq, List.append_nil]
      constructor
      · rintro rfl
        exact ⟨rfl, by simp, hknown⟩
      · rintro ⟨rfl, -⟩
        rfl
  | a :: rest, known, all, hknown => by
      have htaken : (known.any (·.key == a.key)) = true ↔ a.key ∈ known.map (·.key) := by
        simp
      rw [admitActions]
      by_cases htype : a.type = type
      · rw [if_neg (not_not_intro htype)]
        by_cases hkey : a.key ∈ known.map (·.key)
        · rw [if_pos (htaken.mpr hkey)]
          constructor
          · intro h
            cases h
          · rintro ⟨rfl, -, hnodup⟩
            rw [List.map_append, List.map_cons, List.nodup_append] at hnodup
            exact absurd rfl (hnodup.2.2 a.key hkey a.key List.mem_cons_self)
        · have hnext : ((known ++ [a]).map (·.key)).Nodup := by
            rw [List.map_append, List.nodup_append]
            refine ⟨hknown, by simp, ?_⟩
            intro k hk k' hk' heq
            rw [List.map_singleton, List.mem_singleton] at hk'
            exact hkey (hk' ▸ heq ▸ hk)
          rw [if_neg (by rwa [htaken]), admitActions_eq_ok hnext, List.append_assoc,
            List.singleton_append, List.forall_mem_cons]
          simp only [htype, true_and]
      · rw [if_pos htype]
        constructor
        · intro h
          cases h
        · rintro ⟨-, htypes, -⟩
          exact absurd (htypes a List.mem_cons_self) htype

/-- What a provider has to declare: some actions, all of its own type, and no action or relation
twice. -/
structure Provider.WellDeclared (p : Provider) : Prop where
  actions_ne_nil : p.actions ≠ []
  actions_type : ∀ a ∈ p.actions, a.type = p.type
  actions_nodup : (p.actions.map (·.key)).Nodup
  relations_nodup : (p.relations.map (·.name)).Nodup

namespace Registry

theorem repeatedRelation?_eq : ∀ (relations : List Relation) (seen : List String),
    repeatedRelation? seen relations = Policy.repeatedName? seen (relations.map (·.name))
  | [], _ => rfl
  | relation :: rest, seen => by
      simp only [repeatedRelation?, List.map_cons, Policy.repeatedName?,
        repeatedRelation?_eq rest (relation.name :: seen)]

theorem repeatedRelation?_eq_none {relations : List Relation} :
    repeatedRelation? [] relations = none ↔ (relations.map (·.name)).Nodup := by
  rw [repeatedRelation?_eq, Policy.repeatedName?_eq_none]
  simp

/-- Nothing is wrong with a provider exactly when it is well declared. -/
theorem checkDeclarations_eq_ok {p : Provider} : checkDeclarations p = .ok () ↔ p.WellDeclared := by
  have hadmit : ∀ {all : List Action}, admitActions p.type [] p.actions = .ok all ↔
      all = p.actions ∧ (∀ a ∈ p.actions, a.type = p.type) ∧ (all.map (·.key)).Nodup :=
    admitActions_eq_ok List.nodup_nil
  rw [checkDeclarations]
  cases hactions : p.actions with
  | nil =>
      constructor
      · intro h
        cases h
      · intro h
        exact absurd hactions h.actions_ne_nil
  | cons a rest =>
      rw [List.isEmpty_cons, if_neg Bool.false_ne_true, ← hactions]
      constructor
      · intro h
        obtain ⟨u, hall, h⟩ := bind_eq_ok.mp h
        cases hall' : admitActions p.type [] p.actions with
        | error e =>
            rw [hall'] at hall
            cases hall
        | ok all =>
            obtain ⟨rfl, htypes, hkeys⟩ := hadmit.mp hall'
            refine ⟨by simp [hactions], htypes, hkeys, ?_⟩
            cases hrepeated : repeatedRelation? [] p.relations with
            | none => exact repeatedRelation?_eq_none.mp hrepeated
            | some name =>
                simp only [hrepeated] at h
                cases h
      · intro h
        have hall := hadmit.mpr ⟨rfl, h.actions_type, h.actions_nodup⟩
        have hrelations := repeatedRelation?_eq_none.mpr h.relations_nodup
        simp only [hall, hrelations]
        rfl

/-- One more provider is put behind those registered exactly when they have other types and it is
well declared. -/
theorem register_eq_ok {registered all : List Provider} {p : Provider} :
    register registered p = .ok all ↔
      all = registered ++ [p] ∧ p.type ∉ registered.map (·.type) ∧ p.WellDeclared := by
  have htaken : (registered.any (·.type == p.type)) = true ↔ p.type ∈ registered.map (·.type) := by
    simp
  rw [register]
  by_cases hnew : p.type ∈ registered.map (·.type)
  · rw [if_pos (htaken.mpr hnew)]
    constructor
    · intro h
      cases h
    · rintro ⟨-, h, -⟩
      exact absurd hnew h
  · rw [if_neg (by rwa [htaken]), ← checkDeclarations_eq_ok]
    constructor
    · intro h
      obtain ⟨u, hcheck, h⟩ := bind_eq_ok.mp h
      cases h
      exact ⟨rfl, hnew, hcheck⟩
    · rintro ⟨rfl, -, hcheck⟩
      rw [hcheck]
      rfl

/-- Providers are registered one after another exactly when no two have one type and each is well
declared, and their order is kept. -/
theorem foldlM_register_eq_ok : ∀ {ps registered all : List Provider},
    (registered.map (·.type)).Nodup → (ps.foldlM register registered = .ok all ↔
      all = registered ++ ps ∧ (all.map (·.type)).Nodup ∧ ∀ p ∈ ps, p.WellDeclared)
  | [], registered, all, hnodup => by
      rw [List.foldlM_nil, List.append_nil]
      constructor
      · intro h
        cases h
        exact ⟨rfl, hnodup, by simp⟩
      · rintro ⟨rfl, -⟩
        rfl
  | p :: rest, registered, all, hnodup => by
      rw [List.foldlM_cons, bind_eq_ok, List.forall_mem_cons]
      constructor
      · rintro ⟨next, hp, h⟩
        obtain ⟨rfl, hnew, hp⟩ := register_eq_ok.mp hp
        have hnext : ((registered ++ [p]).map (·.type)).Nodup := by
          rw [List.map_append, List.map_singleton, List.nodup_append]
          exact ⟨hnodup, by simp, fun a ha b hb hab => hnew (List.mem_singleton.mp hb ▸ hab ▸ ha)⟩
        obtain ⟨rfl, hall, hrest⟩ := (foldlM_register_eq_ok hnext).mp h
        rw [List.append_assoc, List.singleton_append] at hall ⊢
        exact ⟨rfl, hall, hp, hrest⟩
      · rintro ⟨rfl, hall, hp, hrest⟩
        have hsplit : registered ++ p :: rest = registered ++ [p] ++ rest := by simp
        rw [hsplit] at hall ⊢
        have hnext : ((registered ++ [p]).map (·.type)).Nodup := by
          rw [List.map_append] at hall
          exact (List.nodup_append.mp hall).1
        refine ⟨registered ++ [p], register_eq_ok.mpr ⟨rfl, ?_, hp⟩,
          (foldlM_register_eq_ok hnext).mpr ⟨rfl, hall, hrest⟩⟩
        rw [List.map_append, List.map_singleton, List.nodup_append] at hnext
        intro hmem
        exact hnext.2.2 p.type hmem p.type List.mem_cons_self rfl

/-- No relation is dangling exactly when all lead to types with providers. -/
theorem danglingTarget?_eq_none {ps : List Provider} : danglingTarget? ps = none ↔
    ∀ p ∈ ps, ∀ found ∈ p.relations, ∃ q ∈ ps, q.type = found.target := by
  simp only [danglingTarget?, List.findSome?_eq_none_iff, Option.map_eq_none_iff, List.find?_eq_none,
    Bool.not_eq_true', Bool.not_eq_false, List.any_eq_true, beq_iff_eq]

/-- A registry is built exactly of providers of different types that are well declared and whose
relations lead to types with providers. -/
theorem build_eq_ok {ps : List Provider} {r : Registry} : build ps = .ok r ↔
    r = ⟨ps⟩ ∧ (ps.map (·.type)).Nodup ∧ (∀ p ∈ ps, p.WellDeclared) ∧
      ∀ p ∈ ps, ∀ found ∈ p.relations, ∃ q ∈ ps, q.type = found.target := by
  rw [build, bind_eq_ok, ← danglingTarget?_eq_none]
  simp only [@foldlM_register_eq_ok ps [] _ List.nodup_nil, List.nil_append, close]
  constructor
  · rintro ⟨all, ⟨rfl, hnodup, hdeclared⟩, h⟩
    split at h
    · cases h
    · rename_i hclosed
      cases h
      exact ⟨rfl, hnodup, hdeclared, hclosed⟩
  · rintro ⟨rfl, hnodup, hdeclared, hclosed⟩
    refine ⟨ps, ⟨rfl, hnodup, hdeclared⟩, ?_⟩
    rw [hclosed]

/-! ### Looking up in a registry -/

/-- The provider found for a type is one of the registry's, and of that type. -/
theorem provider_ok {r : Registry} {type : String} {p : Provider} (h : r.provider type = .ok p) :
    p ∈ r.providers ∧ p.type = type := by
  rw [provider] at h
  cases hp : r.providers.find? (·.type == type) with
  | none =>
      rw [hp] at h
      cases h
  | some q =>
      rw [hp] at h
      cases h
      exact ⟨List.mem_of_find?_eq_some hp, by simpa using List.find?_some hp⟩

/-! ### What was built -/

section build
variable {ps : List Provider} {r : Registry}

theorem build_providers (h : build ps = .ok r) : r.providers = ps := by
  rw [(build_eq_ok.mp h).1]

/-- A registry that was built finds each of its providers by its type. -/
theorem build_provider (h : build ps = .ok r) {p : Provider} (hp : p ∈ ps) :
    r.provider p.type = .ok p := by
  obtain ⟨rfl, hnodup, -⟩ := build_eq_ok.mp h
  have hfind : ps.find? (·.type == p.type) = some p := (find?_key_eq_some hnodup).mpr ⟨hp, rfl⟩
  rw [provider, hfind]

/-- The actions of a type in a registry are actions of that type. -/
theorem build_action_type (h : build ps = .ok r) {type : String} {actions : List Action}
    (hactions : r.actionsFor type = .ok actions) : ∀ a ∈ actions, a.type = type := by
  obtain ⟨rfl, -, hdeclared, -⟩ := build_eq_ok.mp h
  obtain ⟨p, hp, hactions⟩ := bind_eq_ok.mp hactions
  cases hactions
  obtain ⟨hmem, rfl⟩ := provider_ok hp
  exact (hdeclared p hmem).actions_type

/-- The registry knows the relations that the provider of a type declares. -/
theorem relation_eq_ok (h : build ps = .ok r) {type name : String} {found : Relation} :
    r.relation type name = .ok found ↔
      ∃ p ∈ ps, p.type = type ∧ found ∈ p.relations ∧ found.name = name := by
  obtain ⟨rfl, -, hdeclared, -⟩ := build_eq_ok.mp h
  rw [relation, bind_eq_ok]
  constructor
  · rintro ⟨p, hp, hfound⟩
    obtain ⟨hmem, htype⟩ := provider_ok hp
    refine ⟨p, hmem, htype, (find?_key_eq_some (hdeclared p hmem).relations_nodup).mp ?_⟩
    cases hfind : p.relations.find? (·.name == name) with
    | none =>
        rw [hfind] at hfound
        cases hfound
    | some other =>
        rw [hfind] at hfound
        cases hfound
        rfl
  · rintro ⟨p, hmem, rfl, hfound⟩
    refine ⟨p, build_provider h hmem, ?_⟩
    rw [(find?_key_eq_some (hdeclared p hmem).relations_nodup).mpr hfound]
    rfl

/-- A relation of a registry leads to a type with a provider. -/
theorem build_target (h : build ps = .ok r) {type name : String} {found : Relation}
    (hfound : r.relation type name = .ok found) : ∃ p ∈ ps, p.type = found.target := by
  obtain ⟨p, hp, -, hmem, -⟩ := (relation_eq_ok h).mp hfound
  exact (build_eq_ok.mp h).2.2.2 p hp found hmem

/-- A relation of a registry leads to a type that the registry knows. -/
theorem build_known (h : build ps = .ok r) {type name : String} {found : Relation}
    (hfound : r.relation type name = .ok found) : ∃ p, r.provider found.target = .ok p := by
  obtain ⟨p, hp, htype⟩ := build_target h hfound
  exact ⟨p, htype ▸ build_provider h hp⟩

end build

/-- Every relation that the registry knows can be followed from every resource. -/
def Answers (r : Registry) : Prop :=
  ∀ type name found, r.relation type name = .ok found →
    ∀ x, ∃ reached, (r.ask type x name).outcome = .ok reached

end Registry
end AccessControl
