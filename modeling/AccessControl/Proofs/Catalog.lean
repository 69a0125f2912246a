import AccessControl.Catalog
import AccessControl.Proofs.Reach
import AccessControl.Proofs.Registry

/-! # Registries over a catalog

The providers of declared types never fail on a relation that the registry knows: they follow the
declared link in the catalog (`ask_of_relation`).  So every path that is known can be followed from
every resource (`reach_of_follow`), and over a catalog a comparison and its filter have the same
outcome, failures included. -/

namespace AccessControl

namespace Catalog
variable {c : Catalog} {declarations : List Declaration} {r : Registry}

/-- The provider of a type is that of a declaration of the type. -/
theorem registry_provider (h : c.registry declarations = .ok r) {type : String} {p : Provider}
    (hp : r.provider type = .ok p) : ∃ d ∈ declarations, d.type = type ∧ p = d.provider c := by
  obtain ⟨hmem, htype⟩ := Registry.provider_ok hp
  rw [Registry.build_providers h, List.mem_map] at hmem
  obtain ⟨d, hd, rfl⟩ := hmem
  exact ⟨d, hd, htype, rfl⟩

/-- A relation that the registry knows is declared for its type, and asking for it follows the
declared link. -/
theorem ask_of_relation (h : c.registry declarations = .ok r) {type name : String}
    {found : Relation} (hfound : r.relation type name = .ok found) :
    ∃ d ∈ declarations, d.type = type ∧ ∃ declared ∈ d.relations, declared.name = name ∧
      declared.target = found.target ∧
      ∀ x, (r.ask type x name).outcome = .ok (declared.link.follow c declared.target x) := by
  obtain ⟨p, hp, hfound⟩ := bind_eq_ok.mp hfound
  obtain ⟨d, hd, htype, rfl⟩ := registry_provider h hp
  simp only [Declaration.provider, List.find?_map] at hfound
  cases hdeclared : d.relations.find? (fun x => x.name == name) with
  | none =>
      simp only [Function.comp_def, hdeclared, Option.map_none] at hfound
      cases hfound
  | some declared =>
      simp only [Function.comp_def, hdeclared, Option.map_some] at hfound
      cases hfound
      refine ⟨d, hd, htype, declared, List.mem_of_find?_eq_some hdeclared,
        by simpa using List.find?_some hdeclared, rfl, ?_⟩
      intro x
      simp only [Registry.ask, hp, Inquiry.lift_ok, pure_bind, Inquiry.outcome_asked,
        Declaration.provider, Declaration.related, hdeclared]

/-- A relation leads to a declared type. -/
theorem target_declared (h : c.registry declarations = .ok r) {type name : String}
    {found : Relation} (hfound : r.relation type name = .ok found) :
    ∃ d ∈ declarations, d.type = found.target := by
  obtain ⟨p, hp, htarget⟩ := Registry.build_target h hfound
  rw [List.mem_map] at hp
  obtain ⟨d, hd, rfl⟩ := hp
  exact ⟨d, hd, htarget⟩

theorem registry_answers (h : c.registry declarations = .ok r) : r.Answers := by
  intro type name found hfound x
  obtain ⟨_, _, _, declared, _, _, _, hask⟩ := ask_of_relation h hfound
  exact ⟨_, hask x⟩

end Catalog

namespace Registry
variable {r : Registry}

theorem relatedToAll_of_answers (h : r.Answers) {type name : String} {found : Relation}
    (hfound : r.relation type name = .ok found) :
    ∀ xs, ∃ ys, (r.relatedToAll type name xs).outcome = .ok ys
  | [] => ⟨[], rfl⟩
  | x :: xs => by
      obtain ⟨reached, hx⟩ := h type name found hfound x
      obtain ⟨ys, hxs⟩ := relatedToAll_of_answers h hfound xs
      refine ⟨reached.toList ++ ys, ?_⟩
      simp only [relatedToAll, Inquiry.outcome_bind, outcome_related hfound, hx, hxs]
      rfl

/-- A known path can be followed from any resources of its type. -/
theorem reachFrom_of_follow (h : r.Answers) : ∀ (path : List String) (type : String)
    (xs : List Resource) {target : String}, Plan.follow r type path = .ok target →
    ∃ ys, (r.reachFrom type xs path).outcome = .ok ys
  | [], _, xs, _, _ => ⟨xs, rfl⟩
  | name :: rest, type, xs, target, hf => by
      obtain ⟨found, hfound, hf⟩ := bind_eq_ok.mp hf
      cases xs with
      | nil => exact ⟨[], rfl⟩
      | cons x xs =>
          obtain ⟨next, hnext⟩ := relatedToAll_of_answers h hfound (x :: xs)
          obtain ⟨ys, hys⟩ := reachFrom_of_follow h rest found.target next hf
          refine ⟨ys, ?_⟩
          simp only [reachFrom, List.isEmpty_cons, Bool.false_eq_true, if_false, hfound,
            Inquiry.lift_ok, pure_bind, Inquiry.outcome_bind, hnext, ok_bind, hys]

/-- A known path can be followed from a resource. -/
theorem reach_of_follow (h : r.Answers) {type target : String} {path : List String}
    (hf : Plan.follow r type path = .ok target) (subject : Resource) :
    ∃ ys, (r.reach type subject path []).outcome = .ok ys := by
  cases path with
  | nil => exact ⟨[], rfl⟩
  | cons name rest =>
      obtain ⟨found, hfound, hf⟩ := bind_eq_ok.mp hf
      obtain ⟨reached, hask⟩ := h type name found hfound subject
      obtain ⟨ys, hys⟩ := reachFrom_of_follow h rest found.target reached.toList hf
      refine ⟨ys, ?_⟩
      simp only [reach, firstStep, List.lookup_nil, Inquiry.outcome_bind, outcome_related hfound,
        hask]
      exact hys

end Registry

namespace RecordFilter

/-- A path that a filter goes along is known. -/
theorem follow_of_along {r : Registry} {leaf : RecordFilter} : ∀ (path : List String)
    (type : String) {f : RecordFilter}, along r leaf type path = .ok f →
    ∃ target, Plan.follow r type path = .ok target
  | [], type, _, _ => ⟨type, rfl⟩
  | name :: rest, type, f, h => by
      obtain ⟨found, hfound, h⟩ := bind_eq_ok.mp h
      obtain ⟨g, hg, -⟩ := bind_eq_ok.mp h
      obtain ⟨target, htarget⟩ := follow_of_along rest found.target hg
      refine ⟨target, ?_⟩
      simp only [Plan.follow, hfound, ok_bind, htarget]

end RecordFilter
end AccessControl
