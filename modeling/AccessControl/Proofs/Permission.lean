import AccessControl.Permission
import AccessControl.Proofs.Registry

/-! # Loaded permissions

Loading makes one permission of each definition, in the order written (`load_ok`).  The permission
`Enacts` its definition: it has the definition's role, action and condition, and the plan that the
condition compiles to. -/

namespace AccessControl

/-- A permission is what a definition was made into. -/
structure Permission.Enacts (r : Registry) (d : Definition) (p : Permission) : Prop where
  role : p.role = d.role
  type : p.action.type = d.type
  key : p.action.key = d.action
  condition : p.condition = d.condition
  plan : Permissions.planOf r d = .ok p.plan

/-- The plan of a permission is that of the condition written. -/
theorem Permission.Enacts.compile_plan {r : Registry} {d : Definition} {p : Permission}
    (h : p.Enacts r d) {plan : Plan} (hplan : p.plan = some plan) :
    ∃ condition, d.condition = some condition ∧ Plan.compile r d.type condition = .ok plan := by
  have hp := h.plan
  unfold Permissions.planOf at hp
  cases hc : d.condition with
  | none =>
      rw [hc, hplan] at hp
      cases hp
  | some condition =>
      simp only [hc, hplan] at hp
      refine ⟨condition, rfl, ?_⟩
      cases hcompile : Plan.compile r d.type condition with
      | error e => rw [hcompile] at hp; cases hp
      | ok made => rw [hcompile] at hp; cases hp; rfl

namespace Permissions

variable {ps : List Provider} {r : Registry}

theorem actionOf_ok (hr : Registry.build ps = .ok r) {d : Definition} {a : Action}
    (h : actionOf r d = .ok a) : a.type = d.type ∧ a.key = d.action := by
  obtain ⟨actions, hactions, h⟩ := bind_eq_ok.mp h
  cases ha : actions.find? (·.key == d.action) with
  | none =>
      simp only [ha] at h
      cases h
  | some found =>
      simp only [ha] at h
      cases h
      exact ⟨Registry.build_action_type hr hactions a (List.mem_of_find?_eq_some ha),
        by simpa using List.find?_some ha⟩

/-- An accepted definition becomes a permission that enacts it. -/
theorem accept_ok (hr : Registry.build ps = .ok r) {loaded : Permissions} {d : Definition}
    {p : Permission} (h : accept r loaded d = .ok p) : p.Enacts r d := by
  unfold accept at h
  split at h
  · cases h
  · obtain ⟨a, ha, h⟩ := bind_eq_ok.mp h
    obtain ⟨plan, hplan, h⟩ := bind_eq_ok.mp h
    cases h
    obtain ⟨htype, hkey⟩ := actionOf_ok hr ha
    exact ⟨rfl, htype, hkey, rfl, hplan⟩

/-- Loading goes on behind what is loaded already, one permission for each definition. -/
theorem foldlM_accept_ok (hr : Registry.build ps = .ok r) : ∀ (ds : List Definition)
    (loaded : Permissions) {all : Permissions},
    ds.foldlM (fun loaded d => return loaded ++ [← accept r loaded d]) loaded = .ok all →
    ∃ new, all = loaded ++ new ∧ ds.length = new.length ∧ ∀ x ∈ ds.zip new, x.2.Enacts r x.1
  | [], loaded, all, h => by
      cases h
      exact ⟨[], (List.append_nil loaded).symm, rfl, by simp⟩
  | d :: rest, loaded, all, h => by
      rw [List.foldlM_cons] at h
      obtain ⟨next, hnext, h⟩ := bind_eq_ok.mp h
      obtain ⟨p, hp, hnext⟩ := bind_eq_ok.mp hnext
      cases hnext
      obtain ⟨new, rfl, hlength, hnew⟩ := foldlM_accept_ok hr rest (loaded ++ [p]) h
      refine ⟨p :: new, by rw [List.append_assoc, List.singleton_append],
        congrArg (· + 1) hlength, ?_⟩
      intro x hx
      rw [List.zip_cons_cons, List.mem_cons] at hx
      rcases hx with rfl | hx
      · exact accept_ok hr hp
      · exact hnew x hx

theorem load_ok (hr : Registry.build ps = .ok r) {ds : List Definition} {loaded : Permissions}
    (h : load r ds = .ok loaded) :
    ds.length = loaded.length ∧ ∀ x ∈ ds.zip loaded, x.2.Enacts r x.1 := by
  obtain ⟨new, hnew, hlength, hall⟩ := foldlM_accept_ok hr ds [] h
  rw [List.nil_append] at hnew
  subst hnew
  exact ⟨hlength, hall⟩

/-- Every loaded permission enacts some definition. -/
theorem exists_enacts (hr : Registry.build ps = .ok r) {ds : List Definition} {loaded : Permissions}
    (h : load r ds = .ok loaded) {p : Permission} (hp : p ∈ loaded) :
    ∃ d ∈ ds, p.Enacts r d := by
  obtain ⟨hlength, hall⟩ := load_ok hr h
  have hsnd : (ds.zip loaded).map Prod.snd = loaded := List.map_snd_zip (Nat.le_of_eq hlength.symm)
  rw [← hsnd, List.mem_map] at hp
  obtain ⟨x, hx, rfl⟩ := hp
  exact ⟨x.1, (List.of_mem_zip hx).1, hall x hx⟩

/-- Every definition is enacted by some loaded permission. -/
theorem exists_enacted (hr : Registry.build ps = .ok r) {ds : List Definition} {loaded : Permissions}
    (h : load r ds = .ok loaded) {d : Definition} (hd : d ∈ ds) : ∃ p ∈ loaded, p.Enacts r d := by
  obtain ⟨hlength, hall⟩ := load_ok hr h
  have hfst : (ds.zip loaded).map Prod.fst = ds := List.map_fst_zip (Nat.le_of_eq hlength)
  rw [← hfst, List.mem_map] at hd
  obtain ⟨x, hx, rfl⟩ := hd
  exact ⟨x.2, (List.of_mem_zip hx).2, hall x hx⟩

end Permissions
end AccessControl
