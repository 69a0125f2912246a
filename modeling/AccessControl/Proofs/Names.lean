import AccessControl.Resource

/-! # Names in order

`sortedNames` lists the names of a list once each, in strictly ascending order
(`mem_sortedNames`, `sortedNames_pairwise`).  Taking the entries of a list name by name, in that
order, is sorting the list by name and keeping the order of entries with one name
(`mergeSort_eq_flatMap`). -/

namespace AccessControl

/-! ### Different names in ascending order -/

theorem mem_insertName {name other : String} : ∀ {names : List String},
    other ∈ insertName name names ↔ other = name ∨ other ∈ names
  | [] => by simp [insertName]
  | first :: rest => by
      unfold insertName
      split
      · simp
      · split
        · rename_i heq
          subst heq
          simp
        · rw [List.mem_cons, mem_insertName, List.mem_cons]
          exact or_left_comm

theorem insertName_pairwise {name : String} : ∀ {names : List String}, names.Pairwise (· < ·) →
    (insertName name names).Pairwise (· < ·)
  | [], _ => by simp [insertName]
  | first :: rest, h => by
      obtain ⟨hfirst, hrest⟩ := List.pairwise_cons.mp h
      unfold insertName
      split
      · rename_i hlt
        refine List.pairwise_cons.mpr ⟨?_, h⟩
        intro other hother
        rcases List.mem_cons.mp hother with rfl | hother
        · exact hlt
        · exact String.lt_trans hlt (hfirst other hother)
      · split
        · exact h
        · rename_i hnlt hne
          refine List.pairwise_cons.mpr ⟨?_, insertName_pairwise hrest⟩
          intro other hother
          rcases mem_insertName.mp hother with rfl | hother
          · exact Std.lt_of_le_of_ne (String.not_lt.mp hnlt) (fun heq => hne heq.symm)
          · exact hfirst other hother

theorem mem_sortedNames {name : String} {names : List String} :
    name ∈ sortedNames names ↔ name ∈ names := by
  induction names with
  | nil => simp [sortedNames]
  | cons first rest ih =>
      rw [sortedNames, List.foldr_cons, mem_insertName, List.mem_cons]
      exact or_congr_right ih

theorem sortedNames_pairwise (names : List String) : (sortedNames names).Pairwise (· < ·) := by
  induction names with
  | nil => exact List.Pairwise.nil
  | cons first rest ih => exact insertName_pairwise ih

/-- Lists in strictly ascending order that have the same names are equal. -/
theorem eq_of_pairwise {xs ys : List String} (hxs : xs.Pairwise (· < ·)) (hys : ys.Pairwise (· < ·))
    (h : ∀ name, name ∈ xs ↔ name ∈ ys) : xs = ys := by
  have hnodup : ∀ {names : List String}, names.Pairwise (· < ·) → names.Nodup := by
    intro names hnames
    refine hnames.imp ?_
    intro a b hlt heq
    exact String.lt_irrefl a (heq ▸ hlt)
  have hperm : xs.Perm ys := (List.perm_ext_iff_of_nodup (hnodup hxs) (hnodup hys)).mpr h
  refine hperm.eq_of_pairwise ?_ hxs hys
  intro a b _ _ hab hba
  exact absurd (String.lt_trans hab hba) (String.lt_irrefl a)

/-- Lists that have the same names but for some have the others in the same order. -/
theorem filter_sortedNames_congr {keep : String → Bool} {xs ys : List String}
    (h : ∀ name, keep name = true → (name ∈ xs ↔ name ∈ ys)) :
    (sortedNames xs).filter keep = (sortedNames ys).filter keep := by
  refine eq_of_pairwise ((sortedNames_pairwise xs).filter _) ((sortedNames_pairwise ys).filter _) ?_
  intro name
  simp only [List.mem_filter, mem_sortedNames]
  exact and_congr_left (h name)

theorem Principal.mem_sortedRoles {p : Principal} {role : String} :
    role ∈ p.sortedRoles ↔ role ∈ p.roles := mem_sortedNames

/-! ### Entries by name -/

/-- Entries that bring nothing can be left out. -/
theorem flatMap_filter_of_eq_nil {α β : Type} {f : α → List β} {keep : α → Bool}
    (h : ∀ x, keep x = false → f x = []) (xs : List α) : (xs.filter keep).flatMap f = xs.flatMap f := by
  induction xs with
  | nil => rfl
  | cons x xs ih =>
      cases hx : keep x with
      | true => rw [List.filter_cons_of_pos hx, List.flatMap_cons, List.flatMap_cons, ih]
      | false =>
          rw [List.filter_cons_of_neg (by rw [hx]; exact Bool.false_ne_true), List.flatMap_cons, h x hx,
            List.nil_append, ih]

section entries
variable {α : Type} (key : α → String)

/-- In a list in ascending order of names, the entries of the least name stand in front. -/
theorem eq_filter_append_filter {least : String} : ∀ {xs : List α},
    xs.Pairwise (fun a b => key a ≤ key b) → (∀ x ∈ xs, key x = least ∨ least < key x) →
    xs = xs.filter (key · == least) ++ xs.filter (key · != least)
  | [], _, _ => rfl
  | x :: xs, hxs, hmem => by
      obtain ⟨hx, hxs⟩ := List.pairwise_cons.mp hxs
      rcases hmem x List.mem_cons_self with heq | hlt
      · have ih := eq_filter_append_filter hxs fun y hy => hmem y (List.mem_cons_of_mem x hy)
        rw [List.filter_cons_of_pos (by simpa using heq),
          List.filter_cons_of_neg (by simpa using heq), List.cons_append, ← ih]
      · -- every name is greater, so nothing stands in front
        have hgreater : ∀ y ∈ x :: xs, key y ≠ least := by
          intro y hy heq
          rcases List.mem_cons.mp hy with rfl | hy
          · exact String.lt_irrefl least (heq ▸ hlt)
          · exact String.not_le.mpr hlt (heq ▸ hx y hy)
        have hnone : (x :: xs).filter (key · == least) = [] :=
          List.filter_eq_nil_iff.mpr fun y hy => by simpa using hgreater y hy
        have hall : (x :: xs).filter (key · != least) = x :: xs :=
          List.filter_eq_self.mpr fun y hy => by simpa using hgreater y hy
        rw [hnone, hall, List.nil_append]

/-- A list in ascending order of names is made of the entries of each name in turn. -/
theorem eq_flatMap_of_pairwise : ∀ (names : List String) (xs : List α),
    names.Pairwise (· < ·) → xs.Pairwise (fun a b => key a ≤ key b) →
    (∀ x ∈ xs, key x ∈ names) → xs = names.flatMap fun name => xs.filter (key · == name)
  | [], xs, _, _, hmem => by
      have : xs = [] := List.eq_nil_iff_forall_not_mem.mpr fun x hx => by simpa using hmem x hx
      simp [this]
  | first :: rest, xs, hnames, hxs, hmem => by
      obtain ⟨hfirst, hrest⟩ := List.pairwise_cons.mp hnames
      have hsplit : xs = xs.filter (key · == first) ++ xs.filter (key · != first) :=
        eq_filter_append_filter key hxs fun x hx =>
          (List.mem_cons.mp (hmem x hx)).imp_right (hfirst _)
      have hothers : ∀ x ∈ xs.filter (key · != first), key x ∈ rest := by
        intro x hx
        obtain ⟨hx, hne⟩ := List.mem_filter.mp hx
        exact (List.mem_cons.mp (hmem x hx)).resolve_left (by simpa using hne)
      have ih := eq_flatMap_of_pairwise rest (xs.filter (key · != first)) hrest
        (hxs.filter _) hothers
      have same : ∀ name ∈ rest, (xs.filter (key · != first)).filter (key · == name) =
          xs.filter (key · == name) := by
        intro name hname
        have hne : name ≠ first := fun heq => String.lt_irrefl first (heq ▸ hfirst name hname)
        rw [List.filter_filter]
        refine List.filter_congr fun x _ => ?_
        by_cases h : key x = name
        · simp [h, hne]
        · simp [h]
      rw [List.flatMap_def, List.map_congr_left same, ← List.flatMap_def] at ih
      rw [List.flatMap_cons, ← ih]
      exact hsplit

/-- Whether the name of one entry is not after that of another. -/
def notAfter (a b : α) : Bool := decide (key a ≤ key b)

theorem notAfter_trans (a b c : α) (hab : notAfter key a b = true) (hbc : notAfter key b c = true) :
    notAfter key a c = true := by
  simp only [notAfter, decide_eq_true_eq] at *
  exact String.le_trans hab hbc

theorem notAfter_total (a b : α) : (notAfter key a b || notAfter key b a) = true := by
  simp only [notAfter, Bool.or_eq_true, decide_eq_true_eq]
  exact String.le_total (key a) (key b)

/-- Sorting by name does not change the order of the entries of one name. -/
theorem filter_mergeSort (xs : List α) (name : String) :
    (xs.mergeSort (notAfter key)).filter (key · == name) = xs.filter (key · == name) := by
  have hsub : (xs.filter (key · == name)).Sublist (xs.mergeSort (notAfter key)) := by
    refine List.sublist_mergeSort (notAfter_trans key) (notAfter_total key) ?_ List.filter_sublist
    refine List.pairwise_of_forall_mem_list fun a ha b hb => ?_
    have ha : key a = name := by simpa using (List.mem_filter.mp ha).2
    have hb : key b = name := by simpa using (List.mem_filter.mp hb).2
    simp [notAfter, ha, hb]
  have hsub := hsub.filter (key · == name)
  simp only [List.filter_filter, Bool.and_self] at hsub
  refine (hsub.eq_of_length ?_).symm
  exact (((List.mergeSort_perm xs (notAfter key)).filter (key · == name)).length_eq).symm

/-- Sorting by name is taking the entries of each name in turn, in ascending order of names. -/
theorem mergeSort_eq_flatMap {names : List String} {xs : List α} (hnames : names.Pairwise (· < ·))
    (hmem : ∀ x ∈ xs, key x ∈ names) :
    xs.mergeSort (notAfter key) = names.flatMap fun name => xs.filter (key · == name) := by
  have hsorted := List.pairwise_mergeSort (notAfter_trans key) (notAfter_total key) xs
  have h := eq_flatMap_of_pairwise key names (xs.mergeSort (notAfter key)) hnames
    (hsorted.imp fun h => by simpa [notAfter] using h)
    (fun x hx => hmem x (List.mem_mergeSort.mp hx))
  rw [h]
  simp only [filter_mergeSort]

end entries
end AccessControl
