import AccessControl.Plan

/-! # Dotted paths

The segments of a dotted text make the text again (`joinWith_segments`), and names without dots are
the segments of the text that they make (`segments_joinWith`).  So a text is a path in exactly one
way (`exists_path_iff`). -/

namespace AccessControl

/-- Texts with a separator between them, one character at a time. -/
theorem toList_joinWith_cons (separator first second : String) (rest : List String) :
    (joinWith separator (first :: second :: rest)).toList =
      first.toList ++ separator.toList ++ (joinWith separator (second :: rest)).toList := by
  simp [joinWith]

/-- The first text, and each of the others after a separator. -/
theorem toList_joinWith_flatMap (separator first : String) : ∀ rest : List String,
    (joinWith separator (first :: rest)).toList =
      first.toList ++ rest.flatMap fun s => separator.toList ++ s.toList
  | [] => by simp [joinWith]
  | second :: rest => by
      rw [toList_joinWith_cons, toList_joinWith_flatMap separator second rest, List.flatMap_cons,
        List.append_assoc, List.append_assoc]

namespace Text

theorem split_ne_nil (separator : Char) : ∀ cs : List Char, split separator cs ≠ []
  | [] => by simp [split]
  | c :: rest => by
      unfold split
      split
      · simp
      · split <;> simp

theorem split_of_not_mem {separator : Char} : ∀ {cs : List Char}, separator ∉ cs →
    split separator cs = [cs]
  | [], _ => rfl
  | c :: rest, h => by
      rw [List.mem_cons, not_or] at h
      unfold split
      rw [if_neg (Ne.symm h.1), split_of_not_mem h.2]

/-- What stands in front of the first separator is the first part. -/
theorem split_append_cons {separator : Char} (ys : List Char) : ∀ {xs : List Char},
    separator ∉ xs → split separator (xs ++ separator :: ys) = xs :: split separator ys
  | [], _ => by
      rw [List.nil_append, split, if_pos rfl]
  | c :: rest, h => by
      rw [List.mem_cons, not_or] at h
      rw [List.cons_append, split, if_neg (Ne.symm h.1), split_append_cons ys h.2]

theorem not_mem_of_mem_split {separator : Char} : ∀ {cs part : List Char},
    part ∈ split separator cs → separator ∉ part
  | [], part, h => by
      rw [split, List.mem_singleton] at h
      simp [h]
  | c :: rest, part, h => by
      unfold split at h
      split at h
      · rcases List.mem_cons.mp h with rfl | h
        · simp
        · exact not_mem_of_mem_split h
      · rename_i hc
        cases hparts : split separator rest with
        | nil => exact absurd hparts (split_ne_nil separator rest)
        | cons first parts =>
            rw [hparts] at h
            have hrest : ∀ p ∈ first :: parts, separator ∉ p :=
              fun p hp => not_mem_of_mem_split (hparts ▸ hp)
            obtain ⟨hfirst, hparts⟩ := List.forall_mem_cons.mp hrest
            rcases List.mem_cons.mp h with rfl | h
            · rw [List.mem_cons, not_or]
              exact ⟨Ne.symm hc, hfirst⟩
            · exact hparts part h

end Text

namespace Plan

theorem segments_ne_nil (field : String) : segments field ≠ [] := by
  unfold segments
  rw [Ne, List.map_eq_nil_iff]
  exact Text.split_ne_nil '.' _

theorem dot_not_mem_of_mem_segments {field s : String} (h : s ∈ segments field) : '.' ∉ s.toList := by
  unfold segments at h
  obtain ⟨part, hpart, rfl⟩ := List.mem_map.mp h
  rw [String.toList_ofList]
  exact Text.not_mem_of_mem_split hpart

theorem segments_singleton {s : String} (h : '.' ∉ s.toList) : segments s = [s] := by
  unfold segments
  rw [Text.split_of_not_mem h, List.map_singleton, String.ofList_toList]

theorem segments_joinWith_cons {first second : String} {rest : List String} (h : '.' ∉ first.toList) :
    segments (joinWith "." (first :: second :: rest)) =
      first :: segments (joinWith "." (second :: rest)) := by
  have hdot : ".".toList = ['.'] := rfl
  unfold segments
  rw [toList_joinWith_cons, hdot, List.append_assoc, List.singleton_append, Text.split_append_cons _ h,
    List.map_cons, String.ofList_toList]

/-- Names without dots are the segments of the path that they make. -/
theorem segments_joinWith : ∀ {names : List String}, names ≠ [] → (∀ s ∈ names, '.' ∉ s.toList) →
    segments (joinWith "." names) = names
  | [], h, _ => absurd rfl h
  | [s], _, h => segments_singleton (h s List.mem_cons_self)
  | first :: second :: rest, _, h => by
      obtain ⟨hfirst, hrest⟩ := List.forall_mem_cons.mp h
      rw [segments_joinWith_cons hfirst, segments_joinWith (List.cons_ne_nil _ _) hrest]

/-- The segments of a text make the text again. -/
theorem joinWith_segments (field : String) : joinWith "." (segments field) = field := by
  have hjoin : ∀ cs : List Char,
      (joinWith "." ((Text.split '.' cs).map .ofList)).toList = cs := by
    intro cs
    induction cs with
    | nil => simp [Text.split, joinWith]
    | cons c rest ih =>
        unfold Text.split
        cases hparts : Text.split '.' rest with
        | nil => exact absurd hparts (Text.split_ne_nil '.' rest)
        | cons first parts =>
            rw [hparts, List.map_cons] at ih
            split
            · rename_i hc
              rw [List.map_cons, List.map_cons, toList_joinWith_cons, ih, hc]
              simp
            · cases parts with
              | nil => simpa [joinWith] using ih
              | cons second more =>
                  rw [List.map_cons, toList_joinWith_cons, String.toList_ofList] at ih
                  rw [List.map_cons, List.map_cons, toList_joinWith_cons, String.toList_ofList,
                    List.cons_append, List.cons_append, ih]
  exact String.toList_inj.mp (hjoin field.toList)

/-- A text is a path of names that are neither empty nor hold a dot in one way at most: the last of its
segments is the field, and those before it are the relations. -/
theorem exists_path_iff {field : String} {P : List String → Prop} :
    (∃ relations last, field = joinWith "." (relations ++ [last]) ∧
        (∀ s ∈ relations ++ [last], s ≠ "" ∧ '.' ∉ s.toList) ∧ P relations) ↔
      "" ∉ segments field ∧ P (segments field).dropLast := by
  constructor
  · rintro ⟨relations, last, rfl, hnames, h⟩
    rw [segments_joinWith (by simp) fun s hs => (hnames s hs).2, List.dropLast_concat]
    exact ⟨fun hmem => (hnames "" hmem).1 rfl, h⟩
  · rintro ⟨hempty, h⟩
    have hsegments := List.dropLast_concat_getLast (segments_ne_nil field)
    refine ⟨(segments field).dropLast, (segments field).getLast (segments_ne_nil field), ?_, ?_, h⟩
    · rw [hsegments, joinWith_segments]
    · rw [hsegments]
      exact fun s hs => ⟨fun heq => hempty (heq ▸ hs), dot_not_mem_of_mem_segments hs⟩

end Plan
end AccessControl
