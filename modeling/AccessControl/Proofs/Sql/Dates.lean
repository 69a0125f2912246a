import AccessControl.Proofs.Sql.Comparison
import AccessControl.Proofs.Timestamp.Calendar

/-! # Dates as text on sqlite

On sqlite a date is bound as a text, and texts are compared byte by byte.  Between the years 0 and 9999
this is the order of the milliseconds that the dates fall in, and what the comparison of fields says of
the dates once they are cut off after the milliseconds (`bind_date_order`). -/

namespace AccessControl

/-! ### Bytes -/

namespace Text

/-- The bytes of a text. -/
def bytes (s : String) : List UInt8 := s.toUTF8.data.toList

/-- Characters that are written as one byte each. -/
def IsAscii (cs : List Char) : Prop := ∀ c ∈ cs, c.val ≤ 127

theorem IsAscii.append {cs ds : List Char} (hc : IsAscii cs) (hd : IsAscii ds) :
    IsAscii (cs ++ ds) := fun c h => (List.mem_append.mp h).elim (hc c) (hd c)

theorem IsAscii.cons {c : Char} {cs : List Char} (hc : c.val ≤ 127) (h : IsAscii cs) :
    IsAscii (c :: cs) := List.forall_mem_cons.mpr ⟨hc, h⟩

theorem isAscii_paddedDecimal (width n : Nat) : IsAscii (paddedDecimal width n) := by
  intro c hc
  have hdigit := isDigit_of_mem_paddedDecimal hc
  simp only [isDigit, Bool.and_eq_true, decide_eq_true_eq] at hdigit
  have hnine : '9'.val ≤ 127 := by decide
  exact UInt32.le_trans hdigit.2 hnine

theorem bytes_ofList {cs : List Char} (h : IsAscii cs) :
    bytes (.ofList cs) = cs.map Char.toUInt8 := by
  have hflat : cs.flatMap String.utf8EncodeChar = cs.map Char.toUInt8 := by
    induction cs with
    | nil => rfl
    | cons c cs ih =>
        obtain ⟨hc, hcs⟩ := List.forall_mem_cons.mp h
        have hone : String.utf8EncodeChar c = [c.toUInt8] :=
          String.utf8EncodeChar_eq_singleton (Char.utf8Size_eq_one_iff.mpr hc)
        rw [List.flatMap_cons, hone, ih hcs, List.map_cons, List.singleton_append]
  show (String.ofList cs).toByteArray.data.toList = _
  rw [String.toByteArray_ofList, List.utf8Encode, List.toList_data_toByteArray, hflat]

theorem map_toUInt8_lt_iff : ∀ {cs ds : List Char}, IsAscii cs → IsAscii ds →
    (cs.map Char.toUInt8 < ds.map Char.toUInt8 ↔ cs < ds)
  | [], [], _, _ => by simp
  | [], _ :: _, _, _ => by simp
  | _ :: _, [], _, _ => by simp
  | c :: cs, d :: ds, hc, hd => by
      obtain ⟨hc, hcs⟩ := List.forall_mem_cons.mp hc
      obtain ⟨hd, hds⟩ := List.forall_mem_cons.mp hd
      have ih := map_toUInt8_lt_iff hcs hds
      have hc : c.val.toNat ≤ 127 := hc
      have hd : d.val.toNat ≤ 127 := hd
      have hlt : c.toUInt8 < d.toUInt8 ↔ c < d := by
        rw [Char.toUInt8, Char.toUInt8, UInt8.lt_iff_toNat_lt, UInt32.toNat_toUInt8,
          UInt32.toNat_toUInt8, Char.lt_def, UInt32.lt_iff_toNat_lt]
        omega
      have heq : c.toUInt8 = d.toUInt8 ↔ c = d := by
        rw [Char.toUInt8, Char.toUInt8, ← UInt8.toNat_inj, UInt32.toNat_toUInt8,
          UInt32.toNat_toUInt8, ← Char.val_inj, ← UInt32.toNat_inj]
        omega
      rw [List.map_cons, List.map_cons, List.cons_lt_cons_iff, List.cons_lt_cons_iff, hlt, heq, ih]

/-- Where each character is one byte, texts are ordered byte by byte as they are by characters. -/
theorem bytes_lt_iff {cs ds : List Char} (hc : IsAscii cs) (hd : IsAscii ds) :
    bytes (.ofList cs) < bytes (.ofList ds) ↔
      compare (String.ofList cs) (String.ofList ds) = .lt := by
  have hlt : String.ofList cs < String.ofList ds ↔ cs < ds := by
    show (String.ofList cs).toList < (String.ofList ds).toList ↔ cs < ds
    rw [String.toList_ofList, String.toList_ofList]
  rw [bytes_ofList hc, bytes_ofList hd, map_toUInt8_lt_iff hc hd, ← hlt]
  exact compareOfLessAndEq_eq_lt.symm

end Text

/-! ### Dates -/

theorem Timestamp.isAscii_writeMilliseconds {t : Timestamp}
    (h : 0 ≤ t.date.year ∧ t.date.year ≤ 9999) : Text.IsAscii t.writeMilliseconds.toList := by
  have pair : ∀ (mark : Char) (n : Nat) (rest : List Char), mark.val ≤ 127 → Text.IsAscii rest →
      Text.IsAscii (mark :: (Text.paddedDecimal 2 n ++ rest)) := by
    intro mark n rest hmark hrest
    exact .cons hmark ((Text.isAscii_paddedDecimal 2 n).append hrest)
  rw [writeMilliseconds_eq h, String.toList_ofList]
  apply (Text.isAscii_paddedDecimal 4 _).append
  iterate 5
    apply pair _ _ _ (by decide)
  apply Text.IsAscii.cons (by decide)
  apply (Text.isAscii_paddedDecimal 3 _).append
  exact .cons (by decide) (fun c hc => absurd hc List.not_mem_nil)

theorem Timestamp.bytes_writeMilliseconds_lt {s t : Timestamp}
    (hs : 0 ≤ s.date.year ∧ s.date.year ≤ 9999) (ht : 0 ≤ t.date.year ∧ t.date.year ≤ 9999) :
    Text.bytes s.writeMilliseconds < Text.bytes t.writeMilliseconds ↔
      s.millisecond < t.millisecond := by
  rw [← Int.compare_eq_lt, ← compare_writeMilliseconds_eq hs ht]
  have hbytes := Text.bytes_lt_iff (isAscii_writeMilliseconds hs) (isAscii_writeMilliseconds ht)
  rw [String.ofList_toList, String.ofList_toList] at hbytes
  exact hbytes

theorem Timestamp.writeMilliseconds_inj {s t : Timestamp}
    (hs : 0 ≤ s.date.year ∧ s.date.year ≤ 9999) (ht : 0 ≤ t.date.year ∧ t.date.year ≤ 9999) :
    s.writeMilliseconds = t.writeMilliseconds ↔ s.millisecond = t.millisecond := by
  rw [← Std.LawfulEqOrd.compare_eq_iff_eq (a := s.writeMilliseconds),
    compare_writeMilliseconds_eq hs ht, Int.compare_eq_eq]

/-- A comparison of two dates comes to a sign of their order. -/
theorem compareField_date (field : String) (s t : Timestamp) :
    compareField field (some (.date s)) .equals (.date t) =
        .ok (compare s.position t.position == .eq) ∧
      compareField field (some (.date s)) .notEquals (.date t) =
        .ok (compare s.position t.position != .eq) ∧
      compareField field (some (.date s)) .less (.date t) =
        .ok (compare s.position t.position == .lt) ∧
      compareField field (some (.date s)) .greater (.date t) =
        .ok (compare s.position t.position == .gt) := by
  have hsame := Timestamp.beq_eq_compare_position s t
  have hless := decide_lt_eq_compare s.position t.position
  have hgreater := decide_gt_eq_compare s.position t.position
  refine ⟨?_, ?_, ?_, ?_⟩
  · rw [← hsame]
    rfl
  · rw [bne, ← hsame]
    rfl
  · rw [← hless]
    rfl
  · rw [← hgreater]
    rfl

namespace Sql

/-- For any two dates between the years 0 and 9999, the texts that they are bound as on sqlite are equal
exactly if the dates fall in the same millisecond, and the first is less byte by byte exactly if its
millisecond is earlier.  For times that are no leap seconds these are milliseconds since 1970.  Where
leap seconds end their minutes, as in all dates that are read, the texts are in the relations in which
the comparison of fields finds the dates that are cut off after the milliseconds. -/
theorem bind_date_order {s t : Timestamp} (hs : 0 ≤ s.date.year ∧ s.date.year ≤ 9999)
    (ht : 0 ≤ t.date.year ∧ t.date.year ≤ 9999) :
    ∃ a b, bind .sqlite (.date s) = .text a ∧ bind .sqlite (.date t) = .text b ∧
      (a = b ↔ s.millisecond = t.millisecond) ∧
      (Text.bytes a < Text.bytes b ↔ s.millisecond < t.millisecond) ∧
      (s.nanosecond < 1000000000 → t.nanosecond < 1000000000 →
        (a = b ↔ s.unixMillisecond = t.unixMillisecond) ∧
        (Text.bytes a < Text.bytes b ↔ s.unixMillisecond < t.unixMillisecond)) ∧
      (s.IsPlain → t.IsPlain → ∀ field,
        compareField field (some (.date s.truncated)) .equals (.date t.truncated) =
          .ok (decide (a = b)) ∧
        compareField field (some (.date s.truncated)) .notEquals (.date t.truncated) =
          .ok (decide (a ≠ b)) ∧
        compareField field (some (.date s.truncated)) .less (.date t.truncated) =
          .ok (decide (Text.bytes a < Text.bytes b)) ∧
        compareField field (some (.date s.truncated)) .greater (.date t.truncated) =
          .ok (decide (Text.bytes b < Text.bytes a))) := by
  have hsame := Timestamp.writeMilliseconds_inj hs ht
  have hless := Timestamp.bytes_writeMilliseconds_lt hs ht
  refine ⟨_, _, rfl, rfl, hsame, hless, ?_, ?_⟩
  · intro hsleap htleap
    have hunix := Timestamp.compare_millisecond_unix hsleap htleap
    rw [hsame, hless, ← Int.compare_eq_eq, ← Int.compare_eq_lt, hunix, Int.compare_eq_eq,
      Int.compare_eq_lt]
    exact ⟨Iff.rfl, Iff.rfl⟩
  · intro hsplain htplain field
    have hgreater := Timestamp.bytes_writeMilliseconds_lt ht hs
    have hequal : decide (s.writeMilliseconds = t.writeMilliseconds) =
        (compare s.millisecond t.millisecond == .eq) := by
      rw [← beq_eq_compare]
      exact decide_eq_decide.mpr hsame
    -- cut off dates are ordered as their texts are, and these as their milliseconds
    have horder := (hsplain.compare_truncated htplain).symm.trans
      (Timestamp.compare_writeMilliseconds_eq hs ht)
    have hfield := compareField_date field s.truncated t.truncated
    rw [horder, ← decide_lt_eq_compare, ← decide_gt_eq_compare, bne, ← hequal,
      ← decide_eq_decide.mpr hless, ← decide_eq_decide.mpr hgreater, ← decide_not] at hfield
    exact hfield

namespace LeapDay

/-- The start of a first of March. -/
def after : Timestamp := .midnight (.firstOf 2024 3 (by decide))

theorem nanosecond_fits : 999999999 < nanosecondRoom := by decide

/-- The last nanosecond of the day before, which is a 29th of February. -/
def ending : Timestamp :=
  { after.shift (-1) with nanosecond := 999999999, nanosecond_lt := nanosecond_fits }

end LeapDay

/-- The last nanosecond of a leap day and the midnight after it fall in different milliseconds, so that
the texts differ and the first is less. -/
theorem bind_date_order_leap_day :
    ∃ a b, bind .sqlite (.date LeapDay.ending) = .text a ∧
      bind .sqlite (.date LeapDay.after) = .text b ∧ a ≠ b ∧ Text.bytes a < Text.bytes b ∧
      compareField "due" (some (.date LeapDay.ending.truncated)) .less
        (.date LeapDay.after.truncated) = .ok true := by
  have hending : LeapDay.ending.IsPlain := ⟨by decide, by decide⟩
  have hafter : LeapDay.after.IsPlain := ⟨by decide, by decide⟩
  have hearlier : LeapDay.ending.millisecond < LeapDay.after.millisecond := by decide
  obtain ⟨a, b, ha, hb, hsame, hless, -, hfield⟩ := bind_date_order hending.year hafter.year
  obtain ⟨-, -, hbelow, -⟩ := hfield hending hafter "due"
  have hbytes := hless.mpr hearlier
  refine ⟨a, b, ha, hb, fun h => ?_, hbytes, ?_⟩
  · exact absurd (hsame.mp h) (Int.ne_of_lt hearlier)
  · rw [hbelow, decide_eq_true hbytes]

end Sql
end AccessControl
