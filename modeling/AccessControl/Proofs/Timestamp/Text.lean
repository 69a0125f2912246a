import AccessControl.Proofs.Timestamp

/-! # Timestamps read back from their texts

Between the years 0 and 9999 the full text of a timestamp denotes that timestamp again exactly when a
leap second, if it is one, ends its minute (`Timestamp.read?_write_iff`). -/

namespace AccessControl.Timestamp

/-- Whether a timestamp has a year of four digits, and shows a leap second at the end of a minute
only. -/
structure IsPlain (t : Timestamp) : Prop where
  year : 0 ≤ t.date.year ∧ t.date.year ≤ 9999
  leap : t.nanosecond < 1000000000 ∨ t.second % 60 = 59

/-! ### Numbers -/

theorem readDigits?_padded {width n : Nat} (hn : n < Nat.pow 10 (width + 1)) (rest : List Char) :
    readDigits? (width + 1) (Text.paddedDecimal (width + 1) n ++ rest) = some (n, rest) := by
  have hlength := Text.length_paddedDecimal hn
  have hdigits : (Text.paddedDecimal (width + 1) n).all Text.isDigit = true :=
    List.all_eq_true.mpr fun c hc => Text.isDigit_of_mem_paddedDecimal hc
  unfold readDigits?
  rw [List.take_left' hlength, List.drop_left' hlength]
  simp only [hlength, hdigits, Text.ofDigits_paddedDecimal, and_self, if_true]

theorem readTwo?_padded {n : Nat} (hn : n < 100) (rest : List Char) :
    readDigits? 2 (Text.paddedDecimal 2 n ++ rest) = some (n, rest) := readDigits?_padded hn rest

theorem readChar?_cons (c : Char) (rest : List Char) : readChar? c (c :: rest) = some rest := by
  simp [readChar?]

/-! ### The clock -/

/-- A clock that shows at most sixty seconds is read as the second of the day that it shows, or as a
leap second. -/
theorem readClock?_writeClock {t : Timestamp} (hclock : t.clockSecond ≤ 60) (rest : List Char) :
    readClock? (t.writeClock ++ rest) =
      if t.clockSecond = 60 then some (t.hour * 3600 + t.minute * 60 + 59, 1000000000, rest)
      else some (t.hour * 3600 + t.minute * 60 + t.clockSecond, 0, rest) := by
  obtain ⟨hhour, hminute, -⟩ := t.clock_lt
  have hshows : t.hour ≤ 23 ∧ t.minute ≤ 59 ∧ t.clockSecond ≤ 60 := by omega
  have hguard : (guard (t.hour ≤ 23 ∧ t.minute ≤ 59 ∧ t.clockSecond ≤ 60) : Option Unit) = some () :=
    if_pos hshows
  have hhourText : t.hour < 100 := by omega
  have hminuteText : t.minute < 100 := by omega
  have hclockText : t.clockSecond < 100 := by omega
  have htext : t.writeClock ++ rest = Text.paddedDecimal 2 t.hour ++
      ':' :: (Text.paddedDecimal 2 t.minute ++ ':' :: (Text.paddedDecimal 2 t.clockSecond ++ rest)) := by
    simp [writeClock]
  unfold readClock?
  rw [htext, readTwo?_padded hhourText]
  dsimp only [Option.bind_eq_bind, Option.bind_some]
  rw [readChar?_cons, Option.bind_some, readTwo?_padded hminuteText]
  dsimp only [Option.bind_some]
  rw [readChar?_cons, Option.bind_some, readTwo?_padded hclockText]
  dsimp only [Option.bind_some]
  rw [hguard, Option.bind_some]

/-- The clock of a timestamp gives the second of the day, and the nanoseconds that the fraction leaves
to a leap second. -/
theorem readClock?_write {t : Timestamp} (h : t.IsPlain) (rest : List Char) : ∃ leap,
    leap + t.fraction = t.nanosecond ∧
      readClock? (t.writeClock ++ rest) = some (t.second, leap, rest) := by
  have hsecond := t.second_lt
  have hnanosecond := t.nanosecond_lt
  have hleap := h.leap
  unfold secondsPerDay at hsecond
  unfold nanosecondRoom at hnanosecond
  have hclock : t.clockSecond ≤ 60 := by
    unfold clockSecond
    omega
  have hstart : t.hour * 3600 + t.minute * 60 + t.second % 60 = t.second := by
    unfold hour minute
    omega
  have hread := readClock?_writeClock hclock rest
  by_cases hshown : t.clockSecond = 60
  · have hlast : t.second % 60 = 59 ∧ 1000000000 + t.fraction = t.nanosecond := by
      unfold clockSecond at hshown
      unfold fraction
      omega
    refine ⟨1000000000, hlast.2, ?_⟩
    rw [hread, if_pos hshown, ← hlast.1, hstart]
  · have hplain : t.clockSecond = t.second % 60 ∧ 0 + t.fraction = t.nanosecond := by
      unfold clockSecond at hshown ⊢
      unfold fraction
      omega
    refine ⟨0, hplain.2, ?_⟩
    rw [hread, if_neg hshown, hplain.1, hstart]

/-! ### The fraction -/

/-- Digits after a point count as many nanoseconds as there are with zeros filled in up to nine. -/
theorem readFraction?_padded {n : Nat} (width missing : Nat) (hn : n < Nat.pow 10 (width + 1))
    (hwidth : width + 1 + missing = 9) {rest : List Char} (hrest : Text.Stops Text.isDigit rest) :
    readFraction? ('.' :: (Text.paddedDecimal (width + 1) n ++ rest)) =
      some (n * Nat.pow 10 missing, rest) := by
  have hlength := Text.length_paddedDecimal hn
  have hdigits : ∀ c ∈ Text.paddedDecimal (width + 1) n, Text.isDigit c = true :=
    fun c hc => Text.isDigit_of_mem_paddedDecimal hc
  have hrun := Text.takeWhile_run hdigits hrest
  have hne : Text.paddedDecimal (width + 1) n ≠ [] := by
    rw [← List.length_pos_iff, hlength]
    omega
  have hnine : (Text.paddedDecimal (width + 1) n ++ List.replicate 9 '0').take 9 =
      Text.paddedDecimal (width + 1) n ++ List.replicate missing '0' := by
    rw [List.take_append, hlength, List.take_of_length_le (by omega), List.take_replicate]
    congr 2
    omega
  unfold readFraction?
  simp only [hrun, List.isEmpty_iff, hne, if_false, hnine, Text.ofDigits_append_zeros,
    Text.ofDigits_paddedDecimal]

theorem readFraction?_write {n : Nat} (hn : n < 1000000000) {rest : List Char}
    (hdigit : Text.Stops Text.isDigit rest) (hpoint : rest.head? ≠ some '.') :
    readFraction? (writeFraction n ++ rest) = some (n, rest) := by
  have hmillis : Nat.pow 10 (2 + 1) = 1000 ∧ Nat.pow 10 6 = 1000000 := by decide
  have hmicros : Nat.pow 10 (5 + 1) = 1000000 ∧ Nat.pow 10 3 = 1000 := by decide
  have hnanos : Nat.pow 10 (8 + 1) = 1000000000 ∧ Nat.pow 10 0 = 1 := by decide
  unfold writeFraction
  split
  · rename_i hzero
    rw [List.nil_append, hzero]
    unfold readFraction?
    split
    · exact absurd rfl hpoint
    · rfl
  split
  · rename_i hwhole
    have hfits : n / 1000000 < Nat.pow 10 (2 + 1) := by
      rw [hmillis.1]
      omega
    rw [List.cons_append, readFraction?_padded 2 6 hfits rfl hdigit, hmillis.2,
      Nat.div_mul_cancel (Nat.dvd_of_mod_eq_zero hwhole)]
  split
  · rename_i hwhole
    have hfits : n / 1000 < Nat.pow 10 (5 + 1) := by
      rw [hmicros.1]
      omega
    rw [List.cons_append, readFraction?_padded 5 3 hfits rfl hdigit, hmicros.2,
      Nat.div_mul_cancel (Nat.dvd_of_mod_eq_zero hwhole)]
  · have hfits : n < Nat.pow 10 (8 + 1) := by
      rw [hnanos.1]
      exact hn
    rw [List.cons_append, readFraction?_padded 8 0 hfits rfl hdigit, hnanos.2, Nat.mul_one]

/-! ### The whole text -/

theorem Date.ofNumbers?_self (d : Date) : Date.ofNumbers? d.year d.month d.day = some d := by
  simp [Date.ofNumbers?, d.month_mem, d.day_mem]

theorem shift_zero (t : Timestamp) : t.shift 0 = t := by
  obtain ⟨date, second, nanosecond, hsecond, hnanosecond⟩ := t
  have hnever : ¬((second : Int) + 0 < 0) := by omega
  have hsame : (second : Int) + 0 < secondsPerDay := by omega
  have hclock : (((second : Int) + 0) % secondsPerDay).toNat = second := by
    rw [Int.emod_eq_of_lt (by omega) hsame]
    omega
  simp only [shift, hnever, hsame, hclock, if_true, if_false]

/-- Between the years 0 and 9999 the full text of a timestamp denotes the timestamp. -/
theorem read?_write {t : Timestamp} (h : t.IsPlain) : read? t.write = some t := by
  have hyear := h.year
  have hdate := t.date.month_day_mem
  have hmonth : t.date.month < 100 := by omega
  have hday : t.date.day < 100 := by omega
  have hfour : t.date.year.toNat < 10000 := by omega
  have hyearText : ∀ rest, readDigits? 4 (Text.paddedDecimal 4 t.date.year.toNat ++ rest) =
      some (t.date.year.toNat, rest) := readDigits?_padded hfour
  have hback : (t.date.year.toNat : Int) = t.date.year := by omega
  obtain ⟨leap, hnanosecond, hclock⟩ :=
    readClock?_write h (writeFraction t.fraction ++ "+00:00".toList)
  have hfraction : readFraction? (writeFraction t.fraction ++ "+00:00".toList) =
      some (t.fraction, "+00:00".toList) :=
    readFraction?_write (Nat.mod_lt _ (by decide)) (Text.stops_cons (by decide) _) (by decide)
  have hoffset : readOffset? "+00:00".toList = some 0 := by decide
  have hfull : readFull? t.write.toList = some t := by
    unfold write writeDate writeYear readFull?
    rw [if_pos hyear, String.toList_ofList]
    simp only [List.append_assoc, List.cons_append, Option.bind_eq_bind,
      hyearText, readTwo?_padded hmonth, readTwo?_padded hday, readChar?_cons,
      Option.bind_some, hclock, hfraction, hoffset, hback, Date.ofNumbers?_self, hnanosecond]
    rw [dif_pos ⟨t.second_lt, t.nanosecond_lt⟩]
    exact congrArg some t.shift_zero
  simp [read?, hfull]

/-- Between the years 0 and 9999, just the timestamps whose leap seconds end their minutes are denoted
by their texts. -/
theorem read?_write_iff {t : Timestamp} (hyear : 0 ≤ t.date.year ∧ t.date.year ≤ 9999) :
    read? t.write = some t ↔ t.IsPlain :=
  ⟨fun h => ⟨hyear, leap_of_read? h⟩, read?_write⟩

/-- A leap second inside a minute shows as the second after it. -/
example : (Timestamp.mk ⟨2024, 2, 29, by decide, by decide⟩ 30 1500000000
    (by decide) (by decide)).write = "2024-02-29T00:00:31.500+00:00" := by decide +kernel

end AccessControl.Timestamp
