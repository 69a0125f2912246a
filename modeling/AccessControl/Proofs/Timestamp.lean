import AccessControl.Proofs.Digits
import AccessControl.Timestamp.Text

/-! # Timestamps in order

Between the years 0 and 9999, timestamps of whole milliseconds are written by `writeMilliseconds` in
texts of one length that sort like the times (`InMilliseconds.compare_writeMilliseconds`).  That needs
leap seconds to end their minutes, and in timestamps that are read they do (`leap_of_read?`). -/

namespace AccessControl

theorem compare_eq_compare {a b c d : Int} (hlt : a < b ↔ c < d) (hgt : b < a ↔ d < c) :
    compare a b = compare c d := by
  rcases Int.lt_trichotomy a b with h | h | h
  · rw [Int.compare_eq_lt.mpr h, Int.compare_eq_lt.mpr (hlt.mp h)]
  · rw [Int.compare_eq_eq.mpr h, Int.compare_eq_eq.mpr (by omega)]
  · rw [Int.compare_eq_gt.mpr h, Int.compare_eq_gt.mpr (hgt.mp h)]

/-- The ranges of the numbers of a day. -/
theorem Date.month_day_mem (d : Date) :
    (1 ≤ d.month ∧ d.month ≤ 12) ∧ 1 ≤ d.day ∧ d.day ≤ 31 :=
  ⟨d.month_mem, d.day_mem.1, Nat.le_trans d.day_mem.2 (daysInMonth_le d.year d.month)⟩

theorem Date.compare_position (d e : Date) :
    compare d.position e.position =
      (compare d.year e.year).then ((compare d.month e.month).then (compare d.day e.day)) := by
  have hd := d.month_day_mem
  have he := e.month_day_mem
  have hmonth : compare ((d.month - 1 : Nat) : Int) ((e.month - 1 : Nat) : Int) =
      compare d.month e.month := by
    rw [← Text.compare_natCast d.month]
    exact compare_eq_compare (by omega) (by omega)
  have hday : compare ((d.day - 1 : Nat) : Int) ((e.day - 1 : Nat) : Int) =
      compare d.day e.day := by
    rw [← Text.compare_natCast d.day]
    exact compare_eq_compare (by omega) (by omega)
  unfold position
  rw [Text.compare_mul_add (by omega) (by omega), Text.compare_mul_add (by omega) (by omega),
    hmonth, hday, Ordering.then_assoc]

theorem Date.position_inj {d e : Date} (h : d.position = e.position) : d = e := by
  have hcompare := compare_position d e
  rw [Int.compare_eq_eq.mpr h, eq_comm, Ordering.then_eq_eq, Ordering.then_eq_eq] at hcompare
  obtain ⟨hyear, hmonth, hday⟩ := hcompare
  have hyear := Int.compare_eq_eq.mp hyear
  have hmonth := Nat.compare_eq_eq.mp hmonth
  have hday := Nat.compare_eq_eq.mp hday
  cases d
  cases e
  simp_all

namespace Timestamp

/-- Whether a timestamp lies between the years 0 and 9999 on a whole millisecond.  A leap second is to
be the last second of its minute, as it is in every timestamp that is read (`leap_of_read?`). -/
structure InMilliseconds (t : Timestamp) : Prop where
  year : 0 ≤ t.date.year ∧ t.date.year ≤ 9999
  whole : t.nanosecond % 1000000 = 0
  leap : t.nanosecond < 1000000000 ∨ t.second % 60 = 59

/-- The ranges of the numbers that a clock shows. -/
theorem clock_lt (t : Timestamp) : t.hour < 24 ∧ t.minute < 60 ∧ t.clockSecond < 61 ∧
    t.fraction < 1000000000 := by
  have hsecond := t.second_lt
  have hnanosecond := t.nanosecond_lt
  unfold secondsPerDay at hsecond
  unfold nanosecondRoom at hnanosecond
  simp only [hour, minute, clockSecond, fraction]
  omega

/-! ### Positions -/

theorem compare_position_eq (s t : Timestamp) :
    compare s.position t.position = (compare s.date.position t.date.position).then
      (compare (s.second * nanosecondRoom + s.nanosecond : Int)
        (t.second * nanosecondRoom + t.nanosecond)) := by
  have hs := s.second_lt
  have ht := t.second_lt
  have hs' := s.nanosecond_lt
  have ht' := t.nanosecond_lt
  unfold secondsPerDay at hs ht
  unfold nanosecondRoom at hs' ht'
  have split : ∀ u : Timestamp, u.position =
      u.date.position * (86400 * 2000000000) + (u.second * 2000000000 + u.nanosecond) := by
    intro u
    simp only [position, secondsPerDay, nanosecondRoom]
    omega
  rw [split, split, Text.compare_mul_add (by omega) (by omega)]
  rfl

theorem position_inj {s t : Timestamp} (h : s.position = t.position) : s = t := by
  have hcompare := compare_position_eq s t
  rw [Int.compare_eq_eq.mpr h, eq_comm, Ordering.then_eq_eq] at hcompare
  obtain ⟨hdate, hclock⟩ := hcompare
  have hs := s.nanosecond_lt
  have ht := t.nanosecond_lt
  have hclock := Int.compare_eq_eq.mp hclock
  unfold nanosecondRoom at hs ht hclock
  have hdate : s.date = t.date := Date.position_inj (Int.compare_eq_eq.mp hdate)
  have hsecond : s.second = t.second := by omega
  have hnanosecond : s.nanosecond = t.nanosecond := by omega
  cases s
  cases t
  simp_all

/-- The time of day as a clock shows it, in milliseconds, with room for 61 seconds in each minute. -/
def clockMilliseconds (t : Timestamp) : Int :=
  ((t.hour * 60 + t.minute) * 61 + t.clockSecond) * 1000 + (t.fraction / 1000000 : Nat)

theorem compare_clockMilliseconds (s t : Timestamp) :
    compare s.clockMilliseconds t.clockMilliseconds =
      (compare s.hour t.hour).then ((compare s.minute t.minute).then
        ((compare s.clockSecond t.clockSecond).then
          (compare (s.fraction / 1000000) (t.fraction / 1000000)))) := by
  have hs := s.clock_lt
  have ht := t.clock_lt
  unfold clockMilliseconds
  rw [Text.compare_mul_add (by omega) (by omega), Text.compare_mul_add (by omega) (by omega),
    Text.compare_mul_add (by omega) (by omega)]
  simp only [Text.compare_natCast, Ordering.then_assoc]

/-- Within a minute, a leap second comes after all that the clock shows before it. -/
theorem InMilliseconds.compare_second {s t : Timestamp} (hs : s.InMilliseconds)
    (ht : t.InMilliseconds) :
    compare ((s.second % 60 : Nat) * nanosecondRoom + s.nanosecond : Int)
        ((t.second % 60 : Nat) * nanosecondRoom + t.nanosecond) =
      compare ((s.clockSecond : Int) * 1000 + (s.fraction / 1000000 : Nat))
        (t.clockSecond * 1000 + (t.fraction / 1000000 : Nat)) := by
  -- the milliseconds since the second that the time belongs to
  have split : ∀ u : Timestamp, u.InMilliseconds → ∃ k, u.nanosecond = 1000000 * k ∧
      (k < 1000 ∨ u.second % 60 = 59) ∧
      (u.clockSecond : Int) * 1000 + (u.fraction / 1000000 : Nat) =
        (u.second % 60 : Nat) * 1000 + k := by
    intro u hu
    have hwhole := hu.whole
    have hleap := hu.leap
    refine ⟨u.nanosecond / 1000000, by omega, by omega, ?_⟩
    simp only [clockSecond, fraction]
    omega
  obtain ⟨k, hk, hkleap, hsplit⟩ := split s hs
  obtain ⟨l, hl, hlleap, htsplit⟩ := split t ht
  rw [hsplit, htsplit, hk, hl]
  unfold nanosecondRoom
  exact compare_eq_compare (by omega) (by omega)

theorem InMilliseconds.compare_position {s t : Timestamp} (hs : s.InMilliseconds)
    (ht : t.InMilliseconds) :
    compare s.position t.position = (compare s.date.position t.date.position).then
      (compare s.clockMilliseconds t.clockMilliseconds) := by
  have hsclock := s.clock_lt
  have htclock := t.clock_lt
  have hsnanosecond := s.nanosecond_lt
  have htnanosecond := t.nanosecond_lt
  have hminutes : ∀ u : Timestamp, u.clockMilliseconds =
      (u.second / 60 : Nat) * 61000 + (u.clockSecond * 1000 + (u.fraction / 1000000 : Nat)) := by
    intro u
    simp only [clockMilliseconds, hour, minute]
    omega
  have hseconds : ∀ u : Timestamp, (u.second * nanosecondRoom + u.nanosecond : Int) =
      (u.second / 60 : Nat) * 120000000000 +
        ((u.second % 60 : Nat) * nanosecondRoom + u.nanosecond) := by
    intro u
    unfold nanosecondRoom
    omega
  have hsecond := hs.compare_second ht
  rw [compare_position_eq, hseconds, hseconds, hminutes, hminutes]
  unfold nanosecondRoom at hsecond hsnanosecond htnanosecond ⊢
  have hminute : compare ((s.second / 60 : Nat) * 61000 + (s.clockSecond * 1000 +
      (s.fraction / 1000000 : Nat)) : Int) ((t.second / 60 : Nat) * 61000 + (t.clockSecond * 1000 +
      (t.fraction / 1000000 : Nat))) = (compare ((s.second / 60 : Nat) : Int) (t.second / 60 : Nat)).then
      (compare ((s.clockSecond : Int) * 1000 + (s.fraction / 1000000 : Nat))
        (t.clockSecond * 1000 + (t.fraction / 1000000 : Nat))) :=
    Text.compare_mul_add (by omega) (by omega)
  rw [hminute, Text.compare_mul_add (by omega) (by omega), hsecond]

/-! ### Texts -/

/-- Texts that begin with a number in a fixed number of digits are compared by it first. -/
theorem compare_paddedDecimal_append {width m n : Nat} (hm : m < Nat.pow 10 (width + 1))
    (hn : n < Nat.pow 10 (width + 1)) (us vs : List Char) :
    compare (Text.paddedDecimal (width + 1) m ++ us) (Text.paddedDecimal (width + 1) n ++ vs) =
      (compare m n).then (compare us vs) := by
  rw [Text.compare_append _ _
      ((Text.length_paddedDecimal hm).trans (Text.length_paddedDecimal hn).symm),
    Text.compare_paddedDecimal hm hn]

theorem compare_mark (mark : Char) (us vs : List Char) :
    compare (mark :: us) (mark :: vs) = compare us vs := by
  rw [List.compare_cons_cons, Std.ReflOrd.compare_self, Ordering.eq_then]

theorem compare_year {s t : Timestamp} (hs : 0 ≤ s.date.year) (ht : 0 ≤ t.date.year) :
    compare s.date.year.toNat t.date.year.toNat = compare s.date.year t.date.year := by
  rw [← Text.compare_natCast]
  exact compare_eq_compare (by omega) (by omega)

/-- The text of a timestamp, number by number. -/
theorem writeMilliseconds_eq {t : Timestamp} (h : 0 ≤ t.date.year ∧ t.date.year ≤ 9999) :
    t.writeMilliseconds = .ofList (Text.paddedDecimal 4 t.date.year.toNat ++
      '-' :: (Text.paddedDecimal 2 t.date.month ++ '-' :: (Text.paddedDecimal 2 t.date.day ++
        'T' :: (Text.paddedDecimal 2 t.hour ++ ':' :: (Text.paddedDecimal 2 t.minute ++
          ':' :: (Text.paddedDecimal 2 t.clockSecond ++
            '.' :: (Text.paddedDecimal 3 (t.fraction / 1000000) ++ ['Z']))))))) := by
  simp only [writeMilliseconds, Timestamp.writeDate, writeYear, if_pos h, writeClock,
    List.append_assoc, List.cons_append]

/-- Between the years 0 and 9999, texts are compared as the days are, and then as what clocks show. -/
theorem compare_writeMilliseconds_eq_then {s t : Timestamp}
    (hs : 0 ≤ s.date.year ∧ s.date.year ≤ 9999) (ht : 0 ≤ t.date.year ∧ t.date.year ≤ 9999) :
    compare s.writeMilliseconds t.writeMilliseconds =
      (compare s.date.position t.date.position).then
        (compare s.clockMilliseconds t.clockMilliseconds) := by
  have bounds : ∀ u : Timestamp, 0 ≤ u.date.year ∧ u.date.year ≤ 9999 → u.date.year.toNat < 10000 ∧
      u.date.month < 100 ∧ u.date.day < 100 ∧ u.hour < 100 ∧ u.minute < 100 ∧
      u.clockSecond < 100 ∧ u.fraction / 1000000 < 1000 := by
    intro u hyear
    have hdate := u.date.month_day_mem
    have hclock := u.clock_lt
    omega
  obtain ⟨hsyear, hsmonth, hsday, hshour, hsminute, hssecond, hsms⟩ := bounds s hs
  obtain ⟨htyear, htmonth, htday, hthour, htminute, htsecond, htms⟩ := bounds t ht
  rw [writeMilliseconds_eq hs, writeMilliseconds_eq ht, Text.compare_ofList,
    compare_paddedDecimal_append hsyear htyear, compare_mark,
    compare_paddedDecimal_append hsmonth htmonth, compare_mark,
    compare_paddedDecimal_append hsday htday, compare_mark,
    compare_paddedDecimal_append hshour hthour, compare_mark,
    compare_paddedDecimal_append hsminute htminute, compare_mark,
    compare_paddedDecimal_append hssecond htsecond, compare_mark,
    compare_paddedDecimal_append hsms htms, Std.ReflOrd.compare_self, Ordering.then_eq,
    compare_year hs.1 ht.1, Date.compare_position, compare_clockMilliseconds]
  simp only [Ordering.then_assoc]

/-- Between the years 0 and 9999, timestamps of whole milliseconds are compared as texts the way they
are as times. -/
theorem InMilliseconds.compare_writeMilliseconds {s t : Timestamp} (hs : s.InMilliseconds)
    (ht : t.InMilliseconds) :
    compare s.writeMilliseconds t.writeMilliseconds = compare s.position t.position := by
  rw [compare_writeMilliseconds_eq_then hs.year ht.year, hs.compare_position ht]

/-! ### Reading -/

theorem readFraction?_lt {cs rest : List Char} {n : Nat} (h : readFraction? cs = some (n, rest)) :
    n < 1000000000 := by
  unfold readFraction? at h
  split at h
  · next r =>
    simp only at h
    split at h
    · cases h
    · cases h
      have hdigits : ∀ c ∈ (r.takeWhile Text.isDigit ++ List.replicate 9 '0').take 9,
          Text.isDigit c = true := by
        intro c hc
        rcases List.mem_append.mp (List.mem_of_mem_take hc) with hc | hc
        · exact (List.all_takeWhile (p := Text.isDigit) |> List.all_eq_true.mp) c hc
        · rw [(List.mem_replicate.mp hc).2]
          decide
      have hlength : ((r.takeWhile Text.isDigit ++ List.replicate 9 '0').take 9).length = 9 := by
        rw [List.length_take, List.length_append, List.length_replicate]
        omega
      have hlt := Text.ofDigits_lt hdigits
      rw [hlength] at hlt
      exact hlt
  · cases h
    decide

theorem readClock?_leap {cs rest : List Char} {second leap : Nat}
    (h : readClock? cs = some (second, leap, rest)) : leap = 0 ∨ second % 60 = 59 := by
  obtain ⟨⟨hour, _⟩, -, h⟩ := Option.bind_eq_some_iff.mp h
  obtain ⟨_, -, h⟩ := Option.bind_eq_some_iff.mp h
  obtain ⟨⟨minute, _⟩, -, h⟩ := Option.bind_eq_some_iff.mp h
  obtain ⟨_, -, h⟩ := Option.bind_eq_some_iff.mp h
  obtain ⟨⟨s, _⟩, -, h⟩ := Option.bind_eq_some_iff.mp h
  obtain ⟨_, -, h⟩ := Option.bind_eq_some_iff.mp h
  split at h
  · cases h
    right
    omega
  · cases h
    exact .inl rfl

theorem readOffset?_minutes {cs : List Char} {offset : Int} (h : readOffset? cs = some offset) :
    offset % 60 = 0 := by
  have hours : ∀ {cs : List Char} {n : Int}, readOffset?.readHours? cs = some n → n % 60 = 0 := by
    intro cs n h
    obtain ⟨⟨hours, _⟩, -, h⟩ := Option.bind_eq_some_iff.mp h
    obtain ⟨_, -, h⟩ := Option.bind_eq_some_iff.mp h
    obtain ⟨⟨minutes, _⟩, -, h⟩ := Option.bind_eq_some_iff.mp h
    obtain ⟨_, -, h⟩ := Option.bind_eq_some_iff.mp h
    cases h
    omega
  unfold readOffset? at h
  split at h
  · cases h; rfl
  · cases h; rfl
  · exact hours h
  · obtain ⟨n, hn, rfl⟩ := Option.map_eq_some_iff.mp h
    have := hours hn
    omega
  · obtain ⟨n, hn, rfl⟩ := Option.map_eq_some_iff.mp h
    have := hours hn
    omega
  · cases h

theorem second_shift (t : Timestamp) {seconds : Int} (h : seconds % 60 = 0) :
    (t.shift seconds).second % 60 = t.second % 60 := by
  show ((t.second + seconds) % (secondsPerDay : Int)).toNat % 60 = t.second % 60
  unfold secondsPerDay
  omega

theorem leap_of_parts {t : Timestamp} {date : Date} {second leap nanosecond : Nat} {offset : Int}
    (hclock : leap = 0 ∨ second % 60 = 59) (hfraction : nanosecond < 1000000000)
    (hoffset : offset % 60 = 0)
    (h : (if h : second < secondsPerDay ∧ leap + nanosecond < nanosecondRoom then
      some (shift ⟨date, second, leap + nanosecond, h.1, h.2⟩ (-offset)) else none) = some t) :
    t.nanosecond < 1000000000 ∨ t.second % 60 = 59 := by
  split at h
  · cases h
    rw [second_shift _ (by omega)]
    show leap + nanosecond < 1000000000 ∨ second % 60 = 59
    omega
  · cases h

/-- In every timestamp that is read, a leap second is the last second of its minute. -/
theorem leap_of_read? {s : String} {t : Timestamp} (h : read? s = some t) :
    t.nanosecond < 1000000000 ∨ t.second % 60 = 59 := by
  have hread : readFull? s.toList = some t ∨ (readDay? s.toList).map midnight = some t := by
    unfold read? at h
    cases hfull : readFull? s.toList with
    | some u =>
        rw [hfull] at h
        exact .inl h
    | none =>
        rw [hfull] at h
        exact .inr h
  rcases hread with h | h
  · simp only [readFull?, Option.bind_eq_bind, Option.bind_eq_some_iff] at h
    obtain ⟨⟨year, cs⟩, -, _, -, ⟨month, cs⟩, -, _, -, ⟨day, cs⟩, -, h⟩ := h
    -- whatever stands between the day and the clock, what follows is read in one way
    simp only at h
    split at h <;> simp only [Option.bind_some, Option.bind_none, Option.bind_eq_some_iff,
      reduceCtorEq] at h
    all_goals
      obtain ⟨⟨second, leap, _⟩, hclock, ⟨nanosecond, _⟩, hfraction, offset, hoffset, date, -, h⟩ := h
      exact leap_of_parts (readClock?_leap hclock) (readFraction?_lt hfraction)
        (readOffset?_minutes hoffset) h
  · obtain ⟨d, -, rfl⟩ := Option.map_eq_some_iff.mp h
    exact .inl (Nat.zero_lt_succ _)

end Timestamp
end AccessControl
