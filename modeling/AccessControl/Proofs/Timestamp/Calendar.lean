import AccessControl.Proofs.Timestamp.Text

/-! # Days and milliseconds in number

The days of the calendar are numbered without gaps: the day after has the next number
(`Date.number_next`), and days are ordered as their numbers are (`Date.compare_number`).  With the time
of day this numbers the milliseconds on a line that has room for a leap second at the end of each minute.
Between times that are no leap seconds it has the order of the milliseconds since 1970
(`Timestamp.compare_millisecond_unix`), and on it are ordered the texts of timestamps
(`Timestamp.compare_writeMilliseconds_eq`) and the timestamps that are cut off after the milliseconds
(`Timestamp.IsPlain.compare_truncated`). -/

namespace AccessControl

/-! ### Days -/

/-- The number of days in a year. -/
def daysInYear (year : Int) : Nat := if isLeapYear year then 366 else 365

/-- The number of days from the first of year zero to the first of a year. -/
def daysBeforeYear (year : Int) : Int :=
  365 * year + (year + 3) / 4 - (year + 99) / 100 + (year + 399) / 400

/-- The number of days from the first of a year to the first of a month. -/
def daysBeforeMonth (year : Int) : Nat → Nat
  | month + 2 => daysBeforeMonth year (month + 1) + daysInMonth year (month + 1)
  | _ => 0

theorem daysBeforeYear_succ (year : Int) :
    daysBeforeYear (year + 1) = daysBeforeYear year + daysInYear year := by
  unfold daysBeforeYear daysInYear
  cases hleap : isLeapYear year with
  | true =>
      simp only [isLeapYear, Bool.and_eq_true, Bool.or_eq_true, beq_iff_eq, bne_iff_ne] at hleap
      simp only [if_true]
      omega
  | false =>
      simp only [isLeapYear, Bool.and_eq_false_iff, Bool.or_eq_false_iff, beq_eq_false_iff_ne,
        bne_eq_false_iff_eq] at hleap
      simp only [Bool.false_eq_true, if_false]
      omega

theorem daysBeforeYear_le {y z : Int} (h : y < z) : daysBeforeYear (y + 1) ≤ daysBeforeYear z := by
  unfold daysBeforeYear
  omega

theorem daysBeforeMonth_succ (year : Int) {month : Nat} (h : 1 ≤ month) :
    daysBeforeMonth year (month + 1) = daysBeforeMonth year month + daysInMonth year month := by
  obtain ⟨m, rfl⟩ : ∃ m, month = m + 1 := ⟨month - 1, by omega⟩
  rfl

theorem daysBeforeMonth_le (year : Int) {m n : Nat} (hm : 1 ≤ m) (h : m < n) :
    daysBeforeMonth year m + daysInMonth year m ≤ daysBeforeMonth year n := by
  induction n with
  | zero => omega
  | succ n ih =>
      rcases Nat.lt_succ_iff_lt_or_eq.mp h with h | rfl
      · have hn : 1 ≤ n := by omega
        have hstep := daysBeforeMonth_succ year hn
        have ih := ih h
        omega
      · exact Nat.le_of_eq (daysBeforeMonth_succ year hm).symm

/-- The twelve months have all the days of a year. -/
theorem daysBeforeMonth_thirteen (year : Int) :
    daysBeforeMonth year 13 = daysInYear year := by
  simp only [daysBeforeMonth, daysInMonth, daysInYear]
  split <;> rfl

namespace Date

/-- The number of a day, counted from the first of January of year zero. -/
def number (d : Date) : Int :=
  daysBeforeYear d.year + daysBeforeMonth d.year d.month + (d.day - 1 : Nat)

/-- Days are counted without gaps. -/
theorem number_next (d : Date) : d.next.number = d.number + 1 := by
  have hmonth := d.month_mem
  have hday := d.day_mem
  unfold next
  by_cases hlast : d.day < daysInMonth d.year d.month
  · rw [dif_pos hlast]
    simp only [number]
    omega
  · rw [dif_neg hlast]
    have hstep := daysBeforeMonth_succ d.year hmonth.1
    by_cases hmore : d.month < 12
    · rw [dif_pos hmore]
      simp only [number, firstOf]
      omega
    · rw [dif_neg hmore]
      -- the day is the last of its year
      have htwelve : d.month = 12 := by omega
      have hyear := daysBeforeYear_succ d.year
      have hmonths := daysBeforeMonth_thirteen d.year
      have hfirst : daysBeforeMonth (d.year + 1) 1 = 0 := rfl
      rw [htwelve] at hlast hday hstep
      have hstep : daysBeforeMonth d.year 13 = _ := hstep
      simp only [number, firstOf, hyear, hfirst, htwelve]
      omega

theorem number_lt_of_position_lt {d e : Date} (h : d.position < e.position) : d.number < e.number := by
  have hd := d.month_day_mem
  have he := e.month_day_mem
  have hday := d.day_mem
  have hcases : d.year < e.year ∨ d.year = e.year ∧
      (d.month < e.month ∨ d.month = e.month ∧ d.day < e.day) := by
    unfold position at h
    omega
  unfold number
  rcases hcases with hyear | ⟨hyear, hmonth | ⟨hmonth, hearlier⟩⟩
  · have hyears := daysBeforeYear_le hyear
    have hstep := daysBeforeYear_succ d.year
    have hmonths := daysBeforeMonth_le d.year d.month_mem.1 (Nat.lt_succ_of_le d.month_mem.2)
    rw [daysBeforeMonth_thirteen] at hmonths
    omega
  · have hmonths := daysBeforeMonth_le d.year d.month_mem.1 hmonth
    rw [← hyear]
    omega
  · rw [← hyear, ← hmonth]
    omega

/-- Days are ordered as their numbers are. -/
theorem compare_number (d e : Date) : compare d.number e.number = compare d.position e.position := by
  rcases Int.lt_trichotomy d.position e.position with h | h | h
  · rw [Int.compare_eq_lt.mpr h, Int.compare_eq_lt.mpr (number_lt_of_position_lt h)]
  · rw [position_inj h, Std.ReflOrd.compare_self, Std.ReflOrd.compare_self]
  · rw [Int.compare_eq_gt.mpr h, Int.compare_eq_gt.mpr (number_lt_of_position_lt h)]

end Date

/-! ### Milliseconds -/

namespace Timestamp

/-- The number of the millisecond that a timestamp falls in, where each minute has room for a leap second
after its sixty seconds. -/
def millisecond (t : Timestamp) : Int :=
  (t.date.number * 1440 + (t.second / 60 : Nat)) * 61000 +
    (t.second % 60 * 1000 + t.nanosecond / 1000000 : Nat)

/-- The number of milliseconds since the start of 1970, with no room for leap seconds. -/
def unixMillisecond (t : Timestamp) : Int :=
  ((t.date.number - 719528) * secondsPerDay + t.second) * 1000 + (t.nanosecond / 1000000 : Nat)

example : (midnight (.firstOf 1970 1 (by decide))).unixMillisecond = 0 := by decide

/-- The timestamp cut off after the milliseconds. -/
def truncated (t : Timestamp) : Timestamp :=
  { t with
    nanosecond := t.nanosecond / 1000000 * 1000000
    nanosecond_lt := by
      have := t.nanosecond_lt
      omega }

theorem compare_millisecond (s t : Timestamp) :
    compare s.millisecond t.millisecond = (compare s.date.position t.date.position).then
      (compare s.clockMilliseconds t.clockMilliseconds) := by
  have split : ∀ u : Timestamp, u.millisecond = u.date.number * 87840000 + u.clockMilliseconds ∧
      0 ≤ u.clockMilliseconds ∧ u.clockMilliseconds < 87840000 := by
    intro u
    have hsecond := u.second_lt
    have hnanosecond := u.nanosecond_lt
    unfold secondsPerDay at hsecond
    unfold nanosecondRoom at hnanosecond
    simp only [millisecond, clockMilliseconds, hour, minute, clockSecond, fraction]
    omega
  obtain ⟨hs, hsclock⟩ := split s
  obtain ⟨ht, htclock⟩ := split t
  rw [hs, ht, Text.compare_mul_add hsclock htclock, Date.compare_number]

/-- Between times that are no leap seconds, the order is that of the milliseconds since 1970. -/
theorem compare_millisecond_unix {s t : Timestamp} (hs : s.nanosecond < 1000000000)
    (ht : t.nanosecond < 1000000000) :
    compare s.millisecond t.millisecond = compare s.unixMillisecond t.unixMillisecond := by
  have hssecond := s.second_lt
  have htsecond := t.second_lt
  unfold secondsPerDay at hssecond htsecond
  simp only [millisecond, unixMillisecond, secondsPerDay]
  exact compare_eq_compare (by omega) (by omega)

/-- Between the years 0 and 9999, texts are ordered as the milliseconds are that the times fall in. -/
theorem compare_writeMilliseconds_eq {s t : Timestamp}
    (hs : 0 ≤ s.date.year ∧ s.date.year ≤ 9999) (ht : 0 ≤ t.date.year ∧ t.date.year ≤ 9999) :
    compare s.writeMilliseconds t.writeMilliseconds = compare s.millisecond t.millisecond := by
  rw [compare_writeMilliseconds_eq_then hs ht, compare_millisecond]

/-! ### Cutting off -/

theorem writeMilliseconds_truncated (t : Timestamp) :
    t.truncated.writeMilliseconds = t.writeMilliseconds := by
  have hsecond : t.truncated.clockSecond = t.clockSecond := by
    simp only [clockSecond, truncated]
    omega
  have hfraction : t.truncated.fraction / 1000000 = t.fraction / 1000000 := by
    simp only [fraction, truncated]
    omega
  unfold writeMilliseconds writeClock
  rw [hsecond, hfraction]
  rfl

theorem IsPlain.inMilliseconds_truncated {t : Timestamp} (h : t.IsPlain) :
    t.truncated.InMilliseconds where
  year := h.year
  whole := by
    show t.nanosecond / 1000000 * 1000000 % 1000000 = 0
    omega
  leap := by
    have hleap := h.leap
    show t.nanosecond / 1000000 * 1000000 < 1000000000 ∨ t.second % 60 = 59
    omega

/-- Texts are ordered as the timestamps are that are cut off after the milliseconds. -/
theorem IsPlain.compare_truncated {s t : Timestamp} (hs : s.IsPlain) (ht : t.IsPlain) :
    compare s.writeMilliseconds t.writeMilliseconds =
      compare s.truncated.position t.truncated.position := by
  rw [← hs.inMilliseconds_truncated.compare_writeMilliseconds ht.inMilliseconds_truncated,
    writeMilliseconds_truncated, writeMilliseconds_truncated]

end Timestamp
end AccessControl
