/-! # Timestamps

Points in time in Coordinated Universal Time, on the Gregorian calendar extended in both
directions.  A `Date` is a day that exists, and a `Timestamp` adds the second of the day and the
nanosecond.  A leap second is kept as such: it is a nanosecond past the last one of its second, so
that it comes after that second and before the next.

`Timestamp.position` places timestamps on a line on which comparing them is comparing integers, and
`Timestamp.shift` moves one by less than a day, which is all that an offset from UTC asks for. -/

namespace AccessControl

/-! ### Days -/

def isLeapYear (year : Int) : Bool :=
  year % 4 == 0 && (year % 100 != 0 || year % 400 == 0)

def daysInMonth (year : Int) (month : Nat) : Nat :=
  match month with
  | 2 => if isLeapYear year then 29 else 28
  | 4 | 6 | 9 | 11 => 30
  | _ => 31

/-- A day of the calendar. -/
structure Date where
  year : Int
  month : Nat
  day : Nat
  month_mem : 1 ≤ month ∧ month ≤ 12
  day_mem : 1 ≤ day ∧ day ≤ daysInMonth year month
deriving DecidableEq

theorem daysInMonth_le (year : Int) (month : Nat) : daysInMonth year month ≤ 31 := by
  unfold daysInMonth
  split <;> (try split) <;> omega

theorem le_daysInMonth (year : Int) (month : Nat) : 28 ≤ daysInMonth year month := by
  unfold daysInMonth
  split <;> (try split) <;> omega

namespace Date

/-- The day with the given numbers, if the calendar has it. -/
def ofNumbers? (year : Int) (month day : Nat) : Option Date :=
  if hm : 1 ≤ month ∧ month ≤ 12 then
    if hd : 1 ≤ day ∧ day ≤ daysInMonth year month then some ⟨year, month, day, hm, hd⟩ else none
  else none

/-- The first day of a month. -/
def firstOf (year : Int) (month : Nat) (h : 1 ≤ month ∧ month ≤ 12) : Date :=
  ⟨year, month, 1, h, Nat.le_refl _, Nat.le_trans (by decide) (le_daysInMonth year month)⟩

/-- The last day of a month. -/
def lastOf (year : Int) (month : Nat) (h : 1 ≤ month ∧ month ≤ 12) : Date :=
  ⟨year, month, daysInMonth year month, h,
    Nat.le_trans (by decide) (le_daysInMonth year month), Nat.le_refl _⟩

def next (d : Date) : Date :=
  if hd : d.day < daysInMonth d.year d.month then { d with day := d.day + 1, day_mem := by omega }
  else if hm : d.month < 12 then
    firstOf d.year (d.month + 1) (by omega)
  else firstOf (d.year + 1) 1 (by decide)

def previous (d : Date) : Date :=
  if hd : 1 < d.day then
    { d with day := d.day - 1, day_mem := by have := d.day_mem; omega }
  else if hm : 1 < d.month then
    lastOf d.year (d.month - 1) (by have := d.month_mem; omega)
  else lastOf (d.year - 1) 12 (by decide)

/-- The place of a day on a line that leaves room for 31 days in each month. -/
def position (d : Date) : Int := (d.year * 12 + (d.month - 1 : Nat)) * 31 + (d.day - 1 : Nat)

end Date

/-! ### Points in time -/

def secondsPerDay : Nat := 86400

/-- The nanoseconds that a second and a leap second after it have room for. -/
def nanosecondRoom : Nat := 2000000000

/-- A point in time. -/
structure Timestamp where
  date : Date
  second : Nat
  nanosecond : Nat
  second_lt : second < secondsPerDay
  nanosecond_lt : nanosecond < nanosecondRoom
deriving DecidableEq

namespace Timestamp

/-- The start of a day. -/
def midnight (d : Date) : Timestamp := ⟨d, 0, 0, by decide, by decide⟩

/-- The place of a timestamp on a line on which earlier is less. -/
def position (t : Timestamp) : Int :=
  (t.date.position * secondsPerDay + t.second) * nanosecondRoom + t.nanosecond

/-- Whether a timestamp comes before another. -/
def earlier (s t : Timestamp) : Bool := s.position < t.position

/-- The time of day that a clock shows a number of seconds later, where the number is less than a
day and may be negative. -/
def shift (t : Timestamp) (seconds : Int) : Timestamp :=
  let sum : Int := t.second + seconds
  let date :=
    if sum < 0 then t.date.previous else if sum < secondsPerDay then t.date else t.date.next
  { t with
    date
    second := (sum % secondsPerDay).toNat
    second_lt := by
      have := Int.emod_nonneg sum (b := (secondsPerDay : Int)) (by decide)
      have := Int.emod_lt_of_pos sum (b := (secondsPerDay : Int)) (by decide)
      omega }

def hour (t : Timestamp) : Nat := t.second / 3600

def minute (t : Timestamp) : Nat := t.second / 60 % 60

/-- The second of the minute as a clock shows it, `60` in a leap second. -/
def clockSecond (t : Timestamp) : Nat := t.second % 60 + t.nanosecond / 1000000000

/-- The nanoseconds past the second that a clock shows. -/
def fraction (t : Timestamp) : Nat := t.nanosecond % 1000000000

end Timestamp
end AccessControl
