/-! # Numbers

The numbers of conditions and records are the binary floating-point numbers of 64 bits: 53
significant bits, exponents from `-1074`, two zeros, two infinities and a value that is no number.

A `Magnitude` is named by its place among all of them.  Rank `0` is zero, rank `1` the least
positive magnitude, rank `infiniteRank` infinity, and a larger rank is a larger magnitude, so that
comparing numbers is comparing integers (`Number.position?`).  `Magnitude.units` is the exact value
of a rank, as a multiple of the least positive magnitude, and `Magnitude.nearest` rounds a quotient
to the nearest magnitude, ties to the one with an even rank. -/

namespace AccessControl

/-- How many consecutive ranks have the same spacing. -/
def binade : Nat := Nat.pow 2 52

def infiniteRank : Nat := 2047 * binade

/-- How many times the least positive magnitude fits into one. -/
def unitsPerOne : Nat := Nat.pow 2 1074

/-- A magnitude, by its place in the ascending order of all magnitudes. -/
structure Magnitude where
  rank : Nat
  rank_le : rank ≤ infiniteRank
deriving DecidableEq

namespace Magnitude

def zero : Magnitude := ⟨0, Nat.zero_le _⟩

/-- The magnitude above all others. -/
def infinite : Magnitude := ⟨infiniteRank, Nat.le_refl _⟩

/-- Whether a magnitude is below infinity. -/
def isFinite (m : Magnitude) : Bool := m.rank < infiniteRank

/-- The magnitude of a rank; ranks past the last one are infinity. -/
def ofRank (rank : Nat) : Magnitude := ⟨min rank infiniteRank, Nat.min_le_right _ _⟩

/-- The exact value of a finite magnitude, in multiples of the least positive one. -/
def units (m : Magnitude) : Nat :=
  if m.rank < binade then m.rank
  else (binade + m.rank % binade) * Nat.pow 2 (m.rank / binade - 1)

end Magnitude

/-- A quotient rounded to the nearest natural number, a half to the even one. -/
def roundHalfEven (numerator denominator : Nat) : Nat :=
  let quotient := numerator / denominator
  let twice := 2 * (numerator % denominator)
  if twice < denominator then quotient
  else if denominator < twice then quotient + 1
  else quotient + quotient % 2

/-- The magnitude nearest to a quotient.  The significant bits past the 53rd are rounded away; a
carry out of them moves on to the next binade, and past the last one to infinity. -/
def Magnitude.nearest (numerator denominator : Nat) : Magnitude :=
  let scaled := numerator * unitsPerOne
  let dropped := Nat.log2 (scaled / denominator) - 52
  .ofRank (dropped * binade + roundHalfEven scaled (denominator * Nat.pow 2 dropped))

/-- A number: a signed magnitude, or no number at all.  Zero keeps its sign. -/
inductive Number where
  | nan
  | signed (negative : Bool) (magnitude : Magnitude)
deriving DecidableEq

namespace Number

/-- The number zero, without a minus sign. -/
def zero : Number := .signed false .zero

/-- Whether a number is neither infinite nor `nan`. -/
def isFinite : Number → Bool
  | nan => false
  | signed _ m => m.isFinite

def negate : Number → Number
  | nan => nan
  | signed negative m => signed (!negative) m

/-- The place of a number on the line of numbers, where both zeros are at `0`. -/
def position? : Number → Option Int
  | nan => none
  | signed true m => some (-m.rank)
  | signed false m => some m.rank

/-- Numeric equality: the two zeros are equal, and `nan` equals nothing. -/
def equal (x y : Number) : Bool :=
  match x.position?, y.position? with
  | some a, some b => a == b
  | _, _ => false

/-- Numeric order, which leaves out `nan`. -/
def less (x y : Number) : Bool :=
  match x.position?, y.position? with
  | some a, some b => a < b
  | _, _ => false

/-- The number nearest to a quotient, with the given sign. -/
def ofRatio (negative : Bool) (numerator denominator : Nat) : Number :=
  .signed negative (.nearest numerator denominator)

/-- The number nearest to an integer. -/
def ofInt (n : Int) : Number := ofRatio (n < 0) n.natAbs 1

end Number
end AccessControl
