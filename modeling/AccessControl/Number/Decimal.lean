import AccessControl.Number
import AccessControl.Text

/-! # Decimals

A `Decimal` is a natural number times a power of ten.  `Decimal.magnitude` reads it as the nearest
magnitude, and `Magnitude.shortest` chooses the decimal that a magnitude is written with: among the
decimals that read back as it, one with the fewest digits, and of those the nearest.  A `Tie` says
which of two is taken when they are equally near. -/

namespace AccessControl

/-- The number `digits * 10 ^ exponent`. -/
structure Decimal where
  digits : Nat
  exponent : Int
deriving DecidableEq

namespace Decimal

def numerator (d : Decimal) : Nat := d.digits * Nat.pow 10 d.exponent.toNat

def denominator (d : Decimal) : Nat := Nat.pow 10 (-d.exponent).toNat

/-- The least power of ten above the value of a decimal that is not zero. -/
def scale (d : Decimal) : Int := (Text.decimal d.digits).length + d.exponent

/-- The magnitude nearest to a decimal.  Decimals of extreme scale are known to be infinite or
nothing without working out the power of ten. -/
def magnitude (d : Decimal) : Magnitude :=
  if d.digits = 0 then .zero
  else if d.scale < -400 then .zero
  else if 400 < d.scale then .infinite
  else .nearest d.numerator d.denominator

/-- A decimal of the same value without trailing zeros. -/
def stripped (digits : Nat) (exponent : Int) : Decimal :=
  if digits = 0 ∨ digits % 10 ≠ 0 then ⟨digits, exponent⟩
  else stripped (digits / 10) (exponent + 1)
termination_by digits
decreasing_by omega

end Decimal

/-- How to choose between two decimals that are equally near: the larger, or the one whose last
digit is even. -/
inductive Tie where
  | up
  | even

/-- Whether the smaller of two neighbours is chosen, given its digits. -/
def Tie.takesBelow : Tie → Nat → Bool
  | up, _ => false
  | even, digits => digits % 2 == 0

namespace Magnitude

/-- The least power of ten above a finite magnitude that is not zero. -/
def scale (m : Magnitude) : Int :=
  (Text.decimal (m.units * Nat.pow 10 400 / unitsPerOne)).length - 400

/-- The one of two decimals that reads back as `m`.  When both do, `takesBelow` says which. -/
def choose? (m : Magnitude) (takesBelow : Bool) (below above : Decimal) : Option Decimal :=
  match below.magnitude == m, above.magnitude == m with
  | true, true => if takesBelow then some below else some above
  | true, false => some below
  | false, true => some above
  | false, false => none

/-- The best of the decimals with the given number of digits that read back as `m`. -/
def candidate? (tie : Tie) (m : Magnitude) (count : Nat) : Option Decimal :=
  let exponent := m.scale - count
  let grid : Decimal := ⟨1, exponent⟩
  -- the value of `m` in steps of the grid is `steps / step`
  let steps := m.units * grid.denominator
  let step := unitsPerOne * grid.numerator
  let below : Decimal := ⟨steps / step, exponent⟩
  let above : Decimal := ⟨steps / step + 1, exponent⟩
  let twice := 2 * (steps % step)
  let takesBelow := twice < step || (twice == step && tie.takesBelow below.digits)
  m.choose? takesBelow below above

/-- The exact value of a finite magnitude. -/
def exactDecimal (m : Magnitude) : Decimal := ⟨m.units * Nat.pow 5 1074, -1074⟩

/-- The decimal that a finite magnitude is written with. -/
def shortest (tie : Tie) (m : Magnitude) : Decimal :=
  let found := (List.range 17).findSome? fun n => m.candidate? tie (n + 1)
  let chosen := found.getD m.exactDecimal
  .stripped chosen.digits chosen.exponent

end Magnitude
end AccessControl
