import AccessControl.Number.Decimal

/-! # Numbers as text

`Number.write` is the plain text of a number: the fewest digits that identify it, never with an
exponent.  `Number.writeMarked` is the text in which a number is quoted inside a message: it always
shows a point or an exponent, and it switches to an exponent below `0.0001` and from `10 ^ 16` on.
`Number.read?` reads an optional sign and digits with an optional point and exponent, or one of the
words for the values that are not finite. -/

namespace AccessControl.Number

/-! ### Writing -/

/-- A decimal in positional notation. -/
def positional (d : Decimal) : List Char :=
  let digits := Text.decimal d.digits
  if d.digits = 0 then ['0']
  else if 0 ≤ d.exponent then digits ++ List.replicate d.exponent.toNat '0'
  else
    let places := (-d.exponent).toNat
    if places < digits.length then
      digits.take (digits.length - places) ++ '.' :: digits.drop (digits.length - places)
    else '0' :: '.' :: (List.replicate (places - digits.length) '0' ++ digits)

/-- A decimal with one digit before the point and an exponent, where `plus` is the sign of an
exponent that is not negative. -/
def exponential (plus : List Char) (d : Decimal) : List Char :=
  let sign := if d.scale < 1 then [] else plus
  let exponent := 'e' :: (sign ++ Text.signedDecimal (d.scale - 1))
  match Text.decimal d.digits with
  | [] => exponent
  | [first] => first :: exponent
  | first :: rest => first :: '.' :: (rest ++ exponent)

/-- The text of a number around the text of its magnitude. -/
def writeWith (magnitude : Magnitude → List Char) : Number → List Char
  | nan => "NaN".toList
  | signed negative m =>
    (if negative then ['-'] else []) ++ if m.isFinite then magnitude m else "inf".toList

/-- The plain text of a number. -/
def write (x : Number) : String :=
  .ofList (x.writeWith fun m => positional (m.shortest .up))

/-- A magnitude with a point or an exponent. -/
def markedMagnitude (m : Magnitude) : List Char :=
  let d := m.shortest .up
  if d.digits = 0 then "0.0".toList
  else if 16 < d.scale ∨ d.scale < -3 then exponential [] d
  else if 0 ≤ d.exponent then positional d ++ ".0".toList
  else positional d

/-- The text of a number inside a message. -/
def writeMarked (x : Number) : String := .ofList (x.writeWith markedMagnitude)

/-! ### Reading -/

/-- The whole of a list of digits. -/
def digitsOnly? (cs : List Char) : Option (List Char) :=
  if cs.all Text.isDigit then some cs else none

/-- The exponent part of a number's text. -/
def readExponent? : List Char → Option Int
  | '+' :: cs => readUnsigned? cs
  | '-' :: cs => (readUnsigned? cs).map (- ·)
  | cs => readUnsigned? cs
where
  /-- At least one digit and nothing else. -/
  readUnsigned? (cs : List Char) : Option Int :=
    if cs.isEmpty then none else (digitsOnly? cs).map fun ds => (Text.ofDigits 10 ds : Int)

/-- Digits with an optional point among them, at least one digit in all, and an optional
exponent. -/
def readDecimal? (cs : List Char) : Option Decimal :=
  let whole := cs.takeWhile Text.isDigit
  let rest := cs.dropWhile Text.isDigit
  let (places, rest) := match rest with
    | '.' :: r => (r.takeWhile Text.isDigit, r.dropWhile Text.isDigit)
    | r => ([], r)
  let digits := Text.ofDigits 10 (whole ++ places)
  if whole.isEmpty && places.isEmpty then none
  else match rest with
    | [] => some ⟨digits, -(places.length : Int)⟩
    | c :: r =>
      if c = 'e' ∨ c = 'E' then
        (readExponent? r).map fun e => ⟨digits, e - places.length⟩
      else none

/-- The value of a number's text without its sign. -/
def readUnsigned? (cs : List Char) : Option Number :=
  let word := cs.map Char.toLower
  if word = "inf".toList ∨ word = "infinity".toList then some (.signed false .infinite)
  else if word = "nan".toList then some .nan
  else (readDecimal? cs).map fun d => .signed false d.magnitude

def read? (cs : List Char) : Option Number :=
  match cs with
  | '-' :: r => (readUnsigned? r).map negate
  | '+' :: r => readUnsigned? r
  | r => readUnsigned? r

end AccessControl.Number
