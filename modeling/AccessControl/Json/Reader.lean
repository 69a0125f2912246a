import AccessControl.Json

/-! # Reading JSON

`Json.read?` reads a whole document.  Arrays and objects may be nested `depthLimit` deep.

The digits of a number are collected as long as they fit into 64 bits; later ones only count for
the scale.  What was collected becomes a floating-point number first and is then multiplied or
divided by a power of ten, so that the result may be off by a unit in the last place from the
nearest number.  A number too large to be finite is refused. -/

namespace AccessControl

/-! ### Scaling by powers of ten -/

/-- The product of two finite magnitudes, rounded. -/
def Magnitude.times (a b : Magnitude) : Magnitude :=
  .nearest (a.units * b.units) (unitsPerOne * unitsPerOne)

/-- The quotient of two finite magnitudes, rounded. -/
def Magnitude.over (a b : Magnitude) : Magnitude := .nearest a.units b.units

def Magnitude.powerOfTen (n : Nat) : Magnitude := (Decimal.mk 1 n).magnitude

/-- The greatest exponent of a finite power of ten. -/
def greatestPower : Nat := 308

/-- A magnitude times a power of ten, if that is finite. -/
def Magnitude.scaled? (m : Magnitude) (exponent : Int) : Option Magnitude :=
  if exponent < -greatestPower then
    if m.rank = 0 then some m
    else scaled? (m.over (.powerOfTen greatestPower)) (exponent + greatestPower)
  else if exponent < 0 then some (m.over (.powerOfTen exponent.natAbs))
  else if exponent ≤ greatestPower then
    let product := m.times (.powerOfTen exponent.toNat)
    if product.isFinite then some product else none
  else if m.rank = 0 then some m
  else none
termination_by exponent.natAbs
decreasing_by
  simp only [greatestPower] at *
  omega

namespace Json

/-- How deep arrays and objects may be nested. -/
def depthLimit : Nat := 127

def skipBlanks (cs : List Char) : List Char :=
  cs.dropWhile fun c => c == ' ' || c == '\n' || c == '\t' || c == '\r'

/-! ### Numbers -/

/-- One more than the greatest integer of 64 bits. -/
def integerLimit : Nat := Nat.pow 2 64

/-- Digits appended to a number as long as it stays below the limit, how many there were, and the
rest of the text. -/
def collect (n count : Nat) : List Char → Nat × Nat × List Char
  | [] => (n, count, [])
  | c :: rest =>
    let next := n * 10 + (c.toNat - '0'.toNat)
    if Text.isDigit c && next < integerLimit then collect next (count + 1) rest
    else (n, count, c :: rest)

/-- The number of digits in front, and the text after them. -/
def skipDigits (cs : List Char) : Nat × List Char :=
  ((cs.takeWhile Text.isDigit).length, cs.dropWhile Text.isDigit)

def readExponent? (cs : List Char) : Option (Int × List Char) :=
  match cs with
  | c :: rest =>
    if c = 'e' ∨ c = 'E' then
      match rest with
      | '-' :: rest => digits? (-1) rest
      | '+' :: rest => digits? 1 rest
      | rest => digits? 1 rest
    else some (0, cs)
  | [] => some (0, [])
where
  /-- At least one digit, with the given sign. -/
  digits? (sign : Int) (cs : List Char) : Option (Int × List Char) :=
    let digits := cs.takeWhile Text.isDigit
    if digits.isEmpty then none
    else some (sign * Text.ofDigits 10 digits, cs.dropWhile Text.isDigit)

/-- The floating-point number of collected digits, a scale, and an exponent in front of the text. -/
def finishReal? (negative : Bool) (n : Nat) (scale : Int) (cs : List Char) :
    Option (Json × List Char) := do
  let (exponent, rest) ← readExponent? cs
  let m ← (Magnitude.nearest n 1).scaled? (scale + exponent)
  return (real (.signed negative m), rest)

/-- The integer of collected digits, if it is one of 64 bits. -/
def ofDigits (negative : Bool) (n : Nat) : Json :=
  if !negative then integer n
  else if n = 0 ∨ Nat.pow 2 63 < n then real (.signed true (.nearest n 1))
  else integer (-n)

/-- The number in front, without its sign. -/
def readNumber? (negative : Bool) (cs : List Char) : Option (Json × List Char) := do
  let (n, count, rest) := match cs with
    | '0' :: rest => (0, 1, rest)
    | _ => collect 0 0 cs
  if count = 0 then none
  let (dropped, rest) ← match n, skipDigits rest with
    | 0, (0, rest) => some (0, rest)
    | 0, _ => none
    | _, found => some found
  match rest with
  | '.' :: places =>
    let (n, count, rest) := collect n 0 places
    let (skipped, rest) := skipDigits rest
    if count + skipped = 0 then none
    finishReal? negative n (dropped - count) rest
  | c :: _ =>
    if dropped = 0 ∧ c ≠ 'e' ∧ c ≠ 'E' then some (ofDigits negative n, rest)
    else finishReal? negative n dropped rest
  | [] => if dropped = 0 then some (ofDigits negative n, []) else finishReal? negative n dropped []

/-! ### Strings -/

def readUnit? (cs : List Char) : Option (Nat × List Char) :=
  match cs with
  | a :: b :: c :: d :: rest =>
    if [a, b, c, d].all fun x => (Text.digitValue? x).isSome then
      some (Text.ofDigits 16 [a, b, c, d], rest)
    else none
  | _ => none

/-- Whether a unit is the first half of a character outside the basic plane. -/
def isHighHalf (n : Nat) : Bool := 0xD800 ≤ n && n < 0xDC00

/-- Whether a unit is the second half of a character outside the basic plane. -/
def isLowHalf (n : Nat) : Bool := 0xDC00 ≤ n && n < 0xE000

/-- The character of an escaped code, after its letter; a character outside the basic plane takes
two codes. -/
def readCode? (cs : List Char) : Option (Char × List Char) := do
  let (first, rest) ← readUnit? cs
  if isLowHalf first then none
  else if isHighHalf first then
    match rest with
    | '\\' :: 'u' :: rest => do
      let (second, rest) ← readUnit? rest
      if isLowHalf second then
        some (Char.ofNat (0x10000 + (first - 0xD800) * 0x400 + (second - 0xDC00)), rest)
      else none
    | _ => none
  else some (Char.ofNat first, rest)

def readEscape? (cs : List Char) : Option (Char × List Char) :=
  match cs with
  | '"' :: rest => some ('"', rest)
  | '\\' :: rest => some ('\\', rest)
  | '/' :: rest => some ('/', rest)
  | 'b' :: rest => some ('\x08', rest)
  | 'f' :: rest => some ('\x0c', rest)
  | 'n' :: rest => some ('\n', rest)
  | 'r' :: rest => some ('\r', rest)
  | 't' :: rest => some ('\t', rest)
  | 'u' :: rest => readCode? rest
  | _ => none

/-- The characters of a string up to its closing quote, and the text after it.  No string has more
characters than `count`. -/
def readCharacters? (count : Nat) (cs : List Char) : Option (List Char × List Char) :=
  match count, cs with
  | _, '"' :: rest => some ([], rest)
  | count + 1, '\\' :: rest => do
    let (c, rest) ← readEscape? rest
    let (more, rest) ← readCharacters? count rest
    return (c :: more, rest)
  | count + 1, c :: rest => do
    if c.toNat < 0x20 then none
    let (more, rest) ← readCharacters? count rest
    return (c :: more, rest)
  | _, _ => none

def readString? (cs : List Char) : Option (String × List Char) :=
  (readCharacters? cs.length cs).map fun (s, rest) => (.ofList s, rest)

/-! ### Values -/

/-- The items of an array that is not empty, up to its closing bracket. -/
def readItems? (item : List Char → Option (Json × List Char)) (count : Nat) (cs : List Char) :
    Option (List Json × List Char) := do
  let (first, rest) ← item cs
  match count, skipBlanks rest with
  | _, ']' :: rest => return ([first], rest)
  | count + 1, ',' :: rest =>
    let (more, rest) ← readItems? item count rest
    return (first :: more, rest)
  | _, _ => none

def readMember? (item : List Char → Option (Json × List Char)) (cs : List Char) :
    Option ((String × Json) × List Char) := do
  match skipBlanks cs with
  | '"' :: rest =>
    let (name, rest) ← readString? rest
    match skipBlanks rest with
    | ':' :: rest =>
      let (value, rest) ← item rest
      return ((name, value), rest)
    | _ => none
  | _ => none

/-- The members of an object that is not empty, up to its closing brace. -/
def readMembers? (item : List Char → Option (Json × List Char)) (count : Nat) (cs : List Char) :
    Option (List (String × Json) × List Char) := do
  let (first, rest) ← readMember? item cs
  match count, skipBlanks rest with
  | _, '\x7d' :: rest => return ([first], rest)
  | count + 1, ',' :: rest =>
    let (more, rest) ← readMembers? item count rest
    return (first :: more, rest)
  | _, _ => none

/-- The text after a word that stands in front. -/
def afterWord? (word : String) (cs : List Char) : Option (List Char) :=
  if word.toList.isPrefixOf cs then some (cs.drop word.length) else none

/-- A value that is neither an array nor an object. -/
def readScalar? (cs : List Char) : Option (Json × List Char) :=
  match cs with
  | '"' :: rest => (readString? rest).map fun (s, rest) => (string s, rest)
  | '-' :: rest => readNumber? true rest
  | 'n' :: _ => (afterWord? "null" cs).map (null, ·)
  | 't' :: _ => (afterWord? "true" cs).map (boolean true, ·)
  | 'f' :: _ => (afterWord? "false" cs).map (boolean false, ·)
  | _ => readNumber? false cs

/-- The value in front, in which arrays and objects are nested at most `depth` deep. -/
def readValue? (depth : Nat) (cs : List Char) : Option (Json × List Char) :=
  match depth, skipBlanks cs with
  | 0, '[' :: _ => none
  | 0, '\x7b' :: _ => none
  | depth + 1, '[' :: rest =>
    match skipBlanks rest with
    | ']' :: rest => some (array [], rest)
    | rest =>
      (readItems? (readValue? depth) rest.length rest).map fun (items, rest) => (array items, rest)
  | depth + 1, '\x7b' :: rest =>
    match skipBlanks rest with
    | '\x7d' :: rest => some (object [], rest)
    | rest => (readMembers? (readValue? depth) rest.length rest).map fun (members, rest) =>
        (ofMembers members, rest)
  | _, cs => readScalar? cs

def read? (text : String) : Option Json :=
  match readValue? depthLimit text.toList with
  | some (v, rest) => if (skipBlanks rest).isEmpty then some v else none
  | none => none

end Json
end AccessControl
