/-! # Text

What the readers and writers of all languages share, on lists of characters: blanks of any script,
splitting at a character, natural numbers in positional notation, and items between commas. -/

namespace AccessControl.Text

/-! ### Blanks -/

/-- The code points that are white space, as closed ranges in ascending order. -/
def blankRanges : List (Nat × Nat) :=
  [(0x9, 0xD), (0x20, 0x20), (0x85, 0x85), (0xA0, 0xA0), (0x1680, 0x1680), (0x2000, 0x200A),
   (0x2028, 0x2029), (0x202F, 0x202F), (0x205F, 0x205F), (0x3000, 0x3000)]

def isBlank (c : Char) : Bool :=
  blankRanges.any fun (first, last) => first ≤ c.toNat && c.toNat ≤ last

def trimLeft (cs : List Char) : List Char := cs.dropWhile isBlank

/-- A text without the blanks at either end. -/
def trim (cs : List Char) : List Char := (trimLeft (trimLeft cs).reverse).reverse

/-! ### Parts

`split` cuts a text at every place where a character stands.  The parts are one more than the
places, and with the character between them they make the text again. -/

/-- The parts of a text between the places of a character. -/
def split (separator : Char) : List Char → List (List Char)
  | [] => [[]]
  | c :: rest =>
    if c = separator then [] :: split separator rest
    else match split separator rest with
      | [] => [[c]]
      | part :: parts => (c :: part) :: parts

/-! ### Digits

`decimal` writes a natural number in base ten without leading zeros, `hexadecimal` in base sixteen
with small letters, and `ofDigits` reads digits of any base back. -/

/-- The character of a digit below sixteen. -/
def digitChar (d : Nat) : Char := Nat.digitChar d

/-- The digits of `n` in base `base`, most significant first, zero being one digit. -/
def digitsOf (base n : Nat) : List Char :=
  if base < 2 ∨ n < base then [digitChar n]
  else digitsOf base (n / base) ++ [digitChar (n % base)]
termination_by n
decreasing_by
  rename_i h
  exact Nat.div_lt_self (by omega) (by omega)

def decimal (n : Nat) : List Char := digitsOf 10 n

def hexadecimal (n : Nat) : List Char := digitsOf 16 n

/-- A natural number in base ten with at least `width` digits. -/
def paddedDecimal (width n : Nat) : List Char :=
  let digits := decimal n
  List.replicate (width - digits.length) '0' ++ digits

def signedDecimal (n : Int) : List Char :=
  if n < 0 then '-' :: decimal n.natAbs else decimal n.natAbs

/-- The value of a digit character in base sixteen, letters of either case. -/
def digitValue? (c : Char) : Option Nat :=
  if '0' ≤ c ∧ c ≤ '9' then some (c.toNat - '0'.toNat)
  else if 'a' ≤ c ∧ c ≤ 'f' then some (c.toNat - 'a'.toNat + 10)
  else if 'A' ≤ c ∧ c ≤ 'F' then some (c.toNat - 'A'.toNat + 10)
  else none

def isDigit (c : Char) : Bool := '0' ≤ c && c ≤ '9'

/-- The number that digits denote in a base. -/
def ofDigits (base : Nat) (digits : List Char) : Nat :=
  digits.foldl (fun n c => n * base + (digitValue? c).getD 0) 0

/-! ### Items between commas

`readItems?` reads items up to a closing mark, in front of which the last comma may stand; what
separates words and how an item is read are its arguments. -/

section items
variable {α : Type}

/-- Items with commas between them up to a closing mark, and the text after it.  There are fewer
than `count` of them. -/
def readItems? (skip : List Char → List Char) (item : List Char → Option (α × List Char))
    (close : Char) (count : Nat) (cs : List Char) : Option (List α × List Char) :=
  match count, skip cs with
  | count + 1, c :: rest =>
    if c = close then some ([], rest)
    else do
      let (first, rest) ← item (c :: rest)
      match skip rest with
      | ',' :: rest =>
        let (more, rest) ← readItems? skip item close count rest
        return (first :: more, rest)
      | c :: rest => if c = close then some ([first], rest) else none
      | [] => none
  | _, _ => none

end items

end AccessControl.Text
