import AccessControl.Json.Reader
import AccessControl.Text
import AccessControl.Text.Quoted

/-! # Reading JSON5

JSON5 writes the values of JSON with more freedom: there are comments, names without quotes, quotes
of two kinds, a comma after the last item, hexadecimal integers, numbers with a bare point, and
words for infinity and for what is no number.  An integer without point and exponent fits 64 bits
with a sign, and a hexadecimal one fits 32 bits. -/

namespace AccessControl.Json5

/-! ### Blanks and comments -/

def isLineEnd (c : Char) : Bool := c == '\n' || c == '\r' || c == '\u2028' || c == '\u2029'

/-- Whether a character is a blank; the byte order mark is one, and the control for the next line is
not. -/
def isBlank (c : Char) : Bool := (Text.isBlank c && c != '\x85') || c == '\ufeff'

/-- The text after the end of a comment between marks. -/
def afterComment? : List Char → Option (List Char)
  | '*' :: '/' :: rest => some rest
  | _ :: rest => afterComment? rest
  | [] => none

/-- The text after blanks and at most `count` comments. -/
def skipSpace (count : Nat) (cs : List Char) : List Char :=
  match count, cs.dropWhile isBlank with
  | count + 1, '/' :: '/' :: rest => skipSpace count (rest.dropWhile fun c => !isLineEnd c)
  | count + 1, '/' :: '*' :: rest =>
    match afterComment? rest with
    | some rest => skipSpace count rest
    | none => '/' :: '*' :: rest
  | _, cs => cs

def skip (cs : List Char) : List Char := skipSpace cs.length cs

/-! ### Strings and names -/

/-- The character that an escape of a string stands for, after its backslash; a line end stands for
none. -/
def readEscape? (cs : List Char) : Option (List Char × List Char) :=
  match cs with
  | '\r' :: '\n' :: rest => some ([], rest)
  | 'b' :: rest => some (['\x08'], rest)
  | 'f' :: rest => some (['\x0c'], rest)
  | 'n' :: rest => some (['\n'], rest)
  | 'r' :: rest => some (['\r'], rest)
  | 't' :: rest => some (['\t'], rest)
  | 'v' :: rest => some (['\x0b'], rest)
  | '0' :: rest => some (['\x00'], rest)
  | 'x' :: a :: b :: rest =>
    if (Text.digitValue? a).isSome ∧ (Text.digitValue? b).isSome then
      some ([Char.ofNat (Text.ofDigits 16 [a, b])], rest)
    else none
  | 'u' :: rest => (Json.readCode? rest).map fun (c, rest) => ([c], rest)
  | c :: rest =>
    if isLineEnd c then some ([], rest)
    else if Text.isDigit c ∨ c = 'x' then none
    else some ([c], rest)
  | [] => none

/-- The characters of a string up to its closing quote, and the text after it. -/
def readCharacters? (quote : Char) (count : Nat) (cs : List Char) :
    Option (List Char × List Char) :=
  match count, cs with
  | count + 1, c :: rest =>
    if c = quote then some ([], rest)
    else if isLineEnd c then none
    else do
      let (text, rest) ← if c = '\\' then readEscape? rest else some ([c], rest)
      let (more, rest) ← readCharacters? quote count rest
      return (text ++ more, rest)
  | _, _ => none

def readString? (cs : List Char) : Option (String × List Char) :=
  match cs with
  | '"' :: rest => (readCharacters? '"' cs.length rest).map fun (s, rest) => (.ofList s, rest)
  | '\'' :: rest => (readCharacters? '\'' cs.length rest).map fun (s, rest) => (.ofList s, rest)
  | _ => none

/-- Whether a character beyond ASCII can be part of a name. -/
def isForeign (c : Char) : Bool := 0x80 ≤ c.toNat && !isBlank c

def isNameStart (c : Char) : Bool :=
  c.isAlpha || c == '$' || c == '_' || (isForeign c && !Text.isShapeless c)

/-- Whether a character can go on a name without quotes. -/
def isNamePart (c : Char) : Bool := isNameStart c || Text.isDigit c || isForeign c

/-- The characters of a name without quotes, the next of which has to be as given. -/
def readNameCharacters (allowed : Char → Bool) (count : Nat) (cs : List Char) :
    List Char × List Char :=
  match count, cs with
  | 0, _ | _, [] => ([], cs)
  | count + 1, c :: rest =>
    let found := match c, rest with
      | '\\', 'u' :: rest => Json.readCode? rest
      | _, _ => if allowed c then some (c, rest) else none
    match found with
    | some (c, rest) =>
      let (more, rest) := readNameCharacters isNamePart count rest
      (c :: more, rest)
    | none => ([], cs)

/-- The name of a member, with or without quotes. -/
def readName? (cs : List Char) : Option (String × List Char) :=
  readString? cs <|>
    match readNameCharacters isNameStart cs.length cs with
    | ([], _) => none
    | (name, rest) => some (.ofList name, rest)

/-! ### Numbers -/

/-- The number of a sign and a word of digits with an optional point and exponent. -/
def decimal? (negative : Bool) (word : List Char) : Option Json := do
  if word.isEmpty then none
  else if word.all Text.isDigit then
    let n := (Text.ofDigits 10 word : Int)
    let n := if negative then -n else n
    if -(Nat.pow 2 63 : Int) ≤ n ∧ n < (Nat.pow 2 63 : Int) then some (.integer n) else none
  else
    let magnitude := (← Number.readDecimal? word).magnitude
    if magnitude.isFinite then some (.real (.signed negative magnitude)) else none

/-- How many characters the exponent in front has. -/
def exponentLength (cs : List Char) : Nat :=
  let digits (cs : List Char) : Nat := (cs.takeWhile Text.isDigit).length
  let counted (before : Nat) (cs : List Char) : Nat :=
    if digits cs = 0 then 0 else before + digits cs
  match cs with
  | c :: rest =>
    if c = 'e' ∨ c = 'E' then
      match rest with
      | '+' :: rest | '-' :: rest => counted 2 rest
      | rest => counted 1 rest
    else 0
  | [] => 0

/-- The digits in front, with a point and an exponent as far as they belong to one number. -/
def takeDecimal (cs : List Char) : List Char :=
  let whole := match cs with
    | '0' :: _ => ['0']
    | _ => cs.takeWhile Text.isDigit
  let places := match cs.drop whole.length with
    | '.' :: rest => '.' :: rest.takeWhile Text.isDigit
    | _ => []
  let mantissa := whole ++ places
  mantissa ++ (cs.drop mantissa.length).take (exponentLength (cs.drop mantissa.length))

/-- The digits of the hexadecimal integer in front, after its mark. -/
def takeHexadecimal (cs : List Char) : List Char :=
  match cs with
  | '0' :: 'x' :: rest | '0' :: 'X' :: rest =>
    rest.takeWhile fun c => (Text.digitValue? c).isSome
  | _ => []

/-- The number in front, after its sign if it has one.  A plus sign goes with digits only, and no
sign goes with a hexadecimal integer. -/
def readUnsigned? (sign? : Option Char) (cs : List Char) : Option (Json × List Char) :=
  let negative := sign? == some '-'
  let digits := takeHexadecimal cs
  if digits.length ≠ 0 then
    let n := Text.ofDigits 16 digits
    if sign?.isNone ∧ n < Nat.pow 2 32 then some (.integer n, cs.drop (digits.length + 2)) else none
  else match cs with
    | 'I' :: _ =>
      if sign? = some '+' then none
      else (Json.afterWord? "Infinity" cs).map (.real (.signed negative .infinite), ·)
    | 'N' :: _ =>
      if sign? = some '+' then none else (Json.afterWord? "NaN" cs).map (.real .nan, ·)
    | _ =>
      let word := takeDecimal cs
      (decimal? negative word).map (·, cs.drop word.length)

def readNumber? (cs : List Char) : Option (Json × List Char) :=
  match cs with
  | '+' :: rest => readUnsigned? (some '+') rest
  | '-' :: rest => readUnsigned? (some '-') rest
  | _ => readUnsigned? none cs

/-! ### Values -/

def readMember? (value : List Char → Option (Json × List Char)) (cs : List Char) :
    Option ((String × Json) × List Char) := do
  let (name, rest) ← readName? cs
  match skip rest with
  | ':' :: rest =>
    let (v, rest) ← value (skip rest)
    return ((name, v), rest)
  | _ => none

/-- The value in front, in which arrays and objects are nested at most `depth` deep. -/
def readValue? (depth : Nat) (cs : List Char) : Option (Json × List Char) :=
  match depth, cs with
  | 0, _ => none
  | depth + 1, '[' :: rest =>
    (Text.readItems? skip (readValue? depth) ']' cs.length rest).map fun (items, rest) =>
      (.array items, rest)
  | depth + 1, '\x7b' :: rest =>
    (Text.readItems? skip (readMember? (readValue? depth)) '\x7d' cs.length rest).map
      fun (members, rest) => (.ofMembers members, rest)
  | _, 'n' :: _ => (Json.afterWord? "null" cs).map (.null, ·)
  | _, 't' :: _ => (Json.afterWord? "true" cs).map (.boolean true, ·)
  | _, 'f' :: _ => (Json.afterWord? "false" cs).map (.boolean false, ·)
  | _, '"' :: _ | _, '\'' :: _ => (readString? cs).map fun (s, rest) => (.string s, rest)
  | _, _ => readNumber? cs

def read? (text : String) : Option Json := do
  let cs := text.toList
  let (value, rest) ← readValue? (cs.length + 1) (skip cs)
  if (skip rest).isEmpty then some value else none

end AccessControl.Json5
