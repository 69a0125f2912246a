import AccessControl.Json.Reader
import AccessControl.Text

/-! # Reading RON

RON documents denote the values of JSON.  Named fields in parentheses make an object, and other
items in parentheses an array; both may have the name of their type in front, and a name alone is
null.  Objects in braces have strings or characters as names.  An option is null or what it holds,
and a character is a text of its own. -/

namespace AccessControl.Ron

/-! ### Blanks and comments -/

def isBlank (c : Char) : Bool := c == ' ' || c == '\n' || c == '\t' || c == '\r'

/-- The text after the end of a comment between marks, which is in `depth` more of them. -/
def afterComment? (depth : Nat) : List Char → Option (List Char)
  | '/' :: '*' :: rest => afterComment? (depth + 1) rest
  | '*' :: '/' :: rest =>
    match depth with
    | 0 => some rest
    | depth + 1 => afterComment? depth rest
  | _ :: rest => afterComment? depth rest
  | [] => none

/-- The text after blanks and at most `count` comments. -/
def skipSpace (count : Nat) (cs : List Char) : List Char :=
  match count, cs.dropWhile isBlank with
  | count + 1, '/' :: '/' :: rest => skipSpace count (rest.dropWhile (· != '\n'))
  | count + 1, '/' :: '*' :: rest =>
    match afterComment? 0 rest with
    | some rest => skipSpace count rest
    | none => '/' :: '*' :: rest
  | _, cs => cs

def skip (cs : List Char) : List Char := skipSpace cs.length cs

/-! ### Names -/

def isNamePart (c : Char) : Bool := c.isAlphanum || c == '_'

/-- Whether a character can be part of a raw name. -/
def isRawPart (c : Char) : Bool := isNamePart c || c == '.' || c == '+' || c == '-'

/-- The name in front.  A raw name has a mark in front, and its further characters are in no other
name. -/
def readName? (cs : List Char) : Option (List Char × List Char) :=
  match cs with
  | 'r' :: '"' :: _ => none
  | 'r' :: '#' :: rest =>
    let name := rest.takeWhile isRawPart
    if name.isEmpty then none else some (name, rest.drop name.length)
  | c :: _ =>
    let name := cs.takeWhile isNamePart
    if (c.isAlpha || c == '_') && (cs.takeWhile isRawPart).length == name.length then
      some (name, cs.drop name.length)
    else none
  | [] => none

/-! ### Strings and characters -/

def readCode? (cs : List Char) : Option (Char × List Char) :=
  match cs with
  | '\x7b' :: rest =>
    let digits := rest.takeWhile fun c => (Text.digitValue? c).isSome
    let n := Text.ofDigits 16 digits
    if digits.isEmpty ∨ 6 < digits.length then none
    else if h : n.isValidChar then
      match rest.drop digits.length with
      | '\x7d' :: rest => some (Char.ofNatAux n h, rest)
      | _ => none
    else none
  | _ => none

/-- The character that an escape stands for, after its backslash. -/
def readEscape? (cs : List Char) : Option (Char × List Char) :=
  match cs with
  | '\'' :: rest => some ('\'', rest)
  | '"' :: rest => some ('"', rest)
  | '\\' :: rest => some ('\\', rest)
  | 'n' :: rest => some ('\n', rest)
  | 'r' :: rest => some ('\r', rest)
  | 't' :: rest => some ('\t', rest)
  | '0' :: rest => some ('\x00', rest)
  | 'x' :: a :: b :: rest =>
    if (Text.digitValue? a).isSome ∧ (Text.digitValue? b).isSome then
      some (Char.ofNat (Text.ofDigits 16 [a, b]), rest)
    else none
  | 'u' :: rest => readCode? rest
  | _ => none

/-- The characters of a string up to its closing quote, and the text after it. -/
def readCharacters? (count : Nat) (cs : List Char) : Option (List Char × List Char) :=
  match count, cs with
  | _, '"' :: rest => some ([], rest)
  | count + 1, c :: rest => do
    let (c, rest) ← if c = '\\' then readEscape? rest else some (c, rest)
    let (more, rest) ← readCharacters? count rest
    return (c :: more, rest)
  | _, _ => none

/-- The characters of a raw string up to its closing quote with hashes, and the text after it. -/
def readRaw? (close : List Char) (cs : List Char) : Option (List Char × List Char) :=
  if close.isPrefixOf cs then some ([], cs.drop close.length)
  else match cs with
    | [] => none
    | c :: rest => (readRaw? close rest).map fun (more, rest) => (c :: more, rest)

def readString? (cs : List Char) : Option (String × List Char) :=
  match cs with
  | '"' :: rest => (readCharacters? cs.length rest).map fun (s, rest) => (.ofList s, rest)
  | 'r' :: rest =>
    let hashes := rest.takeWhile (· == '#')
    match rest.drop hashes.length with
    | '"' :: rest => (readRaw? ('"' :: hashes) rest).map fun (s, rest) => (.ofList s, rest)
    | _ => none
  | _ => none

/-- The character between single quotes, after the first of them. -/
def readCharacter? (cs : List Char) : Option (String × List Char) := do
  let (c, rest) ← match cs with
    | '\\' :: rest => readEscape? rest
    | c :: rest => if c = '\'' then none else some (c, rest)
    | [] => none
  match rest with
  | '\'' :: rest => return (.singleton c, rest)
  | _ => none

/-! ### Numbers -/

def readDigits? (base : Nat) (cs : List Char) : Option (Nat × List Char) :=
  let word := cs.takeWhile fun c => (Text.digitValue? c).isSome || c == '_'
  let digits := word.filter (· != '_')
  let isDigit (c : Char) : Bool :=
    match Text.digitValue? c with
    | some d => d < base
    | none => false
  if word.isEmpty ∨ word.head? = some '_' ∨ !digits.all isDigit then none
  else some (Text.ofDigits base digits, cs.drop word.length)

/-- The integer of 64 bits in front, after its sign. -/
def readInteger? (sign? : Option Char) (cs : List Char) : Option (Json × List Char) := do
  let (n, rest) ← match cs with
    | '0' :: 'x' :: rest => readDigits? 16 rest
    | '0' :: 'b' :: rest => readDigits? 2 rest
    | '0' :: 'o' :: rest => readDigits? 8 rest
    | _ => readDigits? 10 cs
  match sign? with
  | none => if n < Nat.pow 2 64 then some (.integer n, rest) else none
  | some '-' => if n ≤ Nat.pow 2 63 then some (.integer (-n), rest) else none
  | some _ => if n < Nat.pow 2 63 then some (.integer n, rest) else none

def isRealPart (c : Char) : Bool := Text.isDigit c || "eE.+-_".toList.contains c

/-- The number with a point or an exponent in front, which starts with its sign. -/
def readReal? (cs : List Char) : Option (Json × List Char) :=
  let word := cs.takeWhile isRealPart
  (Number.read? word).map fun x => (.real x, cs.drop word.length)

/-- The number in front.  It is an integer unless a point or a sign among its characters says
otherwise, or its size does. -/
def readNumber? (cs : List Char) : Option (Json × List Char) :=
  let sign? := match cs with
    | '+' :: _ => some '+'
    | '-' :: _ => some '-'
    | _ => none
  let unsigned := if sign?.isSome then cs.drop 1 else cs
  match readName? unsigned with
  | some (['i', 'n', 'f'], rest) => some (.real (.signed (sign? == some '-') .infinite), rest)
  | some (['N', 'a', 'N'], rest) => some (.real .nan, rest)
  | _ =>
    let integerPart (c : Char) : Bool := (Text.digitValue? c).isSome || c == '_'
    if (unsigned.takeWhile integerPart).length < (unsigned.takeWhile isRealPart).length then
      readReal? cs
    else readInteger? sign? unsigned <|> readReal? cs

/-! ### Values -/

def readField? (value : List Char → Option (Json × List Char)) (cs : List Char) :
    Option ((String × Json) × List Char) := do
  let (name, rest) ← readName? cs
  match skip rest with
  | ':' :: rest =>
    let (v, rest) ← value (skip rest)
    return ((.ofList name, v), rest)
  | _ => none

/-- An entry of an object in braces, the name of which is a value too. -/
def readMember? (value : List Char → Option (Json × List Char)) (cs : List Char) :
    Option ((String × Json) × List Char) := do
  let (name, rest) ← value cs
  match name, skip rest with
  | .string name, ':' :: rest =>
    let (v, rest) ← value (skip rest)
    return ((name, v), rest)
  | _, _ => none

/-- Whether the first item in parentheses is a field with its name. -/
def startsWithField (cs : List Char) : Bool :=
  match readName? (skip cs) with
  | some (_, rest) => (skip rest).head? == some ':'
  | none => false

/-- What is in parentheses, after the opening one. -/
def readParenthesized? (value : List Char → Option (Json × List Char)) (cs : List Char) :
    Option (Json × List Char) :=
  if startsWithField cs then
    (Text.readItems? skip (readField? value) ')' (cs.length + 1) cs).map fun (fields, rest) =>
      (.ofMembers fields, rest)
  else
    (Text.readItems? skip value ')' (cs.length + 1) cs).map fun (items, rest) =>
      (.array items, rest)

/-- What an option holds, in parentheses. -/
def readHeld? (value : List Char → Option (Json × List Char)) (cs : List Char) :
    Option (Json × List Char) := do
  match skip cs with
  | '(' :: rest =>
    let (v, rest) ← value (skip rest)
    match skip rest with
    | ')' :: rest => return (v, rest)
    | ',' :: rest =>
      match skip rest with
      | ')' :: rest => return (v, rest)
      | _ => none
    | _ => none
  | _ => none

/-- How deep values may be nested. -/
def depthLimit : Nat := 128

/-- The value in front, in which others are nested at most `depth` deep. -/
def readValue? (depth : Nat) (cs : List Char) : Option (Json × List Char) :=
  match depth with
  | 0 => none
  | depth + 1 =>
    match readName? cs, cs with
    | some (name, rest), _ =>
      if name = "true".toList then some (.boolean true, rest)
      else if name = "false".toList then some (.boolean false, rest)
      else if name = "None".toList then some (.null, rest)
      else if name = "Some".toList then readHeld? (readValue? depth) rest
      else if name = "inf".toList ∨ name = "NaN".toList then readNumber? cs
      else match skip rest with
        | '(' :: rest => readParenthesized? (readValue? depth) rest
        | rest => some (.null, rest)
    | none, '(' :: ')' :: rest => some (.null, rest)
    | none, '(' :: rest => readParenthesized? (readValue? depth) rest
    | none, '[' :: rest =>
      (Text.readItems? skip (readValue? depth) ']' cs.length rest).map fun (items, rest) =>
        (.array items, rest)
    | none, '\x7b' :: rest =>
      (Text.readItems? skip (readMember? (readValue? depth)) '\x7d' cs.length rest).map
        fun (entries, rest) => (.ofMembers entries, rest)
    | none, '"' :: _ | none, 'r' :: _ => (readString? cs).map fun (s, rest) => (.string s, rest)
    | none, '\'' :: rest => (readCharacter? rest).map fun (s, rest) => (.string s, rest)
    | none, _ => readNumber? cs

/-! ### Documents -/

/-- The text after some words, with blanks and comments between them. -/
def afterWords? : List String → List Char → Option (List Char)
  | [], cs => some cs
  | word :: rest, cs => (Json.afterWord? word (skip cs)).bind (afterWords? rest)

/-- The names of the ways in which a document may extend the language. -/
def extensionNames : List String := ["unwrap_newtypes", "implicit_some", "unwrap_variant_newtypes"]

def readExtension? (cs : List Char) : Option (Unit × List Char) := do
  let (name, rest) ← readName? cs
  if extensionNames.contains (.ofList name) then some ((), rest) else none

/-- The text after at most `count` attributes that name extensions. -/
def skipAttributes? (count : Nat) (cs : List Char) : Option (List Char) :=
  match count, skip cs with
  | count + 1, '#' :: rest => do
    let rest ← afterWords? ["!", "[", "enable", "("] rest
    let (_, rest) ← Text.readItems? skip readExtension? ')' rest.length rest
    skipAttributes? count (← afterWords? ["]"] rest)
  | _, cs => some cs

def read? (text : String) : Option Json := do
  let cs ← skipAttributes? text.length text.toList
  let (value, rest) ← readValue? depthLimit cs
  if (skip rest).isEmpty then some value else none

end AccessControl.Ron
