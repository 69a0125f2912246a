import AccessControl.Timestamp.Text
import AccessControl.Toml

/-! # Reading TOML documents

`Toml.read?` reads a document of version 1.0 of the language, line by line: a line is empty or has a
header or a key with its value, and a comment may end it.  Arrays and strings of three quotes can go
on over several lines. -/

namespace AccessControl.Toml

/-! ### Blanks and comments -/

def isBlank (c : Char) : Bool := c == ' ' || c == '\t'

/-- Whether a character may stand in a comment or a string; controls may not, tabs aside. -/
def isAllowed (c : Char) : Bool := c == '\t' || (0x20 ≤ c.toNat && c.toNat ≠ 0x7F)

def skipBlanks (cs : List Char) : List Char := cs.dropWhile isBlank

/-- The text after a comment, if one is in front. -/
def skipComment (cs : List Char) : List Char :=
  match cs with
  | '#' :: rest => rest.dropWhile isAllowed
  | _ => cs

def lineEnd? : List Char → Option (List Char)
  | '\n' :: rest => some rest
  | '\r' :: '\n' :: rest => some rest
  | _ => none

/-- The text of the next line, if nothing but blanks and a comment are left of this one. -/
def nextLine? (cs : List Char) : Option (List Char) :=
  match skipComment (skipBlanks cs) with
  | [] => some []
  | rest => lineEnd? rest

/-- The text after blanks, comments and at most `count` line ends. -/
def skipLines (count : Nat) (cs : List Char) : List Char :=
  let rest := skipComment (skipBlanks cs)
  match count, lineEnd? rest with
  | count + 1, some next => skipLines count next
  | _, _ => rest

/-! ### Strings -/

def readCode? (length : Nat) (cs : List Char) : Option (Char × List Char) :=
  let digits := cs.take length
  let n := Text.ofDigits 16 digits
  if h : digits.length = length ∧ digits.all (fun c => (Text.digitValue? c).isSome) = true ∧
      n.isValidChar then
    some (Char.ofNatAux n h.2.2, cs.drop length)
  else none

/-- The character that an escape denotes, after its backslash. -/
def readEscape? (cs : List Char) : Option (Char × List Char) :=
  match cs with
  | 'b' :: rest => some ('\x08', rest)
  | 't' :: rest => some ('\t', rest)
  | 'n' :: rest => some ('\n', rest)
  | 'f' :: rest => some ('\x0c', rest)
  | 'r' :: rest => some ('\r', rest)
  | '"' :: rest => some ('"', rest)
  | '\\' :: rest => some ('\\', rest)
  | 'u' :: rest => readCode? 4 rest
  | 'U' :: rest => readCode? 8 rest
  | _ => none

/-- The text after blanks and at most `count` line ends. -/
def skipEmptyLines (count : Nat) (cs : List Char) : List Char :=
  let rest := skipBlanks cs
  match count, lineEnd? rest with
  | count + 1, some next => skipEmptyLines count next
  | _, _ => rest

/-- The text after a line end that a backslash takes away, with all blanks and line ends that
follow. -/
def joinedLine? (cs : List Char) : Option (List Char) :=
  (lineEnd? (skipBlanks cs)).map fun rest => skipEmptyLines rest.length rest

/-- A string of one line up to its closing quote, which takes escapes or is literal. -/
def readLine? (quote : Char) (count : Nat) (cs : List Char) : Option (List Char × List Char) :=
  match count, cs with
  | count + 1, c :: rest =>
    if c = quote then some ([], rest)
    else if c = '\\' ∧ quote = '"' then do
      let (c, rest) ← readEscape? rest
      let (more, rest) ← readLine? quote count rest
      return (c :: more, rest)
    else if isAllowed c then do
      let (more, rest) ← readLine? quote count rest
      return (c :: more, rest)
    else none
  | _, _ => none

/-- A string of several lines up to its closing quotes, before which it may have two more. -/
def readLines? (quote : Char) (count : Nat) (cs : List Char) : Option (List Char × List Char) :=
  match count with
  | 0 => none
  | count + 1 =>
    let more (cs rest : List Char) : Option (List Char × List Char) :=
      (readLines? quote count rest).map fun (text, rest) => (cs ++ text, rest)
    let quotes := cs.takeWhile (· == quote)
    if 3 ≤ quotes.length then
      if quotes.length ≤ 5 then some (quotes.drop 3, cs.drop quotes.length) else none
    else match lineEnd? cs, cs with
      | some rest, _ => more ['\n'] rest
      | none, c :: rest =>
        if c = '\\' ∧ quote = '"' then
          match joinedLine? rest with
          | some rest => more [] rest
          | none =>
            match readEscape? rest with
            | some (c, rest) => more [c] rest
            | none => none
        else if isAllowed c then more [c] rest
        else none
      | none, [] => none

/-- A string between quotes of one kind. -/
def readQuoted? (quote : Char) (cs : List Char) : Option (String × List Char) :=
  let body := cs.drop 3
  if cs.take 3 = [quote, quote, quote] then
    let body := (lineEnd? body).getD body
    (readLines? quote (body.length + 1) body).map fun (s, rest) => (.ofList s, rest)
  else
    (readLine? quote cs.length (cs.drop 1)).map fun (s, rest) => (.ofList s, rest)

/-! ### Keys -/

def isKeyCharacter (c : Char) : Bool :=
  ('a' ≤ c && c ≤ 'z') || ('A' ≤ c && c ≤ 'Z') || Text.isDigit c || c == '_' || c == '-'

def readKeyPart? (cs : List Char) : Option (String × List Char) :=
  match cs with
  | '"' :: rest => (readLine? '"' cs.length rest).map fun (s, rest) => (.ofList s, rest)
  | '\'' :: rest => (readLine? '\'' cs.length rest).map fun (s, rest) => (.ofList s, rest)
  | _ =>
    let word := cs.takeWhile isKeyCharacter
    if word.isEmpty then none else some (.ofList word, cs.dropWhile isKeyCharacter)

/-- How many parts a key may have, and how deep arrays and inline tables may be nested. -/
def depthLimit : Nat := 79

/-- A key of at most `count` parts, which have dots between them. -/
def readParts? (count : Nat) (cs : List Char) : Option (List String × List Char) :=
  match count with
  | 0 => none
  | count + 1 => do
    let (part, rest) ← readKeyPart? (skipBlanks cs)
    match skipBlanks rest with
    | '.' :: rest =>
      let (more, rest) ← readParts? count rest
      return (part :: more, rest)
    | rest => return ([part], rest)

def readKey? (cs : List Char) : Option (List String × List Char) := readParts? depthLimit cs

/-! ### Scalars -/

/-- Whether the underscores among digits all stand between two digits. -/
def separatesDigits (isDigit : Char → Bool) : List Char → Bool
  | [] => false
  | [c] => isDigit c
  | c :: '_' :: rest => isDigit c && separatesDigits isDigit rest
  | c :: rest => isDigit c && separatesDigits isDigit rest

def digits? (base : Nat) (cs : List Char) : Option Nat :=
  let isDigit (c : Char) : Bool :=
    match Text.digitValue? c with
    | some d => d < base
    | none => false
  if separatesDigits isDigit cs then some (Text.ofDigits base (cs.filter (· != '_'))) else none

/-- Whether digits start with a zero although they are not the number zero. -/
def hasLeadingZero (cs : List Char) : Bool :=
  match cs with
  | '0' :: _ :: _ => true
  | _ => false

def integer? (word : List Char) : Option Item := do
  let n : Int ← match word with
    | '0' :: 'x' :: rest => digits? 16 rest
    | '0' :: 'o' :: rest => digits? 8 rest
    | '0' :: 'b' :: rest => digits? 2 rest
    | '-' :: rest => if hasLeadingZero rest then none else (digits? 10 rest).map fun n => -(n : Int)
    | '+' :: rest => if hasLeadingZero rest then none else digits? 10 rest
    | rest => if hasLeadingZero rest then none else digits? 10 rest
  if -(Nat.pow 2 63 : Int) ≤ n ∧ n < (Nat.pow 2 63 : Int) then some (.integer n) else none

def exponent? (cs : List Char) : Option Int :=
  match cs with
  | '-' :: rest => (digits? 10 rest).map fun n => -(n : Int)
  | '+' :: rest => digits? 10 rest
  | rest => digits? 10 rest

/-- The magnitude that a word with a point or an exponent denotes. -/
def magnitude? (word : List Char) : Option Magnitude := do
  let isMark (c : Char) : Bool := c == '.' || c == 'e' || c == 'E'
  let whole := word.takeWhile fun c => !isMark c
  let n ← if hasLeadingZero whole then none else digits? 10 whole
  match word.dropWhile fun c => !isMark c with
  | '.' :: rest =>
    let places := rest.takeWhile fun c => !isMark c
    let p ← digits? 10 places
    let count := (places.filter (· != '_')).length
    let exponent ← match rest.dropWhile fun c => !isMark c with
      | [] => some 0
      | '.' :: _ => none
      | _ :: rest => exponent? rest
    return (Decimal.mk (n * Nat.pow 10 count + p) (exponent - count)).magnitude
  | _ :: rest => return (Decimal.mk n (← exponent? rest)).magnitude
  | [] => none

def real? (word : List Char) : Option Item :=
  let unsigned (negative : Bool) (cs : List Char) : Option Item :=
    if cs = "inf".toList then some (.real (.signed negative .infinite))
    else if cs = "nan".toList then some (.real .nan)
    else match magnitude? cs with
      | some m => if m.isFinite || negative then some (.real (.signed negative m)) else none
      | none => none
  match word with
  | '-' :: rest => unsigned true rest
  | '+' :: rest => unsigned false rest
  | rest => unsigned false rest

/-- A fraction of a second without the zeros at its end. -/
def fraction (digits : List Char) : List Char :=
  match ((digits.take 9).reverse.dropWhile (· == '0')).reverse with
  | [] => []
  | kept => '.' :: kept

def readTime? (cs : List Char) : Option (List Char × List Char) := do
  let (_, _, rest) ← Timestamp.readClock? cs
  let clock := cs.take 8
  match rest with
  | '.' :: places =>
    let digits := places.takeWhile Text.isDigit
    if digits.isEmpty then none
    else return (clock ++ fraction digits, places.dropWhile Text.isDigit)
  | _ => return (clock, rest)

def readDay? (cs : List Char) : Option (List Char × List Char) := do
  let (year, rest) ← Timestamp.readDigits? 4 cs
  let rest ← Timestamp.readChar? '-' rest
  let (month, rest) ← Timestamp.readDigits? 2 rest
  let rest ← Timestamp.readChar? '-' rest
  let (day, rest) ← Timestamp.readDigits? 2 rest
  discard (Date.ofNumbers? year month day)
  return (cs.take 10, rest)

def offset? (cs : List Char) : Option (List Char) :=
  match cs with
  | [] => some []
  | ['Z'] | ['z'] => some ['Z']
  | sign :: rest =>
    if sign = '+' ∨ sign = '-' then do
      let (hour, more) ← Timestamp.readDigits? 2 rest
      let more ← Timestamp.readChar? ':' more
      let (minute, more) ← Timestamp.readDigits? 2 more
      let sign := if hour = 0 ∧ minute = 0 then '+' else sign
      if hour ≤ 23 ∧ minute ≤ 59 ∧ more.isEmpty then some (sign :: rest) else none
    else none

/-- The day, the time of day, or both with or without an offset, that a word denotes. -/
def moment? (word : List Char) : Option Item :=
  match readDay? word with
  | some (day, []) => some (.moment (.ofList day))
  | some (day, mark :: rest) =>
    if mark = 'T' ∨ mark = 't' ∨ mark = ' ' then do
      let (time, rest) ← readTime? rest
      return .moment (.ofList (day ++ 'T' :: (time ++ (← offset? rest))))
    else none
  | none =>
    match readTime? word with
    | some (time, []) => some (.moment (.ofList time))
    | _ => none

def isWordCharacter (c : Char) : Bool :=
  ('a' ≤ c && c ≤ 'z') || ('A' ≤ c && c ≤ 'Z') || Text.isDigit c || "+-_.:".toList.contains c

/-- The word in front.  A day and a time of day with a blank between them are one word. -/
def takeWord (cs : List Char) : List Char × List Char :=
  let word := cs.takeWhile isWordCharacter
  match (readDay? word).isSome && word.length == 10, cs.drop word.length with
  | true, ' ' :: rest =>
    match readTime? rest with
    | some _ =>
      let time := rest.takeWhile isWordCharacter
      (word ++ ' ' :: time, rest.drop time.length)
    | none => (word, ' ' :: rest)
  | _, rest => (word, rest)

/-- The scalar without quotes in front. -/
def readScalar? (cs : List Char) : Option (Item × List Char) :=
  let (word, rest) := takeWord cs
  let found :=
    if word = "true".toList then some (.boolean true)
    else if word = "false".toList then some (.boolean false)
    else moment? word <|> integer? word <|> real? word
  found.map (·, rest)

/-! ### Values -/

/-- The items of an array up to its closing bracket; a comma may follow the last one. -/
def readItems? (item : List Char → Option (Item × List Char)) (count : Nat) (cs : List Char) :
    Option (List Item × List Char) :=
  match count, skipLines cs.length cs with
  | _, ']' :: rest => some ([], rest)
  | count + 1, cs => do
    let (first, rest) ← item cs
    match skipLines rest.length rest with
    | ']' :: rest => return ([first], rest)
    | ',' :: rest =>
      let (more, rest) ← readItems? item count rest
      return (first :: more, rest)
    | _ => none
  | 0, _ => none

def readPair? (item : List Char → Option (Item × List Char)) (cs : List Char) :
    Option (List String × Item × List Char) := do
  let (path, rest) ← readKey? cs
  match rest with
  | '=' :: rest =>
    let (value, rest) ← item (skipBlanks rest)
    return (path, value, rest)
  | _ => none

/-- The pairs of an inline table up to its closing brace, added to entries. -/
def readPairs? (item : List Char → Option (Item × List Char)) (count : Nat)
    (entries : List (String × Item)) (cs : List Char) :
    Option (List (String × Item) × List Char) := do
  let (path, value, rest) ← readPair? item cs
  let entries ← Document.setKey? path value entries
  match count, skipBlanks rest with
  | _, '\x7d' :: rest => return (entries, rest)
  | count + 1, ',' :: rest => readPairs? item count entries rest
  | _, _ => none

/-- The value in front. -/
def readValue? (depth : Nat) (cs : List Char) : Option (Item × List Char) :=
  match depth, cs with
  | _, '"' :: _ => (readQuoted? '"' cs).map fun (s, rest) => (.string s, rest)
  | _, '\'' :: _ => (readQuoted? '\'' cs).map fun (s, rest) => (.string s, rest)
  | depth + 1, '[' :: rest =>
    (readItems? (readValue? depth) rest.length rest).map fun (items, rest) => (.array items, rest)
  | depth + 1, '\x7b' :: rest =>
    match skipBlanks rest with
    | '\x7d' :: rest => some (.table .inline [], rest)
    | rest => (readPairs? (readValue? depth) rest.length [] rest).map fun (entries, rest) =>
        (.table .inline entries, rest)
  | _, _ => readScalar? cs

/-! ### Documents -/

/-- A document after one line, and the text of the next line. -/
def readLineOf? (d : Document) (cs : List Char) : Option (Document × List Char) :=
  match skipBlanks cs with
  | '[' :: '[' :: rest => do
    let (path, rest) ← readKey? rest
    match rest with
    | ']' :: ']' :: rest => return (← d.enter? Document.extended path, ← nextLine? rest)
    | _ => none
  | '[' :: rest => do
    let (path, rest) ← readKey? rest
    match rest with
    | ']' :: rest => return (← d.enter? Document.headed path, ← nextLine? rest)
    | _ => none
  | cs =>
    match nextLine? cs with
    | some rest => some (d, rest)
    | none => do
      let (path, value, rest) ← readPair? (readValue? depthLimit) cs
      return (← d.set? path value, ← nextLine? rest)

/-- A document after all its lines, of which there are at most `count`. -/
def readAll? (count : Nat) (d : Document) (cs : List Char) : Option Document :=
  match count, cs with
  | _, [] => some d
  | count + 1, cs => do
    let (d, rest) ← readLineOf? d cs
    readAll? count d rest
  | 0, _ => none

/-- The entries of a document; a mark of the byte order at its start is passed over. -/
def read? (text : String) : Option (List (String × Item)) :=
  let cs := match text.toList with
    | '\uFEFF' :: rest => rest
    | cs => cs
  (readAll? cs.length .empty cs).map (·.entries)

end AccessControl.Toml
