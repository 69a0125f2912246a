import AccessControl.Text

/-! # INI documents

An INI document is a sequence of properties, keys with their values, in sections.  The properties in
front of the first header belong to no section.  `Ini.read?` keeps sections and properties as they
come, those with equal names too. -/

namespace AccessControl.Ini

/-- Properties under a header, or in front of all headers. -/
structure Part where
  header? : Option String
  properties : List (String × String)

/-! ### Words -/

/-- The character that an escape denotes, after its backslash; an escaped line end is none. -/
def readEscape? (cs : List Char) : Option (List Char × List Char) :=
  match cs with
  | '0' :: rest => some (['\x00'], rest)
  | 'a' :: rest => some (['\x07'], rest)
  | 'b' :: rest => some (['\x08'], rest)
  | 't' :: rest => some (['\t'], rest)
  | 'r' :: rest => some (['\r'], rest)
  | 'n' :: rest => some (['\n'], rest)
  | '\n' :: rest => some ([], rest)
  | 'x' :: a :: b :: c :: d :: rest =>
    let n := Text.ofDigits 16 [a, b, c, d]
    if h : ([a, b, c, d].all fun c => (Text.digitValue? c).isSome) = true ∧ n.isValidChar then
      some ([Char.ofNatAux n h.2], rest)
    else none
  | 'x' :: _ => none
  | c :: rest => some ([c], rest)
  | [] => none

/-- The text up to a character that ends it, with its escapes read, and the rest from that character
on.  Of the end of the document, `endsHere` says whether it ends the text too. -/
def readUntil? (isEnd : Char → Bool) (endsHere : Bool) (count : Nat) (cs : List Char) :
    Option (List Char × List Char) :=
  match count, cs with
  | _, [] => if endsHere then some ([], []) else none
  | 0, _ => none
  | count + 1, c :: rest =>
    if isEnd c then some ([], c :: rest)
    else do
      let (text, rest) ← if c = '\\' then readEscape? rest else some ([c], rest)
      let (more, rest) ← readUntil? isEnd endsHere count rest
      return (text ++ more, rest)

/-- The text up to the end of a line, without the blanks around it. -/
def readLine? (cs : List Char) : Option (List Char × List Char) :=
  (readUntil? (fun c => c == '\n' || c == '\r') true cs.length cs).map fun (text, rest) =>
    (Text.trim text, rest)

/-- A value, the start of which may be in quotes. -/
def readValue? (cs : List Char) : Option (String × List Char) := do
  let cs := cs.dropWhile fun c => Text.isBlank c && c != '\n' && c != '\r'
  let (quoted, rest) ← match cs with
    | [] => some ([], [])
    | c :: rest =>
      if c = '"' ∨ c = '\'' then
        (readUntil? (· == c) false rest.length rest).map fun (text, rest) => (text, rest.drop 1)
      else some ([], cs)
  let (text, rest) ← readLine? rest
  return (.ofList (quoted ++ text), rest)

/-- A key, which goes up to an equals sign or a colon. -/
def readKey? (cs : List Char) : Option (String × List Char) :=
  (readUntil? (fun c => c == '=' || c == ':') false cs.length cs).map fun (text, rest) =>
    (.ofList (Text.trim text), rest.drop 1)

def readHeader? (cs : List Char) : Option (String × List Char) :=
  (readUntil? (· == ']') false cs.length cs).map fun (text, rest) =>
    (.ofList (Text.trim text), rest.drop 1)

/-! ### Documents -/

/-- A text after the blanks in front, and whether it is at the start of a line, as the text itself
is or is not. -/
def skipBlanks (atStart : Bool) : List Char → Bool × List Char
  | [] => (atStart, [])
  | c :: rest => if Text.isBlank c then skipBlanks (c == '\n') rest else (atStart, c :: rest)

/-- The parts of a document, given those before, last one first, and their properties too.  A
comment takes a whole line. -/
def readParts? (count : Nat) (atStart : Bool) (before : List Part) (cs : List Char) :
    Option (List Part) :=
  match count, skipBlanks atStart cs with
  | _, (_, []) => some before
  | 0, _ => none
  | count + 1, (_, '[' :: rest) => do
    let (name, rest) ← readHeader? rest
    readParts? count false (⟨some name, []⟩ :: before) rest
  | count + 1, (atStart, c :: rest) => do
    if c = ';' ∨ c = '#' then
      if atStart then readParts? count true before ((rest.dropWhile (· != '\n')).drop 1) else none
    else do
      let (key, rest) ← readKey? (c :: rest)
      if key.isEmpty then none
      let (value, rest) ← readValue? rest
      match before with
      | part :: before =>
        readParts? count false (⟨part.header?, (key, value) :: part.properties⟩ :: before) rest
      | [] => none

def read? (text : String) : Option (List Part) :=
  (readParts? (text.length + 1) true [⟨none, []⟩] text.toList).map fun parts =>
    (parts.map fun part => ⟨part.header?, part.properties.reverse⟩).reverse

end AccessControl.Ini
