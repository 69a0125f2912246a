import AccessControl.Kdl.Space
import AccessControl.Text

/-! # Strings of a document

A string is a bare word, a text between quotes with escapes, or a raw text between quotes with
number signs around them.  Three quotes open a string of several lines: the space in front of the
closing quotes is taken off every line, which has to start with it unless it is blank.  A raw text
is never a single quote, which could be taken for the end of such a string.

A bare word may not look like a number, nor be one of the words that would mean a value if they had
a number sign in front. -/

namespace AccessControl.Kdl

/-! ### Bare words -/

def isWordCharacter (c : Char) : Bool :=
  !isSpace c && !isLineEnd c && !isForbidden c && !"\\/()\x7b\x7d;[]\"#=".toList.contains c

/-- The words that no bare word may be. -/
def keptWords : List String := ["true", "false", "null", "inf", "nan"]

/-- Whether a bare word starts like a number. -/
def looksNumeric (word : List Char) : Bool :=
  match word with
  | '+' :: rest | '-' :: rest => startsNumeric rest
  | _ => startsNumeric word
where
  /-- Whether a word without its sign starts like a number. -/
  startsNumeric : List Char → Bool
    | '.' :: c :: _ => Text.isDigit c
    | c :: _ => Text.isDigit c
    | [] => false

def readWord? (cs : List Char) : Option (String × List Char) :=
  let word := cs.takeWhile isWordCharacter
  if word.isEmpty ∨ looksNumeric word ∨ keptWords.contains (.ofList word) then none
  else some (.ofList word, cs.dropWhile isWordCharacter)

/-! ### Characters of quoted strings -/

/-- A character of a string of several lines: one that stands for itself, one that was escaped, or
the end of a line. -/
inductive Mark where
  | plain (c : Char)
  | escaped (c : Char)
  | lineEnd

/-- The character that an escape denotes, after its backslash. -/
def readEscape? (cs : List Char) : Option (Char × List Char) :=
  match cs with
  | '"' :: rest => some ('"', rest)
  | '\\' :: rest => some ('\\', rest)
  | 'b' :: rest => some ('\x08', rest)
  | 'f' :: rest => some ('\x0c', rest)
  | 'n' :: rest => some ('\n', rest)
  | 'r' :: rest => some ('\r', rest)
  | 't' :: rest => some ('\t', rest)
  | 's' :: rest => some (' ', rest)
  | 'u' :: '\x7b' :: code =>
    let digits := code.takeWhile fun c => (Text.digitValue? c).isSome
    let n := Text.ofDigits 16 digits
    match code.dropWhile fun c => (Text.digitValue? c).isSome with
    | '\x7d' :: rest =>
      if h : 1 ≤ digits.length ∧ digits.length ≤ 6 ∧ n.isValidChar then
        some (Char.ofNatAux n h.2.2, rest)
      else none
    | _ => none
  | _ => none

/-- The text after the spaces and line ends that a backslash takes away, if there are any. -/
def escapedSpace? (cs : List Char) : Option (List Char) :=
  let left := cs.dropWhile fun c => isSpace c || isLineEnd c
  if left.length < cs.length then some left else none

/-- The marks of a string up to its closing quotes, and the text after these.  There are at most
`count` marks. -/
def readMarks? (closing : List Char) (count : Nat) (cs : List Char) :
    Option (List Mark × List Char) :=
  if closing.isPrefixOf cs then some ([], cs.drop closing.length)
  else match count, cs with
    | count + 1, '\\' :: rest =>
      match escapedSpace? rest with
      | some rest => readMarks? closing count rest
      | none => do
        let (c, rest) ← readEscape? rest
        let (more, rest) ← readMarks? closing count rest
        return (.escaped c :: more, rest)
    | count + 1, c :: rest =>
      match lineEnd? (c :: rest) with
      | some rest => do
        let (more, rest) ← readMarks? closing count rest
        return (.lineEnd :: more, rest)
      | none => do
        if isForbidden c then none
        let (more, rest) ← readMarks? closing count rest
        return (.plain c :: more, rest)
    | _, _ => none

/-- The marks of a raw string up to its closing quotes, and the text after these. -/
def readRawMarks? (closing : List Char) (count : Nat) (cs : List Char) :
    Option (List Mark × List Char) :=
  if closing.isPrefixOf cs then some ([], cs.drop closing.length)
  else match count, cs with
    | count + 1, c :: rest =>
      match lineEnd? (c :: rest) with
      | some rest => do
        let (more, rest) ← readRawMarks? closing count rest
        return (.lineEnd :: more, rest)
      | none => do
        if isForbidden c then none
        let (more, rest) ← readRawMarks? closing count rest
        return (.plain c :: more, rest)
    | _, _ => none

/-! ### Strings of one line and of several -/

/-- The character of a mark, unless it ends a line. -/
def Mark.character? : Mark → Option Char
  | plain c | escaped c => some c
  | lineEnd => none

/-- The space that a mark is, if it stands for itself. -/
def Mark.space? : Mark → Option Char
  | plain c => if isSpace c then some c else none
  | escaped _ | lineEnd => none

def linesOf : List Mark → List (List Mark)
  | [] => [[]]
  | .lineEnd :: rest => [] :: linesOf rest
  | m :: rest =>
    match linesOf rest with
    | [] => [[m]]
    | first :: more => (m :: first) :: more

/-- A line without the space that all lines start with; a blank line is empty. -/
def dedent? (indent : List Char) (line : List Mark) : Option (List Char) :=
  if (line.mapM Mark.space?).isSome then some []
  else if (line.take indent.length).mapM Mark.space? = some indent then
    (line.drop indent.length).mapM Mark.character?
  else none

/-- The text of a string of several lines. -/
def joinLines? (marks : List Mark) : Option String := do
  let lines := linesOf marks
  let indent ← (← lines.getLast?).mapM Mark.space?
  let texts ← lines.dropLast.mapM (dedent? indent)
  return .ofList (List.intercalate ['\n'] texts)

/-- The text of a string of one line. -/
def singleLine? (marks : List Mark) : Option String :=
  (marks.mapM Mark.character?).map .ofList

/-- A string between quotes. -/
def readQuoted? (cs : List Char) : Option (String × List Char) :=
  match cs with
  | '"' :: '"' :: '"' :: rest => do
    let body ← lineEnd? rest
    let (marks, rest) ← readMarks? ['"', '"', '"'] body.length body
    return (← joinLines? marks, rest)
  | '"' :: rest => do
    let (marks, rest) ← readMarks? ['"'] rest.length rest
    return (← singleLine? marks, rest)
  | _ => none

/-- The text after three quotes and the end of their line. -/
def openLines? : List Char → Option (List Char)
  | '"' :: '"' :: '"' :: rest => lineEnd? rest
  | _ => none

/-- The text of a raw string after its number signs. -/
def readRawBody? (signs cs : List Char) : Option (String × List Char) :=
  match openLines? cs, cs with
  | some body, _ => do
    let (marks, rest) ← readRawMarks? ('"' :: '"' :: '"' :: signs) body.length body
    return (← joinLines? marks, rest)
  | none, '"' :: rest => do
    let (marks, rest) ← readRawMarks? ('"' :: signs) rest.length rest
    return (← singleLine? marks, rest)
  | none, _ => none

/-- A raw string, whose quotes have number signs around them. -/
def readRaw? (cs : List Char) : Option (String × List Char) := do
  let signs := cs.takeWhile (· == '#')
  if signs.isEmpty then none
  let (text, rest) ← readRawBody? signs (cs.dropWhile (· == '#'))
  if text = "\"" then none else return (text, rest)

def readString? (cs : List Char) : Option (String × List Char) :=
  readQuoted? cs <|> readRaw? cs <|> readWord? cs

end AccessControl.Kdl
