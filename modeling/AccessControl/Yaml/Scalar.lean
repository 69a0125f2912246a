import AccessControl.Json
import AccessControl.Number.Text
import AccessControl.Text
import AccessControl.Yaml.Place

/-! # Scalars of YAML documents

A scalar is written plain, between quotes, or as a block of lines.  Over several lines, a single
line end is read as a blank, and of several the first is dropped.  `plainValue?` says what a plain scalar
denotes; every other scalar is a text. -/

namespace AccessControl.Yaml

/-! ### What a plain scalar denotes -/

def digits? (base : Nat) (cs : List Char) : Option Int :=
  let isDigit (c : Char) : Bool :=
    match Text.digitValue? c with
    | some d => d < base
    | none => false
  if !cs.isEmpty && cs.all isDigit then some (Text.ofDigits base cs) else none

def integer? (cs : List Char) : Option Int := do
  let n ← match cs with
    | '0' :: 'x' :: rest => digits? 16 rest
    | '0' :: 'o' :: rest => digits? 8 rest
    | '+' :: rest => digits? 10 rest
    | '-' :: rest => (digits? 10 rest).map (- ·)
    | rest => digits? 10 rest
  if -(Nat.pow 2 63 : Int) ≤ n ∧ n < (Nat.pow 2 63 : Int) then some n else none

/-- The words for numbers that have no digits. -/
def wordsForNumbers : List String :=
  [".inf", ".Inf", ".INF", "+.inf", "+.Inf", "+.INF", "-.inf", "-.Inf", "-.INF", ".nan", ".NaN",
   ".NAN"]

/-- What a plain scalar denotes.  Numbers that have no digits are refused. -/
def plainValue? (text : String) : Option Json :=
  let cs := text.toList
  if text = "" ∨ text = "~" ∨ text = "null" then some .null
  else if text = "true" then some (.boolean true)
  else if text = "false" then some (.boolean false)
  else if wordsForNumbers.contains text then none
  else match integer? cs with
    | some n => some (.integer n)
    | none =>
      match cs.any Text.isDigit, Number.read? cs with
      | true, some x => some (.real x)
      | _, _ => some (.string text)

/-- What a plain scalar denotes if it has the given tag; null stands for what its tag excludes. -/
def taggedValue? (tag text : String) : Option Json :=
  let value := (plainValue? text).getD .null
  match tag, value with
  | "!int", .integer n => some (.integer n)
  | "!float", .integer n => some (.real (.ofInt n))
  | "!float", .real x => some (.real x)
  | "!float", _ => if wordsForNumbers.contains text then none else some .null
  | "!bool", .boolean b => some (.boolean b)
  | "!int", _ | "!bool", _ | "!null", _ => some .null
  | _, _ => some (.string text)

/-- What a plain scalar denotes, with or without a tag. -/
def valueOf? (tag? : Option String) (text : String) : Option Json :=
  match tag? with
  | none => plainValue? text
  | some tag => taggedValue? tag text

/-! ### Plain scalars -/

/-- Whether a character has a meaning of its own between brackets and braces. -/
def isFlowMark (c : Char) : Bool := ",[]\x7b\x7d".toList.contains c

/-- Whether a colon in front separates a name from its value. -/
def isAtColon (inFlow : Bool) : List Place → Bool
  | [] => false
  | p :: rest => p.char == ':' && (isAtBlank rest || (inFlow && rest.head?.any (isFlowMark ·.char)))

/-- Whether a plain scalar can start in front. -/
def startsPlain (inFlow : Bool) : List Place → Bool
  | [] => false
  | p :: rest =>
    if "-?:".toList.contains p.char then
      !isAtBlank rest && !(inFlow && rest.head?.any (isFlowMark ·.char))
    else !",[]\x7b\x7d#&*!|>'\"%@\x60".toList.contains p.char && !isAtBlank [p]

/-- The characters of a plain scalar on one line, and the places after them. -/
def takePlain (inFlow : Bool) : List Place → List Char × List Place
  | [] => ([], [])
  | p :: rest =>
    -- a number sign starts a comment only after a blank
    let word := skipSpaces (p :: rest)
    let endsWord := isAtLineEnd word || (p.isSpace && word.head?.any (·.char == '#'))
    let endsHere := isAtColon inFlow (p :: rest) || (inFlow && isFlowMark p.char)
    if endsWord || endsHere then ([], p :: rest)
    else
      let (more, rest) := takePlain inFlow rest
      (p.char :: more, rest)

/-- A plain scalar of one or several lines, the further ones indented to at least a given column. -/
def readPlain (inFlow : Bool) (least count : Nat) (ps : List Place) : List Char × List Place :=
  let (line, rest) := takePlain inFlow ps
  let line := Text.trim line
  match count, skipSpaces rest with
  | count + 1, ⟨'\n', _⟩ :: next =>
    let (emptyLines, word) := skipEmptyLines next.length next
    let goesOn := word.head?.any fun p => least ≤ p.column && p.char != '#'
    if goesOn && !isAtMarker word then
      match readPlain inFlow least count word with
      | ([], _) => (line, rest)
      | (more, rest) => (line ++ folded emptyLines ++ more, rest)
    else (line, rest)
  | _, _ => (line, rest)

/-! ### Quoted scalars -/

/-- The character with a code of `length` hexadecimal digits in front. -/
def readCode? (length : Nat) (ps : List Place) : Option (Char × List Place) :=
  let digits := (ps.take length).map (·.char)
  let n := Text.ofDigits 16 digits
  if h : digits.length = length ∧ digits.all (fun c => (Text.digitValue? c).isSome) = true ∧
      n.isValidChar then
    some (Char.ofNatAux n h.2.2, ps.drop length)
  else none

def escapes : List (Char × Char) :=
  [('0', '\x00'), ('a', '\x07'), ('b', '\x08'), ('t', '\t'), ('\t', '\t'), ('n', '\n'),
   ('v', '\x0b'), ('f', '\x0c'), ('r', '\r'), ('e', '\x1b'), (' ', ' '), ('"', '"'), ('/', '/'),
   ('\\', '\\'), ('N', '\x85'), ('_', '\xa0'), ('L', '\u2028'), ('P', '\u2029')]

def readEscape? (ps : List Place) : Option (Char × List Place) :=
  match ps with
  | [] => none
  | p :: rest =>
    if p.char = 'x' then readCode? 2 rest
    else if p.char = 'u' then readCode? 4 rest
    else if p.char = 'U' then readCode? 8 rest
    else (escapes.lookup p.char).map (·, rest)

/-- A quoted scalar up to its closing quote; further lines are indented to at least a given
column. -/
def readQuoted? (quote : Char) (least count : Nat) (ps : List Place) :
    Option (List Char × List Place) :=
  match count with
  | 0 => none
  | count + 1 =>
    let more (text : List Char) (rest : List Place) : Option (List Char × List Place) :=
      (readQuoted? quote least count rest).map fun (next, rest) => (text ++ next, rest)
    let line (text : Nat → List Char) (next : List Place) : Option (List Char × List Place) :=
      let (emptyLines, word) := skipEmptyLines next.length next
      if word.head?.any (least ≤ ·.column) && !isAtMarker word then more (text emptyLines) word
      else none
    match skipSpaces ps, ps with
    | ⟨'\n', _⟩ :: next, _ => line folded next
    | _, [] => none
    | _, p :: rest =>
      if p.char = quote then
        if quote = '\'' ∧ rest.head?.any (·.char == quote) then more [quote] (rest.drop 1)
        else some ([], rest)
      else if p.char = '\\' ∧ quote = '"' then
        match rest with
        | ⟨'\n', _⟩ :: next => line (List.replicate · '\n') next
        | rest =>
          match readEscape? rest with
          | some (c, rest) => more [c] rest
          | none => none
      else more [p.char] rest

/-! ### Blocks of lines -/

/-- What becomes of the line ends at the end of a block: none stays, one, or all. -/
inductive Chomping where
  | strip
  | clip
  | keep

/-- What the marks after the first character of a block say: its indentation and what becomes of its
last line ends. -/
def readBlockMarks (ps : List Place) : Option Nat × Chomping × List Place :=
  let chomping? (p : Place) : Option Chomping :=
    if p.char = '-' then some .strip else if p.char = '+' then some .keep else none
  let indentation? (p : Place) : Option Nat :=
    if '1' ≤ p.char ∧ p.char ≤ '9' then Text.digitValue? p.char else none
  let second (ps : List Place) (read : Place → Bool) : List Place :=
    if ps.head?.any read then ps.drop 1 else ps
  match ps with
  | [] => (none, .clip, [])
  | p :: rest =>
    match chomping? p, indentation? p with
    | some chomping, _ =>
      (rest.head?.bind indentation?, chomping, second rest fun p => (indentation? p).isSome)
    | none, some n =>
      (some n, (rest.head?.bind chomping?).getD .clip, second rest fun p => (chomping? p).isSome)
    | none, none => (none, .clip, p :: rest)

/-- The lines of a block without their indentation, and the places after them. -/
def takeBlockLines (indentation count : Nat) (ps : List Place) : List (List Char) × List Place :=
  let word := ps.dropWhile (·.char == ' ')
  let line := (ps.drop indentation).takeWhile (·.char != '\n')
  match count with
  | 0 => ([], ps)
  | count + 1 =>
    if ps.isEmpty ∨ isAtMarker ps then ([], ps)
    else if isAtLineEnd word ∨ word.head?.any (indentation ≤ ·.column) then
      let kept := if isAtLineEnd word ∧ ps.length < word.length + indentation then [] else line
      let (more, rest) := takeBlockLines indentation count ((ps.dropWhile (·.char != '\n')).drop 1)
      (kept.map (·.char) :: more, rest)
    else ([], ps)

def isIndented (line : List Char) : Bool := line.head?.any fun c => c == ' ' || c == '\t'

/-- The lines of a folded block joined, given the last line that was not empty and how many empty
ones followed it. -/
def joinFolded (last : Option (List Char)) (emptyLines : Nat) : List (List Char) → List Char
  | [] => []
  | [] :: rest => joinFolded last (emptyLines + 1) rest
  | line :: rest =>
    let gap := match last with
      | none => List.replicate emptyLines '\n'
      | some last =>
        if isIndented last || isIndented line then List.replicate (emptyLines + 1) '\n'
        else folded emptyLines
    gap ++ line ++ joinFolded (some line) 0 rest

def joinLiteral : List (List Char) → List Char
  | [] => []
  | [line] => line
  | line :: rest => line ++ '\n' :: joinLiteral rest

def blockText (isFolded : Bool) (chomping : Chomping) (lines : List (List Char)) : List Char :=
  let body := (lines.reverse.dropWhile List.isEmpty).reverse
  let text := if isFolded then joinFolded none 0 body else joinLiteral body
  match chomping with
  | .strip => text
  | .clip => if body.isEmpty then [] else text ++ ['\n']
  | .keep =>
    let lineEnds := lines.length - body.length
    text ++ List.replicate (if body.isEmpty then lineEnds else lineEnds + 1) '\n'

/-- A block of lines after its first character, indented to at least a given column. -/
def readBlock? (isFolded : Bool) (least : Nat) (ps : List Place) :
    Option (List Char × List Place) :=
  let (indentation?, chomping, rest) := readBlockMarks ps
  match skipInLine rest with
  | [] => some ([], [])
  | ⟨'\n', _⟩ :: next =>
    let found := match skipEmptyLines next.length next with
      | (_, p :: _) => p.column
      | (_, []) => least
    let indentation := match indentation? with
      | some n => least - 1 + n
      | none => max least found
    let (lines, rest) := takeBlockLines indentation next.length next
    some (blockText isFolded chomping lines, rest)
  | _ => none

end AccessControl.Yaml
