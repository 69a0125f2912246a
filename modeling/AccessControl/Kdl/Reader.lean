import AccessControl.Kdl
import AccessControl.Kdl.Strings
import AccessControl.Number.Decimal

/-! # Reading KDL documents

`Kdl.read?` reads a document of version 2 of the language.  A slash and a minus sign take away the
node, the entry or the block of children after them.  A line end, a semicolon or a comment stands
between two nodes, and nodes that are taken away can follow each other without one.

A reader that may call itself counts down from the length of the text, which bounds both how deep
blocks are nested and how many things follow each other. -/

namespace AccessControl.Kdl

/-! ### Numbers -/

/-- The number that a run of digits denotes, where underscores can follow the first one.  A run has
to fit into a signed integer of 128 bits. -/
def readRun? (base : Nat) (cs : List Char) : Option (Nat × Nat × List Char) :=
  let isDigit (c : Char) : Bool :=
    match Text.digitValue? c with
    | some d => d < base
    | none => false
  let taken := cs.takeWhile fun c => isDigit c || c == '_'
  let digits := taken.filter (· != '_')
  let n := Text.ofDigits base digits
  if taken.head?.any isDigit && n < Nat.pow 2 127 then
    some (n, digits.length, cs.drop taken.length)
  else none

/-- The run of digits after an optional sign. -/
def readSignedRun? (cs : List Char) : Option (Int × List Char) :=
  match cs with
  | '-' :: rest => (readRun? 10 rest).map fun (n, _, rest) => (-(n : Int), rest)
  | '+' :: rest => (readRun? 10 rest).map fun (n, _, rest) => ((n : Int), rest)
  | rest => (readRun? 10 rest).map fun (n, _, rest) => ((n : Int), rest)

/-- The exponent in front; without one it is zero. -/
def readExponent? (cs : List Char) : Option (Int × List Char) :=
  match cs with
  | 'e' :: rest | 'E' :: rest => readSignedRun? rest
  | rest => some (0, rest)

/-- A number without its sign in base ten. -/
def readDecimal? (cs : List Char) : Option (Magnitude × List Char) := do
  let (whole, _, rest) ← readRun? 10 cs
  let (places, count, rest) ← match rest with
    | '.' :: rest => readRun? 10 rest
    | rest => some (0, 0, rest)
  let (exponent, rest) ← readExponent? rest
  return ((Decimal.mk (whole * Nat.pow 10 count + places) (exponent - count)).magnitude, rest)

def readUnsigned? (cs : List Char) : Option (Magnitude × List Char) :=
  match cs with
  | '0' :: 'x' :: rest | '0' :: 'X' :: rest => inBase 16 rest
  | '0' :: 'o' :: rest | '0' :: 'O' :: rest => inBase 8 rest
  | '0' :: 'b' :: rest | '0' :: 'B' :: rest => inBase 2 rest
  | _ => readDecimal? cs
where
  /-- An integer in a base other than ten. -/
  inBase (base : Nat) (cs : List Char) : Option (Magnitude × List Char) :=
    (readRun? base cs).map fun (n, _, rest) => (.nearest n 1, rest)

def readNumber? (cs : List Char) : Option (Number × List Char) :=
  let signed (negative : Bool) (cs : List Char) : Option (Number × List Char) :=
    (readUnsigned? cs).map fun (m, rest) => (.signed negative m, rest)
  match cs with
  | '-' :: rest => signed true rest
  | '+' :: rest => signed false rest
  | rest => signed false rest

/-! ### Values -/

/-- The values that are written as a word after a number sign. -/
def keywords : List (String × Scalar) :=
  [("#true", .boolean true), ("#false", .boolean false), ("#null", .null),
   ("#inf", .number (.signed false .infinite)), ("#-inf", .number (.signed true .infinite)),
   ("#nan", .number .nan)]

/-- A value that is written as a word after a number sign. -/
def readKeyword? (cs : List Char) : Option (Scalar × List Char) :=
  (keywords.find? fun (word, _) => word.toList.isPrefixOf cs).map fun (word, value) =>
    (value, cs.drop word.length)

/-- The text after a type annotation and the space that follows it; a text without one is left as
it is. -/
def skipAnnotation? (cs : List Char) : Option (List Char) :=
  match cs with
  | '(' :: rest => do
    let (_, rest) ← readString? (skipNodeSpace rest)
    match skipNodeSpace rest with
    | ')' :: rest => some (skipNodeSpace rest)
    | _ => none
  | _ => some cs

/-- The text after the mark that takes away what follows it, with the space between them. -/
def skipMark? : List Char → Option (List Char)
  | '/' :: '-' :: rest => some (skipLineSpace rest)
  | _ => none

/-- What was read, unless it runs into a mark that takes away what follows. -/
def ended? {α : Type} (found : α × List Char) : Option (α × List Char) :=
  if (skipMark? found.2).isSome then none else some found

def readScalar? (cs : List Char) : Option (Scalar × List Char) := do
  let cs ← skipAnnotation? cs
  let found ← ((readString? cs).map fun (s, rest) => (.string s, rest)) <|>
    ((readNumber? cs).map fun (x, rest) => (.number x, rest)) <|> readKeyword? cs
  ended? found

/-! ### Entries -/

/-- A property, or else an argument. -/
def readPlain? (cs : List Char) : Option (Entry × List Char) :=
  let argument := (readScalar? cs).map fun (value, rest) => (⟨none, value⟩, rest)
  match readString? cs with
  | none => argument
  | some (name, rest) =>
    match skipNodeSpace rest with
    | '=' :: rest =>
      (readScalar? (skipNodeSpace rest)).map fun (value, rest) => (⟨some name, value⟩, rest)
    | _ => argument

mutual

/-- An entry, in front of which others can be taken away. -/
def readArgument? (count : Nat) (cs : List Char) : Option (Entry × List Char) :=
  match count with
  | 0 => none
  | count + 1 =>
    if (skipMark? cs).isNone then readPlain? cs
    else do readPlain? (← spaced? (← skipArguments? count cs))

/-- The text after entries that are taken away, with space between them. -/
def skipArguments? (count : Nat) (cs : List Char) : Option (List Char) :=
  match count with
  | 0 => none
  | count + 1 => do
    let (_, rest) ← readArgument? count (← skipMark? cs)
    return ((spaced? rest).bind (skipArguments? count)).getD rest

end

/-- The entries of a node, each after some space, and the text that follows them. -/
def readArguments (count : Nat) (cs : List Char) : List Entry × List Char :=
  match count, (spaced? cs).bind (readArgument? cs.length) with
  | count + 1, some (entry, rest) =>
    let (more, rest) := readArguments count rest
    (entry :: more, rest)
  | _, _ => ([], cs)

/-! ### Nodes -/

section

variable (block : List Char → Option (List Node × List Char))

/-- The text after blocks that are taken away, with space between them. -/
def skipBlocks? (count : Nat) (cs : List Char) : Option (List Char) := do
  match count, ← skipMark? cs with
  | count + 1, '\x7b' :: rest =>
    let (_, rest) ← block rest
    return ((spaced? rest).bind (skipBlocks? count)).getD rest
  | _, _ => none

/-- The text after what may stand between the entries of a node and its block: entries, and then
blocks, that are taken away. -/
def skipToBlock (cs : List Char) : List Char :=
  let cs := ((spaced? cs).bind (skipArguments? cs.length)).getD cs
  let cs := ((spaced? cs).bind (skipBlocks? block cs.length)).getD cs
  skipNodeSpace cs

def readNode? (cs : List Char) : Option (Node × List Char) := do
  let (name, rest) ← readString? (← skipAnnotation? cs) >>= ended?
  let (entries, rest) := readArguments rest.length rest
  match skipToBlock block rest with
  | '\x7b' :: rest =>
    let (children, rest) ← block rest
    let after := (skipBlocks? block rest.length (skipNodeSpace rest)).getD rest
    return (.mk name entries children, skipNodeSpace after)
  | rest => return (.mk name entries [], rest)

/-- The text after space, line ends, comments and nodes that are taken away. -/
def skipNodes (count : Nat) (cs : List Char) : List Char :=
  let rest := skipLineSpace cs
  match count, (skipMark? rest).bind (readNode? block) with
  | count + 1, some (_, rest) => skipNodes count rest
  | _, _ => rest

/-- The text after what ends a node that another one follows. -/
def endNode? (cs : List Char) : Option (List Char) :=
  match cs with
  | ';' :: rest => some rest
  | _ => lineEnd? cs <|> lineComment? cs

/-- The nodes in front, and the text that follows them. -/
def readNodes (count : Nat) (cs : List Char) : List Node × List Char :=
  let next := skipNodes block cs.length cs
  match count, readNode? block next with
  | count + 1, some (node, rest) =>
    match endNode? rest with
    | some rest =>
      let (more, rest) := readNodes count rest
      (node :: more, rest)
    | none => ([node], skipNodes block rest.length rest)
  | _, _ => ([], next)

end

/-- A block of children after its opening brace, with blocks nested at most `depth` deep. -/
def readBlock? (depth : Nat) (cs : List Char) : Option (List Node × List Char) :=
  match depth with
  | 0 => none
  | depth + 1 =>
    match readNodes (readBlock? depth) cs.length cs with
    | (nodes, '\x7d' :: rest) => some (nodes, rest)
    | _ => none

def withoutMark (cs : List Char) : List Char :=
  match cs with
  | '\uFEFF' :: rest => rest
  | _ => cs

/-- The nodes of a document. -/
def read? (text : String) : Option (List Node) :=
  let cs := withoutMark text.toList
  match readNodes (readBlock? cs.length) cs.length cs with
  | (nodes, []) => some nodes
  | _ => none

end AccessControl.Kdl
