import AccessControl.Yaml.Scalar

/-! # Reading YAML documents

`Yaml.read?` reads the documents of a text.  A node is a scalar, a sequence or a mapping; sequences
and mappings are written between brackets and braces or as blocks, whose entries stand in one column
each.  Anchors give names to nodes, for aliases to repeat them.

Nodes denote the values of JSON.  The name of a member is a text or an integer, and no mapping has a
name twice. -/

namespace AccessControl.Yaml

/-- What is left of a document, and the nodes that have got a name so far. -/
structure Cursor where
  rest : List Place
  anchors : List (String × Json)

namespace Cursor

def moved (cursor : Cursor) (rest : List Place) : Cursor := ⟨rest, cursor.anchors⟩

def nextWord? (cursor : Cursor) : Option Cursor := (Yaml.nextWord? cursor.rest).map cursor.moved

end Cursor

/-- What tells how the node in front is to be read: the column that it is indented to at least,
whether a sequence may stand in the column before, whether a block may start on the line, and the
tag in front. -/
structure Context where
  least : Nat
  mayShare : Bool
  mayStart : Bool
  tag? : Option String

/-! ### Names and members -/

/-- The text that a value is as the name of a member. -/
def nameOf? : Json → Option String
  | .string s => some s
  | .integer n => some (.ofList (Text.signedDecimal n))
  | _ => none

def addMember? (name : String) (value : Json) (members : List (String × Json)) :
    Option (List (String × Json)) :=
  if (members.lookup name).isSome then none else some ((name, value) :: members)

/-- The name in front together with its colon, all on one line. -/
def readName? (ps : List Place) : Option (String × List Place) := do
  let (name, rest) ← match ps with
    | [] => none
    | p :: rest =>
      if p.char = '"' ∨ p.char = '\'' then
        (readQuoted? p.char 0 ps.length rest).map fun (s, rest) => (String.ofList s, rest)
      else if startsPlain false ps then
        let (s, rest) := takePlain false ps
        (plainValue? (.ofList (Text.trim s)) >>= nameOf?).map (·, rest)
      else none
  let rest := skipSpaces rest
  let onOneLine := (ps.take (ps.length - rest.length)).all (·.char != '\n')
  if onOneLine && isAtColon false rest then some (name, rest.drop 1) else none

/-- The word of an anchor, an alias or a tag, after its mark. -/
def takeWord (ps : List Place) : String × List Place :=
  let isPart (p : Place) : Bool := !isAtBlank [p] && !isFlowMark p.char
  (.ofList ((ps.takeWhile isPart).map (·.char)), ps.dropWhile isPart)

def readAlias? (cursor : Cursor) (ps : List Place) : Option (Json × Cursor) :=
  let (name, rest) := takeWord ps
  (cursor.anchors.lookup name).map (·, cursor.moved rest)

/-- A node that gets a name. -/
def nameNode (name : String) (found : Json × Cursor) : Json × Cursor :=
  (found.1, ⟨found.2.rest, (name, found.1) :: found.2.anchors⟩)

/-! ### Nodes between brackets and braces -/

/-- The next word between brackets or braces, where tabs count as blanks. -/
def skipFlow (count : Nat) (ps : List Place) : List Place :=
  match count, skipInLine ps with
  | count + 1, ⟨'\n', _⟩ :: next => skipFlow count next
  | _, rest => rest

def Cursor.nextInFlow (cursor : Cursor) : Cursor :=
  cursor.moved (skipFlow cursor.rest.length cursor.rest)

/-- A node between brackets or braces, or null if a mark that ends it is in front. -/
def readFlowValue? (node : Cursor → Option (Json × Cursor)) (cursor : Cursor) :
    Option (Json × Cursor) :=
  let cursor := cursor.nextInFlow
  if cursor.rest.head?.any fun p => p.char == ',' || p.char == ']' || p.char == '\x7d' then
    some (.null, cursor)
  else node cursor

/-- A node with a colon and a value after it, or alone. -/
def readFlowPair? (node : Cursor → Option (Json × Cursor)) (cursor : Cursor) :
    Option (Json × Option Json × Cursor) := do
  let isQuoted := cursor.rest.head?.any fun p => p.char == '"' || p.char == '\''
  let (first, cursor) ← node cursor
  let cursor := cursor.nextInFlow
  match cursor.rest with
  | ⟨':', _⟩ :: rest =>
    if isQuoted || isAtColon true cursor.rest then
      let (value, cursor) ← readFlowValue? node (cursor.moved rest)
      return (first, some value, cursor.nextInFlow)
    else none
  | _ => return (first, none, cursor)

/-- The items of a sequence up to its closing bracket; an item with a value is a mapping of its
own. -/
def readFlowItems? (node : Cursor → Option (Json × Cursor)) (count : Nat) (cursor : Cursor) :
    Option (List Json × Cursor) :=
  let cursor := cursor.nextInFlow
  match count, cursor.rest with
  | _, ⟨']', _⟩ :: rest => some ([], cursor.moved rest)
  | count + 1, _ :: _ => do
    let (first, value?, cursor) ← readFlowPair? node cursor
    let item ← match value? with
      | none => some first
      | some value => (nameOf? first).map fun name => .object [(name, value)]
    match cursor.rest with
    | ⟨']', _⟩ :: rest => return ([item], cursor.moved rest)
    | ⟨',', _⟩ :: rest =>
      let (more, cursor) ← readFlowItems? node count (cursor.moved rest)
      return (item :: more, cursor)
    | _ => none
  | _, _ => none

/-- The members of a mapping up to its closing brace, added to others. -/
def readFlowMembers? (node : Cursor → Option (Json × Cursor)) (count : Nat)
    (members : List (String × Json)) (cursor : Cursor) : Option (List (String × Json) × Cursor) :=
  let cursor := cursor.nextInFlow
  match count, cursor.rest with
  | _, ⟨'\x7d', _⟩ :: rest => some (members, cursor.moved rest)
  | count + 1, _ :: _ => do
    let (first, value?, cursor) ← readFlowPair? node cursor
    let members ← addMember? (← nameOf? first) (value?.getD .null) members
    match cursor.rest with
    | ⟨'\x7d', _⟩ :: rest => return (members, cursor.moved rest)
    | ⟨',', _⟩ :: rest => readFlowMembers? node count members (cursor.moved rest)
    | _ => none
  | _, _ => none

/-- The node in front between brackets or braces, nested at most `depth` deep. -/
def readFlow? (depth : Nat) (tag? : Option String) (cursor : Cursor) : Option (Json × Cursor) :=
  match depth, cursor.rest with
  | 0, _ | _, [] => none
  | depth + 1, p :: rest =>
    let quoted (s : List Char) (rest : List Place) : Json × Cursor :=
      (.string (.ofList s), cursor.moved rest)
    if p.char = '[' then
      (readFlowItems? (readFlow? depth none) rest.length (cursor.moved rest)).map
        fun (items, cursor) => (.array items, cursor)
    else if p.char = '\x7b' then
      (readFlowMembers? (readFlow? depth none) rest.length [] (cursor.moved rest)).map
        fun (members, cursor) => (.ofMembers members, cursor)
    else if p.char = '*' then readAlias? cursor rest
    else if p.char = '&' then
      let (name, rest) := takeWord rest
      (readFlowValue? (readFlow? depth tag?) (cursor.moved rest)).map (nameNode name)
    else if p.char = '!' then
      let (tag, rest) := takeWord rest
      readFlowValue? (readFlow? depth (some tag)) (cursor.moved rest)
    else if p.char = '"' ∨ p.char = '\'' then
      (readQuoted? p.char 0 rest.length rest).map fun (s, rest) => quoted s rest
    else if startsPlain true cursor.rest then
      let (s, rest) := readPlain true 0 rest.length cursor.rest
      (valueOf? tag? (.ofList s)).map (·, cursor.moved rest)
    else none

/-! ### Blocks -/

/-- A cursor at the next word, if nothing else is left on the line. -/
def afterLine? (found : Json × Cursor) : Option (Json × Cursor) :=
  if isAtLineEnd (skipInLine found.2.rest) then some found else none

/-- The members of a mapping whose names stand in a column, added to others. -/
def readMembers? (node : Context → Cursor → Option (Json × Cursor)) (column count : Nat)
    (members : List (String × Json)) (cursor : Cursor) : Option (List (String × Json) × Cursor) :=
  match count, readName? cursor.rest with
  | count + 1, some (name, rest) => do
    let (value, cursor) ← node ⟨column + 1, true, false, none⟩ (cursor.moved rest)
    let members ← addMember? name value members
    let cursor ← cursor.nextWord?
    if cursor.rest.head?.any (·.column == column) && !isAtMarker cursor.rest then
      readMembers? node column count members cursor
    else return (members, cursor)
  | _, _ => some (members, cursor)

def readItems? (node : Context → Cursor → Option (Json × Cursor)) (column count : Nat)
    (cursor : Cursor) : Option (List Json × Cursor) :=
  match count with
  | 0 => none
  | count + 1 => do
    let (item, cursor) ← node ⟨column + 1, false, true, none⟩ (cursor.moved (cursor.rest.drop 1))
    let cursor ← cursor.nextWord?
    if cursor.rest.head?.any (·.column == column) && isMarkedBy '-' cursor.rest then
      let (more, cursor) ← readItems? node column count cursor
      return (item :: more, cursor)
    else return ([item], cursor)

/-- The node at the word in front, given how to read the nodes within it. -/
def readWord? (node : Context → Cursor → Option (Json × Cursor)) (context : Context)
    (cursor : Cursor) : Option (Json × Cursor) :=
  match cursor.rest with
  | [] => none
  | p :: rest =>
    let count := cursor.rest.length
    let text (s : List Char) : Json := .string (.ofList s)
    if isMarkedBy '-' cursor.rest then
      if context.mayStart then
        (readItems? node p.column count cursor).map fun (items, cursor) => (.array items, cursor)
      else none
    else if (readName? cursor.rest).isSome then
      if context.mayStart then
        (readMembers? node p.column count [] cursor).map fun (members, cursor) =>
          (.ofMembers members, cursor)
      else none
    else if p.char = '|' ∨ p.char = '>' then
      (readBlock? (p.char == '>') context.least rest).map fun (s, rest) =>
        (text s, cursor.moved rest)
    else if p.char = '"' ∨ p.char = '\'' then do
      let (s, rest) ← readQuoted? p.char context.least count rest
      afterLine? (text s, cursor.moved rest)
    else if startsPlain false cursor.rest then do
      let (s, rest) := readPlain false context.least count cursor.rest
      afterLine? (← valueOf? context.tag? (.ofList s), cursor.moved rest)
    else readFlow? count context.tag? cursor >>= afterLine?

/-- The node in front, nested at most `depth` deep, or null if there is none in its columns. -/
def readNode? (depth : Nat) (context : Context) (cursor : Cursor) : Option (Json × Cursor) :=
  match depth with
  | 0 => none
  | depth + 1 =>
    let line := skipInLine cursor.rest
    let content (context : Context) (cursor : Cursor) : Option (Json × Cursor) :=
      match cursor.rest with
      | ⟨'&', _⟩ :: rest =>
        let (name, rest) := takeWord rest
        (readNode? depth context (cursor.moved rest)).map (nameNode name)
      | ⟨'!', _⟩ :: rest =>
        let (tag, rest) := takeWord rest
        let context := ⟨context.least, context.mayShare, context.mayStart, some tag⟩
        readNode? depth context (cursor.moved rest)
      | _ => readWord? (readNode? depth) context cursor
    let started : Context := ⟨context.least, context.mayShare, true, context.tag?⟩
    if !isAtLineEnd line then content context (cursor.moved line)
    else do
      let cursor ← cursor.nextWord?
      let absent := (valueOf? context.tag? "").map (·, cursor)
      match cursor.rest with
      | [] => absent
      | p :: _ =>
        -- a sequence can have its dashes in the column of the name that it belongs to
        let shares := context.mayShare && p.column + 1 == context.least
        if isAtMarker cursor.rest then absent
        else if context.least ≤ p.column ∨ (shares ∧ isMarkedBy '-' cursor.rest) then
          content started cursor
        else absent

/-! ### Documents -/

/-- The places after the directives in front. -/
def skipDirectives? (count : Nat) (ps : List Place) : Option (List Place) := do
  match count, ← firstWord? ps.length ps with
  | count + 1, ⟨'%', 0⟩ :: rest => skipDirectives? count (rest.dropWhile (·.char != '\n'))
  | _, rest => return rest

def readDocuments? (count : Nat) (ps : List Place) : Option (List Json) := do
  let rest ← skipDirectives? ps.length ps
  match count, rest with
  | _, [] => return []
  | 0, _ => none
  | count + 1, rest =>
    if isMarker '.' rest then readDocuments? count (rest.drop 3)
    else
      let isMarked := isMarker '-' rest
      let start : Cursor := ⟨if isMarked then rest.drop 3 else rest, []⟩
      let (document, cursor) ← readNode? (rest.length + 1) ⟨0, false, !isMarked, none⟩ start
      let next ← cursor.nextWord?
      if next.rest.isEmpty || isAtMarker next.rest then
        return document :: (← readDocuments? count next.rest)
      else none

def read? (text : String) : Option (List Json) :=
  let text := places text
  readDocuments? (text.length + 1) text

end AccessControl.Yaml
