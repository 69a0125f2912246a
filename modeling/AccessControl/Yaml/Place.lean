/-! # Places in a YAML document

Indentation carries the structure of a YAML document, so that every character is read together with
its column.  A `Place` is a character with its column, and what is left of a document is a list of
places.  This module says where words, comments, lines and markers of documents end and start. -/

namespace AccessControl.Yaml

/-- A character with its column. -/
structure Place where
  char : Char
  column : Nat

/-- The characters of a text with every kind of line end made a single one. -/
def unifyLineEnds : List Char → List Char
  | '\r' :: '\n' :: rest => '\n' :: unifyLineEnds rest
  | '\r' :: rest => '\n' :: unifyLineEnds rest
  | c :: rest => c :: unifyLineEnds rest
  | [] => []

/-- The places of characters, the first of which is in a given column. -/
def placesFrom (column : Nat) : List Char → List Place
  | [] => []
  | c :: rest => ⟨c, column⟩ :: placesFrom (if c = '\n' then 0 else column + 1) rest

def places (text : String) : List Place := placesFrom 0 (unifyLineEnds text.toList)

def Place.isSpace (p : Place) : Bool := p.char == ' ' || p.char == '\t'

def isAtLineEnd : List Place → Bool
  | [] => true
  | p :: _ => p.char == '\n'

/-- Whether a blank, a line end or the end of the document is in front. -/
def isAtBlank : List Place → Bool
  | [] => true
  | p :: _ => p.isSpace || p.char == '\n'

/-- Whether a character with a blank after it is in front. -/
def isMarkedBy (c : Char) : List Place → Bool
  | [] => false
  | p :: rest => p.char == c && isAtBlank rest

/-- Whether three equal characters that start or end a document are in front. -/
def isMarker (c : Char) : List Place → Bool
  | p :: q :: r :: rest =>
    p.column == 0 && p.char == c && q.char == c && r.char == c && isAtBlank rest
  | _ => false

def isAtMarker (ps : List Place) : Bool := isMarker '-' ps || isMarker '.' ps

def skipSpaces (ps : List Place) : List Place := ps.dropWhile Place.isSpace

/-- The places after blanks and a comment within a line; a comment is at the start of a line or
after a blank. -/
def skipInLine (ps : List Place) : List Place :=
  match skipSpaces ps with
  | ⟨'#', column⟩ :: rest =>
    if column = 0 ∨ rest.length + 1 < ps.length then rest.dropWhile (·.char != '\n')
    else ⟨'#', column⟩ :: rest
  | rest => rest

/-- The first word on a line or on one of the following lines.  No tab may be in front of a word on
a line of its own. -/
def firstWord? (count : Nat) (ps : List Place) : Option (List Place) :=
  let rest := skipInLine ps
  match count, rest with
  | count + 1, ⟨'\n', _⟩ :: next => firstWord? count next
  | _, _ =>
    let indented := ps.head?.any (·.column == 0)
    if indented && (ps.takeWhile Place.isSpace).any (·.char == '\t') && !rest.isEmpty then none
    else some rest

/-- The next word, on the same line or on a following one. -/
def nextWord? (ps : List Place) : Option (List Place) :=
  match skipInLine ps with
  | ⟨'\n', _⟩ :: next => firstWord? ps.length next
  | rest => some rest

/-- The number of empty lines in front, and the places from the first word after them on. -/
def skipEmptyLines (count : Nat) (ps : List Place) : Nat × List Place :=
  match count, skipSpaces ps with
  | count + 1, ⟨'\n', _⟩ :: next =>
    let (lines, rest) := skipEmptyLines count next
    (lines + 1, rest)
  | _, rest => (0, rest)

/-- What a line end in a text of several lines becomes, given how many empty lines follow. -/
def folded (emptyLines : Nat) : List Char :=
  if emptyLines = 0 then [' '] else List.replicate emptyLines '\n'

end AccessControl.Yaml
