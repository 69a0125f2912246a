/-! # Between the words of a document

Spaces, line ends and comments.  Within a node there can be spaces, comments in `/* */`, which nest,
and line ends after a backslash; between nodes there can be line ends and comments after `//` too.

Each step function takes one such thing off the front of a text, if there is one. -/

namespace AccessControl.Kdl

def isSpace (c : Char) : Bool :=
  let n := c.toNat
  n == 0x9 || n == 0x20 || n == 0xA0 || n == 0x1680 || (0x2000 ≤ n && n ≤ 0x200A) || n == 0x202F ||
    n == 0x205F || n == 0x3000

def isLineEnd (c : Char) : Bool :=
  let n := c.toNat
  (0xA ≤ n && n ≤ 0xD) || n == 0x85 || n == 0x2028 || n == 0x2029

/-- Whether a character may not stand in a document as itself: controls below the space, marks that
change the direction of text, and the mark of the byte order. -/
def isForbidden (c : Char) : Bool :=
  let n := c.toNat
  n ≤ 0x8 || (0xE ≤ n && n ≤ 0x1F) || n == 0x200E || n == 0x200F ||
    (0x202A ≤ n && n ≤ 0x202E) || (0x2066 ≤ n && n ≤ 0x2069) || n == 0xFEFF

/-! ### Steps -/

/-- The text after a line end; a carriage return and a line feed are one. -/
def lineEnd? : List Char → Option (List Char)
  | '\r' :: '\n' :: rest => some rest
  | c :: rest => if isLineEnd c then some rest else none
  | [] => none

/-- The text after a comment that is open at `depth` further levels. -/
def closeComment? (depth : Nat) : List Char → Option (List Char)
  | '*' :: '/' :: rest =>
    match depth with
    | 0 => some rest
    | depth + 1 => closeComment? depth rest
  | '/' :: '*' :: rest => closeComment? (depth + 1) rest
  | _ :: rest => closeComment? depth rest
  | [] => none

/-- The text after one space or bracketed comment. -/
def space? : List Char → Option (List Char)
  | '/' :: '*' :: rest => closeComment? 0 rest
  | c :: rest => if isSpace c then some rest else none
  | [] => none

/-- The text after a comment that goes on to the end of its line. -/
def lineComment? : List Char → Option (List Char)
  | '/' :: '/' :: rest =>
    let left := rest.dropWhile fun c => !isLineEnd c
    some ((lineEnd? left).getD left)
  | _ => none

/-- The text after as many steps as there are, at most `count`. -/
def skipSteps (step? : List Char → Option (List Char)) (count : Nat) (cs : List Char) : List Char :=
  match count, step? cs with
  | count + 1, some rest => skipSteps step? count rest
  | _, _ => cs

/-- The text after a line end that a backslash takes away. -/
def joinedLine? : List Char → Option (List Char)
  | '\\' :: rest =>
    match skipSteps space? rest.length rest with
    | [] => some []
    | rest => lineComment? rest <|> lineEnd? rest
  | _ => none

/-- One step within a node. -/
def nodeSpace? (cs : List Char) : Option (List Char) := space? cs <|> joinedLine? cs

/-- One step between nodes. -/
def lineSpace? (cs : List Char) : Option (List Char) :=
  nodeSpace? cs <|> lineEnd? cs <|> lineComment? cs

/-- The text after what separates words within a node. -/
def skipNodeSpace (cs : List Char) : List Char := skipSteps nodeSpace? cs.length cs

/-- The text after what separates words within a node, if there is any of it. -/
def spaced? (cs : List Char) : Option (List Char) :=
  (nodeSpace? cs).map skipNodeSpace

/-- The text after what separates nodes. -/
def skipLineSpace (cs : List Char) : List Char := skipSteps lineSpace? cs.length cs

end AccessControl.Kdl
