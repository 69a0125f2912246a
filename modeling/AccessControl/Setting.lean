import AccessControl.Text

/-! # Trees of settings

A `Setting` is what a name stands for once sources have been put over each other: a text, a list, a
group of further names, or nothing.  Names are the same in small and capital letters.

`Setting.set` replaces what is not a group, and puts the members of a group over those that are
there.  `Setting.setAt?` does the same at the end of a path, making groups and lists on the way; it
fails only at a place before the start of a list. -/

namespace AccessControl

/-- What a name stands for. -/
inductive Setting where
  | nothing
  | text (s : String)
  | list (items : List Setting)
  | group (members : List (String × Setting))

namespace Setting

def members : Setting → List (String × Setting)
  | group members => members
  | nothing | text _ | list _ => []

def items : Setting → List Setting
  | list items => items
  | nothing | text _ | group _ => []

def text? : Setting → Option String
  | text s => some s
  | nothing | list _ | group _ => none

/-! ### Names -/

def lower (name : String) : String := .ofList (name.toList.map Char.toLower)

/-- The member of a name replaced. -/
def put (name : String) (value : Setting) : List (String × Setting) → List (String × Setting)
  | [] => [(name, value)]
  | first :: rest =>
    if first.1 = name then (name, value) :: rest else first :: put name value rest

mutual

/-- A value put under a name; a group is put over what is there, member by member. -/
def set (root : Setting) (name : String) (value : Setting) : Setting :=
  let key := lower name
  match value with
  | group incoming =>
    let there := (root.members.lookup key).getD (group [])
    group (put key (setAll there incoming) root.members)
  | value => group (put key value root.members)

def setAll (root : Setting) : List (String × Setting) → Setting
  | [] => root
  | (name, value) :: rest => setAll (set root name value) rest

end

/-! ### Paths -/

/-- A step of a path: to a name in a group, or to a place in a list, which is counted from the end
if it is negative. -/
inductive Step where
  | name (name : String)
  | place (index : Int)

/-- How long a list may become. -/
def lengthLimit : Nat := Nat.pow 2 24

/-- The place that an index means in a list of some length; none is before the start. -/
def place? (index : Int) (length : Nat) : Option Nat :=
  if 0 ≤ index then if index.toNat < lengthLimit then some index.toNat else none
  else if index.natAbs ≤ length then some (length - index.natAbs)
  else none

/-- The item at a place replaced, where a list that is too short is filled up. -/
def putItem (place : Nat) (filler value : Setting) (items : List Setting) : List Setting :=
  (items ++ List.replicate (place + 1 - items.length) filler).set place value

/-- A value put at the end of a path.  What is on the way becomes a group or a list, and a list that
is too short is filled up. -/
def setAt? (value : Setting) (path : List Step) (root : Setting) : Option Setting :=
  match path with
  | [] => some root
  | [.name name] => some (set root name value)
  | [.place index] => do
    let place ← place? index root.items.length
    return list (putItem place (list []) value root.items)
  | .name name :: rest => do
    let key := lower name
    let there := (root.members.lookup key).getD nothing
    return group (put key (← setAt? value rest there) root.members)
  | .place index :: rest => do
    -- unlike at the end of a path, what fills the list up is no list itself
    let place ← place? index root.items.length
    let there := root.items[place]?.getD nothing
    return list (putItem place nothing (← setAt? value rest there) root.items)

/-! ### Reading paths -/

def isNameCharacter (c : Char) : Bool := c.isAlphanum || c == ' ' || c == '_' || c == '-'

/-- The integer in front and the text after it, both among blanks. -/
def readIndex? (cs : List Char) : Option (Int × List Char) :=
  let isBlank (c : Char) : Bool := c == ' ' || c == '\t'
  let limit := Nat.pow 2 63
  let unsigned (cs : List Char) : Option (Nat × List Char) :=
    let digits := cs.takeWhile Text.isDigit
    if digits.isEmpty then none
    else some (Text.ofDigits 10 digits, (cs.dropWhile Text.isDigit).dropWhile isBlank)
  match cs.dropWhile isBlank with
  | '-' :: rest => do
    let (n, rest) ← unsigned rest
    if n ≤ limit then some (-n, rest) else none
  | rest => do
    let (n, rest) ← unsigned rest
    if n < limit then some (n, rest) else none

/-- The name in front, as a step followed by the steps after it.  No path has more steps than
`count`. -/
def readSteps? (count : Nat) (cs : List Char) : Option (List Step) :=
  match count, cs with
  | _, [] => some []
  | 0, _ => none
  | count + 1, '.' :: rest =>
    let name := rest.takeWhile isNameCharacter
    if name.isEmpty then none
    else (readSteps? count (rest.dropWhile isNameCharacter)).map (.name (.ofList name) :: ·)
  | count + 1, '[' :: rest => do
    let (index, rest) ← readIndex? rest
    match rest with
    | ']' :: rest => return .place index :: (← readSteps? count rest)
    | _ => none
  | _, _ => none

/-- The path that a name with dots and brackets is; a name that is no path stands for itself. -/
def pathOf (name : String) : List Step :=
  (readSteps? (name.length + 1) ('.' :: name.toList)).getD [.name name]

/-- Values put over a setting, each at the end of the path that its name is. -/
def overlay? (root : Setting) (source : List (String × Setting)) : Option Setting :=
  source.foldlM (fun root (name, value) => setAt? value (pathOf name) root) root

end Setting
end AccessControl
