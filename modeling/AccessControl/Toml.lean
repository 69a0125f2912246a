import AccessControl.Number.Text

/-! # TOML documents

A document is a table of items.  Tables come about in four ways, and a document may not go back to
one in every way: a header may complete a table that so far was only passed through by longer
headers, and dotted keys may add to a table that came about by dotted keys, but a table with a
header of its own is complete, and so is one that is written inline.  Dotted keys may also pass
through a table that headers passed through, but not end in it.

`Item.updateAt?` changes what is at the end of a path of keys, making tables on the way. -/

namespace AccessControl.Toml

/-- How a table came about. -/
inductive Origin where
  | header
  | passedThrough
  | dottedKey
  | inline
deriving DecidableEq

/-- What a key can stand for. -/
inductive Item where
  | string (s : String)
  | integer (n : Int)
  | real (x : Number)
  | boolean (b : Bool)
  | moment (text : String)
  | array (items : List Item)
  | table (origin : Origin) (entries : List (String × Item))
  | tables (elements : List Item)

namespace Item

/-- Whether a path may pass through a table; the keys of the path come from a header or from a key
with dots. -/
def isOpen (dotted : Bool) (origin : Origin) : Bool :=
  match origin with
  | .inline => false
  | .header => !dotted
  | .passedThrough | .dottedKey => true

/-- Whether a path may end in a table. -/
def isOpenAtEnd (dotted : Bool) (origin : Origin) : Bool :=
  if dotted then origin == .dottedKey else isOpen false origin

def updateLast? (change : Item → Option Item) : List Item → Option (List Item)
  | [] => none
  | [last] => (change last).map ([·])
  | first :: rest => (updateLast? change rest).map (first :: ·)

/-- The entry of a key changed, where a new one is given nothing. -/
def updateMember? (key : String) (change : Option Item → Option Item) :
    List (String × Item) → Option (List (String × Item))
  | [] => (change none).map fun item => [(key, item)]
  | entry :: rest =>
    if entry.1 = key then (change (some entry.2)).map fun item => (key, item) :: rest
    else (updateMember? key change rest).map (entry :: ·)

def updateEntries? (change : List (String × Item) → Option (List (String × Item))) :
    Item → Option Item
  | table origin entries => (change entries).map (table origin)
  | _ => none

/-- The entries of a table changed, if it is open, or of the last of several tables. -/
def updateTable? (isOpen : Origin → Bool) (passesElements : Bool)
    (change : List (String × Item) → Option (List (String × Item))) (item : Item) : Option Item :=
  match item with
  | table origin _ => if isOpen origin then updateEntries? change item else none
  | tables elements =>
    -- a header speaks of the element added last
    if passesElements then (updateLast? (updateEntries? change) elements).map tables else none
  | _ => none

/-- The entries at the end of a path of keys changed. -/
def updateAt? (dotted : Bool) (path : List String)
    (change : List (String × Item) → Option (List (String × Item)))
    (entries : List (String × Item)) : Option (List (String × Item)) :=
  let origin := if dotted then Origin.dottedKey else .passedThrough
  match path with
  | [] => change entries
  | [key] =>
    updateMember? key (fun found =>
      updateTable? (isOpenAtEnd dotted) (!dotted) change (found.getD (.table origin []))) entries
  | key :: rest =>
    updateMember? key (fun found =>
      updateTable? (isOpen dotted) true (updateAt? dotted rest change)
        (found.getD (.table origin []))) entries

end Item

/-! ### Writing a document line by line -/

/-- The entries of a document so far, and the path of the table that its lines belong to. -/
structure Document where
  entries : List (String × Item)
  current : List String

namespace Document

def empty : Document := ⟨[], []⟩

/-- An entry that is not there yet. -/
def fresh (item : Item) : Option Item → Option Item
  | none => some item
  | some _ => none

/-- A key, which may have dots, set in a table. -/
def setKey? (path : List String) (item : Item) (entries : List (String × Item)) :
    Option (List (String × Item)) :=
  match path.getLast? with
  | none => none
  | some key => Item.updateAt? true path.dropLast (Item.updateMember? key (fresh item)) entries

def set? (d : Document) (path : List String) (item : Item) : Option Document :=
  (Item.updateAt? false d.current (setKey? path item) d.entries).map fun entries =>
    ⟨entries, d.current⟩

/-- What the header of a table makes of what is there. -/
def headed : Option Item → Option Item
  | none => some (.table .header [])
  | some (.table .passedThrough entries) => some (.table .header entries)
  | some _ => none

/-- What the header of a further element makes of what is there. -/
def extended : Option Item → Option Item
  | none => some (.tables [.table .header []])
  | some (.tables elements) => some (.tables (elements ++ [.table .header []]))
  | some _ => none

/-- A document after a header, given what it makes of the item at its path. -/
def enter? (change : Option Item → Option Item) (d : Document) (path : List String) :
    Option Document :=
  match path.getLast? with
  | none => none
  | some key =>
    let entries? := Item.updateAt? false path.dropLast (Item.updateMember? key change) d.entries
    entries?.map fun entries => ⟨entries, path⟩

end Document
end AccessControl.Toml
