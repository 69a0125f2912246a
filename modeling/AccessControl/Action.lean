import AccessControl.Failure

/-! # Actions

The operations that a type of resource supports.  An `ActionTable` collects them in batches: a batch
is taken as a whole or not at all, and no key occurs twice for a type. -/

namespace AccessControl

/-- An operation on resources of a type. -/
structure Action where
  type : String
  key : String
deriving DecidableEq

def Action.write (a : Action) : String := a.type ++ ":" ++ a.key

/-- The actions of a batch for a type added to those known, if all belong to the type and every key
is new. -/
def admitActions (type : String) (known : List Action) : List Action → Except Failure (List Action)
  | [] => .ok known
  | a :: rest =>
    if a.type ≠ type then
      .error (.invalidProvider type
        ("action " ++ backquoted a.write ++ " belongs to another resource type"))
    else if known.any (·.key == a.key) then .error (.duplicateAction type a.key)
    else admitActions type (known ++ [a]) rest

/-- The first action with a key among the actions of a type. -/
def findAction (type key : String) (actions : List Action) : Except Failure Action :=
  match actions.find? (·.key == key) with
  | some a => .ok a
  | none => .error (.unknownAction type key)

/-- A value put under a key, in the place of an earlier one. -/
def putEntry {α : Type} (key : String) (value : α) : List (String × α) → List (String × α)
  | [] => [(key, value)]
  | entry :: rest =>
    if entry.1 = key then (key, value) :: rest else entry :: putEntry key value rest

/-- The actions of each type in order of registration. -/
structure ActionTable where
  entries : List (String × List Action)

namespace ActionTable

def empty : ActionTable := ⟨[]⟩

/-- A batch of actions registered for a type. -/
def register (t : ActionTable) (type : String) (batch : List Action) :
    Except Failure ActionTable := do
  let actions ← admitActions type ((t.entries.lookup type).getD []) batch
  return ⟨putEntry type actions t.entries⟩

/-- The actions registered for a type. -/
def actionsFor (t : ActionTable) (type : String) : Except Failure (List Action) :=
  match t.entries.lookup type with
  | some actions => .ok actions
  | none => .error (.unknownType type)

/-- The action of a type with a key. -/
def resolve (t : ActionTable) (type key : String) : Except Failure Action := do
  findAction type key (← t.actionsFor type)

end ActionTable
end AccessControl
