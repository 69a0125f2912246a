import AccessControl.Number

/-! # KDL documents

A document is a list of nodes.  A node has a name, entries, which are arguments or named properties,
and possibly children.  Comments, spaces and type annotations are not part of it. -/

namespace AccessControl.Kdl

/-- The value of an entry. -/
inductive Scalar where
  | null
  | boolean (b : Bool)
  | number (x : Number)
  | string (s : String)

/-- The text of a string. -/
def Scalar.text? : Scalar → Option String
  | string s => some s
  | _ => none

/-- An argument, which has no name, or a property. -/
structure Entry where
  name : Option String
  value : Scalar

/-- A node.  That it has an empty block of children is not told apart from that it has none. -/
inductive Node where
  | mk (name : String) (entries : List Entry) (children : List Node)

namespace Node

def name : Node → String
  | mk name _ _ => name

def entries : Node → List Entry
  | mk _ entries _ => entries

def children : Node → List Node
  | mk _ _ children => children

/-- The first argument of a node, if it is a string. -/
def argument? (n : Node) : Option String :=
  (n.entries.find? (·.name.isNone)).bind (·.value.text?)

/-- A property of a node, if it is a string; of several with one name the last one counts. -/
def property? (n : Node) (key : String) : Option String :=
  (n.entries.reverse.find? (·.name == some key)).bind (·.value.text?)

end Node
end AccessControl.Kdl
