import AccessControl.Permission

/-! # Policies

What policy files declare: types of resources with their actions and relations, and the definitions
of permissions.  `Policy.merge` puts several policies together, in which no type may be declared
twice. -/

namespace AccessControl

/-- How the records at the end of a relation are found: by their id, which a field of the record at
its start holds, or by one of their fields, which holds the id of that record. -/
inductive Link where
  | key (field : String)
  | foreign (field : String)
deriving DecidableEq

structure DeclaredRelation where
  name : String
  target : String
  link : Link
deriving DecidableEq

/-- A type of resources that a policy declares. -/
structure Declaration where
  type : String
  actions : List String
  relations : List DeclaredRelation
deriving DecidableEq

/-- What one or more policy files declare. -/
structure Policy where
  resources : List Declaration
  permissions : List Definition

namespace Policy

def empty : Policy := ⟨[], []⟩

/-- The first name that a list has a second time. -/
def repeatedName? (seen : List String) : List String → Option String
  | [] => none
  | name :: rest => if seen.contains name then some name else repeatedName? (name :: seen) rest

/-- Several policies as one. -/
def merge (policies : List Policy) : Except Failure Policy :=
  let resources := policies.flatMap (·.resources)
  match repeatedName? [] (resources.map (·.type)) with
  | some type =>
    .error (.invalidPolicy ("resource " ++ backquoted type ++ " declared more than once"))
  | none => .ok ⟨resources, policies.flatMap (·.permissions)⟩

end Policy
end AccessControl
