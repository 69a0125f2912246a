import AccessControl.Action
import AccessControl.Value

/-! # Principals and resources

Who asks, and what decisions are about.  A `Principal` has an id, roles, and further attributes that
conditions may refer to; the id is an attribute too, and no attribute of that name takes its place.

A `Resource` is seen through its fields alone, a `Relation` leads from resources of one type to
resources of another, and a `Provider` is what a type brings along: its actions, its relations, and a
way to reach related resources, which may fail. -/

namespace AccessControl

/-! ### Principals -/

/-- The one on whose behalf a request is decided. -/
structure Principal where
  id : String
  roles : List String
  attributes : List (String × Value)

/-- A name put into a list of names in ascending order, unless it is there. -/
def insertName (name : String) : List String → List String
  | [] => [name]
  | first :: rest =>
    if name < first then name :: first :: rest
    else if name = first then first :: rest
    else first :: insertName name rest

/-- The different names in a list, in ascending order. -/
def sortedNames (names : List String) : List String := names.foldr insertName []

namespace Principal

/-- The roles held, each once, in ascending order. -/
def sortedRoles (p : Principal) : List String := sortedNames p.roles

def attribute? (p : Principal) (name : String) : Option Value :=
  if name = "id" then some (.string p.id) else p.attributes.lookup name

end Principal

/-! ### Resources -/

/-- A resource, as far as conditions can see it. -/
structure Resource where
  field : String → Option Value

/-- The resource that has the given fields and no others. -/
def Resource.ofFields (fields : List (String × Value)) : Resource :=
  ⟨fun name => fields.lookup name⟩

/-- A named way from resources of one type to resources of the target type. -/
structure Relation where
  name : String
  target : String
deriving DecidableEq

/-- What a relation reaches from a resource. -/
inductive Related where
  | missing
  | one (r : Resource)
  | many (rs : List Resource)

namespace Related

def toList : Related → List Resource
  | missing => []
  | one r => [r]
  | many rs => rs

/-- Short text that tells the three shapes apart. -/
def describe : Related → String
  | missing => "Related::Missing"
  | one _ => "Related::One(..)"
  | many rs => "Related::Many(len=" ++ .ofList (Text.decimal rs.length) ++ ")"

end Related

/-- What a type of resource declares, and how its relations are followed. -/
structure Provider where
  type : String
  actions : List Action
  relations : List Relation
  related : Resource → String → Except Failure Related

/-- A way to follow relations that knows none. -/
def noRelations (type : String) : Resource → String → Except Failure Related :=
  fun _ name => .error (.unknownRelation type name)

/-- Related resources that the caller holds already, by relation. -/
abbrev Context := List (String × Related)

end AccessControl
