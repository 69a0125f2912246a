import AccessControl.Condition.Grammar
import AccessControl.FileSystem
import AccessControl.Kdl.Reader
import AccessControl.Policy

/-! # Reading policies

`Policy.read` reads the text of a policy file.  A `resource` node declares a type of resources, and
a `permission` node gives a role one or more actions, each of which becomes a definition of its own
under the same condition.  Other nodes at the top are passed over.

`Policy.load` reads the policy files of a directory, those whose names end in `.kdl`, in ascending
order of their names, and merges what they declare.  The first file that cannot be read or is refused
decides the answer. -/

namespace AccessControl

open Kdl (Node)

namespace Policy

/-- A refusal of what a policy file says. -/
def refuse {α : Type} (reason : String) : Except Failure α := .error (.invalidPolicy reason)

/-- What is there, or else a refusal. -/
def orRefuse {α : Type} (found : Option α) (reason : String) : Except Failure α :=
  match found with
  | some a => .ok a
  | none => refuse reason

/-- The strings of the nodes inside a node that are named by a dash. -/
def dashes (n : Node) : List String :=
  (n.children.filter (·.name == "-")).filterMap (·.argument?)

/-! ### Resources -/

/-- How the records of a relation are found. -/
def readLink (type name : String) (n : Node) : Except Failure Link :=
  match n.property? "key", n.property? "foreign" with
  | some field, none => .ok (.key field)
  | none, some field => .ok (.foreign field)
  | _, _ => refuse ("relation " ++ backquoted (type ++ "." ++ name) ++ " needs exactly one of " ++
      backquoted "key" ++ " or " ++ backquoted "foreign")

/-- The relation of a type that a node declares. -/
def readRelation (type : String) (n : Node) : Except Failure DeclaredRelation := do
  let name ← orRefuse n.argument? ("relation in resource " ++ backquoted type ++
    " requires a name (e.g. relation \"relatedCase\" target=\"case\" key=\"caseId\")")
  let target ← orRefuse (n.property? "target") ("relation " ++ backquoted (type ++ "." ++ name) ++
    " missing " ++ backquoted "target" ++ " property")
  return ⟨name, target, ← readLink type name n⟩

/-- A declaration with what a node inside it adds; a later list of actions replaces an earlier
one. -/
def readResourceChild (d : Declaration) (n : Node) : Except Failure Declaration :=
  if n.name = "actions" then .ok ⟨d.type, dashes n, d.relations⟩
  else if n.name = "relation" then do
    return ⟨d.type, d.actions, d.relations ++ [← readRelation d.type n]⟩
  else refuse ("unexpected child " ++ backquoted n.name ++ " in resource " ++ backquoted d.type ++
    " (expected " ++ backquoted "actions" ++ " or " ++ backquoted "relation" ++ ")")

/-- The type of resources that a node declares. -/
def readResource (n : Node) : Except Failure Declaration := do
  let type ← orRefuse n.argument?
    "resource node requires a string argument (e.g. resource \"note\")"
  n.children.foldlM readResourceChild ⟨type, [], []⟩

/-! ### Permissions -/

/-- The actions and the condition of a permission. -/
structure Grant where
  actions : List String
  condition : Option Condition

/-- The place of a permission in messages. -/
def placeOf (role type : String) : String :=
  "permission " ++ backquoted role ++ " on " ++ backquoted type

/-- What a permission grants with what a node inside it adds. -/
def readPermissionChild (role type : String) (g : Grant) (n : Node) : Except Failure Grant :=
  if n.name = "actions" then .ok ⟨g.actions ++ dashes n, g.condition⟩
  else if n.name = "condition" then do
    if g.condition.isSome then refuse (placeOf role type ++ " has more than one condition")
    let text ← orRefuse n.argument?
      ("condition in " ++ placeOf role type ++ " requires a string argument")
    return ⟨g.actions, some (← Condition.read text)⟩
  else refuse ("unexpected child " ++ backquoted n.name ++ " in " ++ placeOf role type)

/-- The definitions that a node makes. -/
def readPermission (n : Node) : Except Failure (List Definition) := do
  let role ← orRefuse n.argument? ("permission node requires a role argument " ++
    "(e.g. permission \"user\" on=\"note\" action=\"view\")")
  let type ← orRefuse (n.property? "on") ("permission for " ++ backquoted role ++ " missing " ++
    backquoted "on" ++ " property (e.g. on=\"note\")")
  let start : Grant := ⟨(n.property? "action").toList, none⟩
  let grant ← n.children.foldlM (readPermissionChild role type) start
  if grant.actions.isEmpty then refuse (placeOf role type ++ " names no action")
  return grant.actions.map fun action => ⟨role, type, action, grant.condition⟩

/-! ### Documents -/

/-- A policy with what a node at the top adds. -/
def readNode (p : Policy) (n : Node) : Except Failure Policy :=
  if n.name = "resource" then do return ⟨p.resources ++ [← readResource n], p.permissions⟩
  else if n.name = "permission" then do
    return ⟨p.resources, p.permissions ++ (← readPermission n)⟩
  else .ok p

def ofNodes (nodes : List Node) : Except Failure Policy := nodes.foldlM readNode empty

/-- The policy that a text describes. -/
def read (text : String) : Except Failure Policy :=
  match Kdl.read? text with
  | some nodes => ofNodes nodes
  | none => .error (.invalidDocument "Failed to parse KDL document")

/-! ### Directories -/

section directories
variable {m : Type → Type} [Monad m]

def isPolicyFile (name : String) : Bool := FileSystem.extension? name == some "kdl"

/-- The names of the policy files among names, in ascending order. -/
def policyFiles (names : List String) : List String := sortedNames (names.filter isPolicyFile)

/-- The policy of what was found at a path. -/
def ofEntry (path : String) : Option Entry → Except Failure Policy
  | some (.file (.text text)) => read text
  | _ => .error (.unreadablePolicy path)

/-- The policies of files, up to the first that is refused. -/
def readFiles (fs : FileSystem m) : List String → m (Except Failure (List Policy))
  | [] => return .ok []
  | path :: rest => do
    match ofEntry path (← fs.look path) with
    | .error e => return .error e
    | .ok first => return (← readFiles fs rest).map (first :: ·)

/-- The policy that the files of a directory declare. -/
def load (fs : FileSystem m) (path : String) : m (Except Failure Policy) := do
  match ← fs.look path with
  | some (.directory names) =>
    return (← readFiles fs ((policyFiles names).map (FileSystem.join path))) >>= merge
  | _ => return refuse ("policies directory " ++ backquoted path ++
      " does not exist or is not a directory")

end directories

end Policy
end AccessControl
