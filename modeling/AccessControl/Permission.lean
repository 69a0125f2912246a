import AccessControl.Plan

/-! # Permissions

A `Definition` says which role may do what, and under which condition.  `Permissions.load` checks a
list of them against the registry and makes each a `Permission` with a plan; one bad definition
refuses the whole list.  `Permissions.candidates` are the permissions that a principal's roles hold
for an action, roles in ascending order and each role's permissions in the order loaded. -/

namespace AccessControl

/-- A permission as written: without a condition it holds always. -/
structure Definition where
  role : String
  type : String
  action : String
  condition : Option Condition

/-- A permission with its condition checked. -/
structure Permission where
  id : String
  role : String
  action : Action
  condition : Option Condition
  plan : Option Plan

namespace Permission

def isUnconditional (p : Permission) : Bool := p.plan.isNone

def write (p : Permission) : String :=
  match p.condition with
  | some c => p.id ++ " when " ++ c.write
  | none => p.id ++ " (unconditional)"

/-- Whether a permission is a role's for an action of a type. -/
def isFor (p : Permission) (role type action : String) : Bool :=
  p.role == role && p.action.type == type && p.action.key == action

end Permission

/-- The permissions in the order loaded. -/
abbrev Permissions := List Permission

namespace Permissions

/-- The id of a permission that follows `earlier` ones of the same role and action. -/
def idOf (role : String) (action : Action) (earlier : Nat) : String :=
  role ++ ":" ++ action.write ++ "#" ++ .ofList (Text.decimal earlier)

/-- The action that a definition names. -/
def actionOf (r : Registry) (d : Definition) : Except Failure Action := do
  let actions ← r.actionsFor d.type
  match actions.find? (·.key == d.action) with
  | some a => return a
  | none => throw (.invalidPermission ("role " ++ backquoted d.role ++ " names action " ++
      backquoted d.action ++ " which " ++ backquoted d.type ++ " does not support"))

/-- The plan of a definition's condition, if it has one. -/
def planOf (r : Registry) (d : Definition) : Except Failure (Option Plan) :=
  match d.condition with
  | none => .ok none
  | some c => (Plan.compile r d.type c).map some

/-- The permission of a definition, given those loaded before it. -/
def accept (r : Registry) (loaded : Permissions) (d : Definition) : Except Failure Permission := do
  if (Text.trim d.role.toList).isEmpty then
    throw (.invalidPermission
      ("permission on " ++ d.type ++ ":" ++ d.action ++ " has an empty role"))
  let action ← actionOf r d
  let plan ← planOf r d
  let earlier := loaded.countP fun p => p.isFor d.role d.type action.key
  return ⟨idOf d.role action earlier, d.role, action, d.condition, plan⟩

/-- The permissions of a list of definitions. -/
def load (r : Registry) (definitions : List Definition) : Except Failure Permissions :=
  definitions.foldlM (fun loaded d => return loaded ++ [← accept r loaded d]) []

/-- The permissions that the roles of a principal hold for an action. -/
def candidates (ps : Permissions) (p : Principal) (type action : String) : List Permission :=
  p.sortedRoles.flatMap fun role => ps.filter (·.isFor role type action)

end Permissions
end AccessControl
