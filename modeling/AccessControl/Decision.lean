import AccessControl.Filter.Memory
import AccessControl.Permission
import AccessControl.Plan

/-! # Decisions

A `Request` asks whether a principal may do an action on resources of a type.  `Request.check`
answers it for one resource: the candidates are decided in order up to the first that holds, and a
failure before that fails the request.  `Request.filter` answers it for all resources of a store at
once, with a filter that selects those for which `Request.check` grants. -/

namespace AccessControl

/-- Who wants to do what to which type of resource. -/
structure Request where
  principal : Principal
  type : String
  action : String

/-- Whether a request is granted for a resource; a granting permission is named. -/
structure Decision where
  grantedBy : Option Permission

def Decision.granted (d : Decision) : Bool := d.grantedBy.isSome

/-- The answer to a request for all resources of a store: the candidates, and the filter that
selects what they grant, which is missing exactly if there are no candidates. -/
structure Selection (Fragment : Type) where
  candidates : List Permission
  filter? : Option Fragment

namespace Request

/-- The permissions that may grant a request, whose action has to be known. -/
def candidates (q : Request) (r : Registry) (ps : Permissions) :
    Except Failure (List Permission) := do
  discard (r.resolveAction q.type q.action)
  return ps.candidates q.principal q.type q.action

/-- Whether a permission holds for a resource. -/
def permits (r : Registry) (s : Scope) (subject : Resource) (p : Permission) : Inquiry Bool :=
  match p.plan with
  | some plan => plan.evaluate r s subject
  | none => return true

/-- The first of the candidates that holds. -/
def firstGrant (r : Registry) (s : Scope) (subject : Resource) :
    List Permission → Inquiry (Option Permission)
  | [] => return none
  | p :: rest => do
    if ← permits r s subject p then return some p else firstGrant r s subject rest

/-- The decision on a request for one resource, of which the caller may hold related ones. -/
def check (q : Request) (r : Registry) (ps : Permissions) (subject : Resource)
    (context : Context) : Inquiry Decision := do
  let found ← q.candidates r ps
  return ⟨← firstGrant r ⟨q.principal, q.type, context⟩ subject found⟩

variable {Scope Fragment : Type}

/-- The filters of the candidates, up to the first candidate without a condition. -/
def fragments (l : FilterLanguage Scope Fragment) (scope : Scope) (p : Principal) :
    List Permission → Except Failure (List Fragment)
  | [] => .ok []
  | candidate :: rest =>
    match candidate.plan with
    -- later candidates cannot select more, and are not rendered
    | none => .ok [l.always]
    | some plan => do return (← plan.render l scope p) :: (← fragments l scope p rest)

/-- Several filters as one that selects what any of them does. -/
def combine (l : FilterLanguage Scope Fragment) : List Fragment → Fragment
  | [only] => only
  | several => l.any several

/-- The answer to a request for all resources of a store. -/
def filter (q : Request) (r : Registry) (ps : Permissions) (l : FilterLanguage Scope Fragment)
    (scope : Scope) : Except Failure (Selection Fragment) := do
  let found ← q.candidates r ps
  if found.isEmpty then return ⟨[], none⟩
  return ⟨found, some (combine l (← fragments l scope q.principal found))⟩

end Request
end AccessControl
