import AccessControl.Resource

/-! # The registry

The providers that decisions consult, one for each type of resource.  `Registry.register` admits
providers one at a time, `Registry.close` accepts the whole when every relation leads to a type that
has a provider.  `Registry.reach` follows a path of relations from a resource and gives everything
at its end; the caller may hold the first step already.

What asks providers is an `Inquiry`: `Inquiry.outcome` is its answer or its failure, and
`Inquiry.lookups` counts the times that a provider was asked before it ended. -/

namespace AccessControl

/-! ### Inquiries -/

/-- An answer or a failure, with the number of lookups made on the way. -/
structure Inquiry (α : Type) where
  outcome : Except Failure α
  lookups : Nat

namespace Inquiry

variable {α β : Type}

/-- An outcome that takes no lookup. -/
def ofExcept (outcome : Except Failure α) : Inquiry α := ⟨outcome, 0⟩

/-- An outcome that a provider was asked for. -/
def asked (outcome : Except Failure α) : Inquiry α := ⟨outcome, 1⟩

/-- One inquiry after another, unless the first fails. -/
def andThen (x : Inquiry α) (f : α → Inquiry β) : Inquiry β :=
  match x.outcome with
  | .ok a => ⟨(f a).outcome, x.lookups + (f a).lookups⟩
  | .error e => ⟨.error e, x.lookups⟩

instance : Monad Inquiry where
  pure a := ofExcept (.ok a)
  bind := andThen

instance : MonadLift (Except Failure) Inquiry where
  monadLift := ofExcept

end Inquiry

/-- The providers in order of registration. -/
structure Registry where
  providers : List Provider

namespace Registry

/-! ### Building -/

/-- The first relation name that a list declares a second time. -/
def repeatedRelation? (seen : List String) : List Relation → Option String
  | [] => none
  | r :: rest =>
    if seen.contains r.name then some r.name else repeatedRelation? (r.name :: seen) rest

/-- What is wrong with a provider's own declarations, if anything. -/
def checkDeclarations (p : Provider) : Except Failure Unit := do
  if p.actions.isEmpty then throw (.invalidProvider p.type "no actions declared")
  discard (admitActions p.type [] p.actions)
  match repeatedRelation? [] p.relations with
  | some name =>
    throw (.invalidProvider p.type ("relation " ++ backquoted name ++ " declared twice"))
  | none => pure ()

/-- A further provider among those registered. -/
def register (registered : List Provider) (p : Provider) : Except Failure (List Provider) := do
  if registered.any (·.type == p.type) then
    throw (.invalidProvider p.type "a provider is already registered for this resource type")
  checkDeclarations p
  return registered ++ [p]

/-- The first relation target without a provider. -/
def danglingTarget? (providers : List Provider) : Option String :=
  providers.findSome? fun p =>
    (p.relations.find? fun r => !providers.any (·.type == r.target)).map (·.target)

/-- The registry of the registered providers. -/
def close (providers : List Provider) : Except Failure Registry :=
  match danglingTarget? providers with
  | some target => .error (.unknownType target)
  | none => .ok ⟨providers⟩

/-- The registry of a list of providers. -/
def build (providers : List Provider) : Except Failure Registry := do
  close (← providers.foldlM register [])

/-! ### Looking up -/

def provider (r : Registry) (type : String) : Except Failure Provider :=
  match r.providers.find? (·.type == type) with
  | some p => .ok p
  | none => .error (.unknownType type)

def contains (r : Registry) (type : String) : Bool := r.providers.any (·.type == type)

def actionsFor (r : Registry) (type : String) : Except Failure (List Action) := do
  return (← r.provider type).actions

/-- The action of a type with a key. -/
def resolveAction (r : Registry) (type key : String) : Except Failure Action := do
  findAction type key (← r.actionsFor type)

def relation (r : Registry) (type name : String) : Except Failure Relation := do
  let p ← r.provider type
  match p.relations.find? (·.name == name) with
  | some found => return found
  | none => throw (.unknownRelation type name)

/-- The names of the types, in ascending order. -/
def typeNames (r : Registry) : List String := sortedNames (r.providers.map (·.type))

/-! ### Following relations -/

/-- What the provider of a type answers for one resource; this is a lookup. -/
def ask (r : Registry) (type : String) (subject : Resource) (name : String) : Inquiry Related := do
  let p ← r.provider type
  .asked (p.related subject name)

/-- One step along a relation: the type it leads to and what it reaches. -/
def related (r : Registry) (type : String) (subject : Resource) (name : String) :
    Inquiry (String × Related) := do
  let found ← r.relation type name
  let reached ← r.ask type subject name
  return (found.target, reached)

/-- Everything that one step reaches from any of several resources. -/
def relatedToAll (r : Registry) (type name : String) : List Resource → Inquiry (List Resource)
  | [] => return []
  | first :: rest => do
    let (_, reached) ← r.related type first name
    return reached.toList ++ (← relatedToAll r type name rest)

/-- Everything at the end of a path that starts at several resources of a type. -/
def reachFrom (r : Registry) (type : String) (current : List Resource) :
    List String → Inquiry (List Resource)
  | [] => return current
  | name :: rest => do
    -- with nothing left to start from, the rest of the path is not looked at
    if current.isEmpty then return []
    let found ← r.relation type name
    let next ← r.relatedToAll type name current
    reachFrom r found.target next rest

/-- The first step of a path, which the caller may hold already. -/
def firstStep (r : Registry) (type : String) (subject : Resource) (name : String)
    (context : Context) : Inquiry (String × Related) :=
  match context.lookup name with
  | some held => do
    -- what is held saves the lookup; the relation has to be declared all the same
    let found ← r.relation type name
    return (found.target, held)
  | none => r.related type subject name

/-- Everything at the end of a path of relations from a resource. -/
def reach (r : Registry) (type : String) (subject : Resource) (path : List String)
    (context : Context) : Inquiry (List Resource) :=
  match path with
  | [] => return []
  | first :: rest => do
    let (target, related) ← r.firstStep type subject first context
    r.reachFrom target related.toList rest

end Registry
end AccessControl
