import AccessControl.Catalog
import AccessControl.CommandLine.Invocation
import AccessControl.Policy.Reader
import AccessControl.Settings

/-! # The command line

`CommandLine.run` does what a command line asks for, over any file system: it reads the settings,
loads the policies and the catalog, and performs the command.  The answer is an `Outcome`: what was
printed, up to a failure if there is one, and the status to exit with. -/

namespace AccessControl.CommandLine

/-- The end of a run: its status, its output, and a complaint for the user. -/
structure Outcome where
  exit : Nat
  output : String
  complaint : String

def Outcome.success (output : String) : Outcome := ⟨0, output, ""⟩

/-- The end of a run that failed after some output. -/
def Outcome.failure (output : String) (f : ServiceFailure) : Outcome := ⟨1, output, f.message⟩

def Outcome.unsettled : Settings.Fault → Outcome
  | .malformed => ⟨1, "", "the settings cannot be read"⟩
  | .noPlace => ⟨101, "", "a setting lies outside of its list"⟩

/-- What commands work on. -/
structure Loaded where
  catalog : Catalog
  registry : Registry
  permissions : Permissions

/-! ### Loading -/

/-- The catalog of what was found at a path. -/
def catalogOf (path : String) : Option Entry → Except ServiceFailure Catalog
  | some (.file (.text text)) => Catalog.read text
  | _ => .error (.io ("cannot read " ++ path))

/-- What commands work on, made of a policy and a catalog. -/
def assemble (policy : Except Failure Policy) (catalog : Except ServiceFailure Catalog) :
    Except ServiceFailure Loaded := do
  let policy ← policy.mapError .authorization
  let catalog ← catalog
  let registry ← (catalog.registry policy.resources).mapError .authorization
  let permissions ← (Permissions.load registry policy.permissions).mapError .authorization
  return ⟨catalog, registry, permissions⟩

variable {m : Type → Type} [Monad m]

/-- Policies and catalog loaded from where the settings say they are. -/
def load (fs : FileSystem m) (s : Settings) : m (Except ServiceFailure Loaded) := do
  let policy ← Policy.load fs s.policies
  let catalog ← fs.look s.catalog
  return assemble policy (catalogOf s.catalog catalog)

/-! ### Commands -/

def lines (texts : List String) : String := String.join (texts.map (· ++ "\n"))

/-- The decision on a request for one record. -/
def performCheck (l : Loaded) (q : Request) (id : String) : Outcome :=
  match l.catalog.find? q.type id with
  | none => .failure "" (.badRequest
      ("no " ++ backquoted q.type ++ " record with id " ++ backquoted id))
  | some record =>
    match (q.check l.registry l.permissions record.view []).outcome with
    | .error f => .failure "" (.authorization f)
    | .ok d => .success (lines ((if d.granted then "granted" else "denied") ::
        d.grantedBy.toList.map fun p => "  by " ++ p.write))

/-- The filter for a request, and the records that it selects. -/
def performFilter (l : Loaded) (q : Request) : Outcome :=
  let language := RecordFilter.language l.registry
  match q.filter l.registry l.permissions language (RecordFilter.rootOf q.type) with
  | .error f => .failure "" (.authorization f)
  | .ok selection =>
    match selection.filter? with
    | none => .success (lines ["always denied"])
    | some filter =>
      let shown := "predicate: " ++ filter.write
      let kept := filter.select l.registry CatalogRecord.view (l.catalog.records q.type)
      match kept.outcome with
      | .error f => .failure (lines [shown]) (.authorization f)
      | .ok records => .success (lines (shown :: records.map (·.idText)))

/-- A type with the number of its records and its actions. -/
def describeType (l : Loaded) (type : String) : Except Failure String := do
  let actions ← l.registry.actionsFor type
  return type ++ ": " ++ .ofList (Text.decimal (l.catalog.records type).length) ++
    " record(s), actions [" ++ joinWith ", " (actions.map (·.key)) ++ "]"

/-- What was loaded. -/
def performValidate (l : Loaded) : Outcome :=
  match l.registry.typeNames.mapM (describeType l) with
  | .error f => .failure "" (.authorization f)
  | .ok types => .success (lines (types ++
      [.ofList (Text.decimal l.permissions.length) ++ " permission(s)"]))

def perform (l : Loaded) : Command → Outcome
  | .check q id => performCheck l q id
  | .filter q => performFilter l q
  | .validate => performValidate l

/-! ### Runs -/

/-- The settings of an invocation, in which the command line has the last word. -/
def Invocation.adjust (i : Invocation) (s : Settings) : Settings :=
  ⟨i.policies.getD s.policies, i.catalog.getD s.catalog, s.logging⟩

/-- What the words after the program's name make the program do. -/
def run (fs : FileSystem m) (environment : List (String × String)) (words : List String) :
    m Outcome := do
  match read words with
  | .print text => return .success text
  | .wrong reason => return ⟨2, "", "error: " ++ reason⟩
  | .run i =>
    match ← Settings.load fs i.config environment with
    | .error fault => return .unsettled fault
    | .ok s =>
      match ← load fs (i.adjust s) with
      | .error f => return .failure "" f
      | .ok l => return perform l i.command

end AccessControl.CommandLine
