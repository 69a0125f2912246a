import AccessControl.CommandLine.Options
import AccessControl.Decision
import AccessControl.Json.Reader

/-! # What a command line asks for

`CommandLine.read` reads the words after the program's name.  They name a command, with options of
the program before it and options of the command after it; or they ask for a description. -/

namespace AccessControl.CommandLine

/-- What the program is to do. -/
inductive Command where
  | check (request : Request) (id : String)
  | filter (request : Request)
  | validate

/-- A command, with the settings file and what the command line puts in place of settings. -/
structure Invocation where
  config : String
  policies : Option String
  catalog : Option String
  command : Command

/-- The answer to a command line before anything is loaded: a command, a text to print, or a
complaint. -/
inductive Reading where
  | run (i : Invocation)
  | print (text : String)
  | wrong (reason : String)

/-! ### The options -/

/-- An option that can be left out and takes any text. -/
def optionalFlag (name placeholder help : String) : Flag :=
  ⟨name, none, placeholder, help, false, false, fun _ => true⟩

/-- An option that must be given and takes any text. -/
def requiredFlag (name placeholder help : String) : Flag :=
  { optionalFlag name placeholder help with required := true }

/-- An option that names a place, which cannot be empty. -/
def placeFlag (name placeholder help : String) : Flag :=
  { optionalFlag name placeholder help with accepts := (· != "") }

def programFlags : List Flag :=
  [{ optionalFlag "config" "CONFIG" "Path to configuration file [default: warrant.toml]" with
      letter := some 'c' },
   placeFlag "policies" "POLICIES"
    ("Policy directory (overrides " ++ backquoted "policies.dir" ++ ")"),
   placeFlag "catalog" "CATALOG"
    ("Record catalog (overrides " ++ backquoted "catalog.path" ++ ")")]

/-- The options that make a request. -/
def requestFlags : List Flag :=
  [requiredFlag "type" "RESOURCE_TYPE" "Resource type name",
   requiredFlag "action" "ACTION" "Action key, e.g. \"view\"",
   requiredFlag "principal" "PRINCIPAL" "Principal id",
   { optionalFlag "role" "ROLES" "Held role; repeat for several" with repeated := true },
   { optionalFlag "attr" "ATTRIBUTES"
      "Principal attribute as key=value; the value is read as JSON when it parses" with
      repeated := true
      accepts := fun value => value.toList.contains '=' }]

def idFlag : Flag := requiredFlag "id" "ID" "Id of the record to check"

/-- The command that decides for one record. -/
def checkLevel : Level where
  words := ["warrant", "check"]
  about := "Decide whether the principal may act on one catalog record"
  flags := requestFlags ++ [idFlag]
  commands := []
  version := none

/-- The command that decides for all records. -/
def filterLevel : Level where
  words := ["warrant", "filter"]
  about := "Print the compiled predicate and the catalog records it selects"
  flags := requestFlags
  commands := []
  version := none

/-- The command that loads everything and reports. -/
def validateLevel : Level where
  words := ["warrant", "validate"]
  about := "Load policies and catalog, then report what was found"
  flags := []
  commands := []
  version := none

/-- The commands by their names. -/
def levels : List (String × Level) :=
  [("check", checkLevel), ("filter", filterLevel), ("validate", validateLevel)]

def programLevel : Level where
  words := ["warrant"]
  about := "Check permissions and compile record filters from KDL policies"
  flags := programFlags
  commands := levels.map fun (name, l) => (name, l.about)
  version := some "0.1.0"

/-! ### The values -/

namespace Given

def value? (g : Given) (name : String) : Option String := g.values.lookup name

def allValues (g : Given) (name : String) : List String :=
  (g.values.filter (·.1 == name)).map (·.2)

end Given

/-- An attribute of the principal: a name, an equals sign, and a JSON value or else plain text. -/
def readAttribute (text : String) : String × Value :=
  let name := text.toList.takeWhile (· != '=')
  let value := String.ofList ((text.toList.dropWhile (· != '=')).drop 1)
  (.ofList (AccessControl.Text.trim name),
    match Json.read? value with
    | some j => j.toValue
    | none => .string value)

/-- The request that options make; of several values for an attribute the last one counts. -/
def requestOf (g : Given) : Request where
  principal :=
    { id := (g.value? "principal").getD ""
      roles := g.allValues "role"
      attributes := ((g.allValues "attr").map readAttribute).reverse }
  type := (g.value? "type").getD ""
  action := (g.value? "action").getD ""

/-- The text that is printed for words that ask for a description. -/
def Reading.ofStop (l : Level) : Stop → Reading
  | .help => .print l.help
  | .version => .print ("warrant " ++ l.version.getD "" ++ "\n")
  | .wrong reason => .wrong reason

/-- The description of the command that describes the others. -/
def helpOfHelp : String :=
  "Print this message or the help of the given subcommand(s)\n\n" ++
    "Usage: warrant help [COMMAND]...\n\nArguments:\n" ++
    "  [COMMAND]...  Print help for the subcommand(s)\n"

/-- The description of what words name. -/
def describe : List String → Reading
  | [] => .print programLevel.help
  | ["help"] => .print helpOfHelp
  | [name] =>
    match levels.lookup name with
    | some l => .print l.help
    | none => .wrong ("unrecognized subcommand '" ++ name ++ "'")
  | _ :: name :: _ => .wrong ("unrecognized subcommand '" ++ name ++ "'")

/-- What the words after the name of a command ask for. -/
def readCommand (name : String) (words : List String) : Except Reading Command := do
  match levels.lookup name with
  | none => throw (describe words)
  | some l =>
    match l.read words with
    | .error s => throw (.ofStop l s)
    | .ok g =>
      if name = "check" then return .check (requestOf g) ((g.value? "id").getD "")
      else if name = "filter" then return .filter (requestOf g)
      else return .validate

/-- What the words after the program's name ask for. -/
def read (words : List String) : Reading :=
  match programLevel.read words with
  | .error s => .ofStop programLevel s
  | .ok g =>
    match g.command with
    | none => .wrong "a subcommand is required but one was not provided"
    | some (name, rest) =>
      match readCommand name rest with
      | .error r => r
      | .ok command =>
        .run ⟨(g.value? "config").getD "warrant.toml", g.value? "policies", g.value? "catalog",
          command⟩

end AccessControl.CommandLine
