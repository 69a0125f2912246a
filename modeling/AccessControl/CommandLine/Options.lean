import AccessControl.Text

/-! # Options of a command line

A `Level` of a command line is the program itself or one of its commands.  It has options, each of
which takes a value, and possibly commands below it.  `Level.read` reads the words of a level up to
the name of a command, and `Level.help` describes it. -/

namespace AccessControl.CommandLine

/-- An option that takes a value. -/
structure Flag where
  name : String
  letter : Option Char
  placeholder : String
  help : String
  required : Bool
  repeated : Bool
  accepts : String → Bool

def Flag.write (f : Flag) : String := "--" ++ f.name ++ " <" ++ f.placeholder ++ ">"

/-- The program or one of its commands: the words that lead to it, what it is for, its options, and
the names of the commands below it with what they are for.  The program has a version. -/
structure Level where
  words : List String
  about : String
  flags : List Flag
  commands : List (String × String)
  version : Option String

/-- Why the words of a level are not followed: they ask for a description, or they are wrong. -/
inductive Stop where
  | help
  | version
  | wrong (reason : String)

/-- The values given to options in the order given, and the command named after them with the words
that follow it. -/
structure Given where
  values : List (String × String)
  command : Option (String × List String)

namespace Level

/-! ### Reading -/

/-- Whether a word is the name of a command of a level; a level with commands also has one that
describes them. -/
def isCommand (l : Level) (word : String) : Bool :=
  l.commands.any (·.1 == word) || (!l.commands.isEmpty && word == "help")

/-- Whether a word can be the value of the option before it. -/
def isValue (word : String) : Bool := !word.startsWith "-" || word == "-"

/-- The values with a further one, if the option takes it. -/
def give (values : List (String × String)) (f : Flag) (value : String) :
    Except Stop (List (String × String)) :=
  if !f.repeated && values.any (·.1 == f.name) then
    .error (.wrong ("the argument '--" ++ f.name ++ "' cannot be used multiple times"))
  else if !f.accepts value then
    .error (.wrong ("invalid value '" ++ value ++ "' for '--" ++ f.name ++ "'"))
  else .ok (values ++ [(f.name, value)])

/-- The refusal of a word that a level has no use for. -/
def unexpected (word : String) : Stop := .wrong ("unexpected argument '" ++ word ++ "' found")

/-- What a word means to a level. -/
inductive Meaning where
  | command
  | endOfOptions
  | option (f : Flag) (value? : Option String)
  | stop (s : Stop)

/-- What an option means by its full name, with the text after an equals sign if there is one. -/
def meaningOfName (l : Level) (word name : String) (value? : Option String) : Meaning :=
  match l.flags.find? (·.name == name) with
  | some f => .option f value?
  | none =>
    if value?.isSome then .stop (unexpected word)
    else if name = "help" then .stop .help
    else if name = "version" ∧ l.version.isSome then .stop .version
    else .stop (unexpected word)

/-- What an option means by its letter, with the text attached to it. -/
def meaningOfLetter (l : Level) (word : String) (letter : Char) (attached : List Char) : Meaning :=
  match l.flags.find? (·.letter == some letter) with
  | some f =>
    match attached with
    | [] => .option f none
    | '=' :: value => .option f (some (.ofList value))
    | value => .option f (some (.ofList value))
  | none =>
    if letter = 'h' then .stop .help
    else if letter = 'V' ∧ l.version.isSome then .stop .version
    else .stop (unexpected word)

/-- What a word means where an option or a command can stand. -/
def meaning (l : Level) (word : String) : Meaning :=
  if l.isCommand word then .command
  else match word.toList with
    | ['-', '-'] => .endOfOptions
    | '-' :: '-' :: option =>
      let name := option.takeWhile (· != '=')
      let value? := match option.dropWhile (· != '=') with
        | _ :: value => some (String.ofList value)
        | [] => none
      l.meaningOfName word (.ofList name) value?
    | '-' :: letter :: attached => l.meaningOfLetter word letter attached
    | _ => .stop (unexpected word)

/-- The values given by words, after those given before. -/
def readFrom (l : Level) (values : List (String × String)) : List String → Except Stop Given
  | [] => .ok ⟨values, none⟩
  | word :: rest =>
    match l.meaning word with
    | .stop s => .error s
    | .command => .ok ⟨values, some (word, rest)⟩
    | .endOfOptions =>
      match rest with
      | [] => .ok ⟨values, none⟩
      | next :: _ => .error (unexpected next)
    | .option f (some value) => do l.readFrom (← give values f value) rest
    | .option f none =>
      match rest with
      | [] => .error (.wrong ("a value is required for '--" ++ f.name ++ "' but none was supplied"))
      | value :: rest => do
        if !isValue value then
          throw (.wrong ("a value is required for '--" ++ f.name ++ "' but none was supplied"))
        l.readFrom (← give values f value) rest

/-- The first required option that was given no value. -/
def missing? (l : Level) (g : Given) : Option Flag :=
  l.flags.find? fun f => f.required && !g.values.any (·.1 == f.name)

/-- The values given by the words of a level. -/
def read (l : Level) (words : List String) : Except Stop Given := do
  let given ← l.readFrom [] words
  match l.missing? given with
  | some f => throw (.wrong ("the required argument '--" ++ f.name ++ "' was not provided"))
  | none => return given

/-! ### Describing -/

/-- The line that shows how a level is used. -/
def usage (l : Level) : String :=
  let optional := if l.flags.any (!·.required) then ["[OPTIONS]"] else []
  let required := (l.flags.filter (·.required)).map Flag.write
  let command := if l.commands.isEmpty then [] else ["<COMMAND>"]
  "Usage: " ++ " ".intercalate (l.words ++ optional ++ required ++ command)

/-- Two columns with two blanks before each. -/
def columns (rows : List (String × String)) : String :=
  let width := rows.foldl (fun n row => max n row.1.length) 0
  String.join (rows.map fun (left, right) =>
    "  " ++ left ++ "".pushn ' ' (width - left.length) ++ "  " ++ right ++ "\n")

/-- An option as it is listed, behind its letter if it has one. -/
def listed (letter : Option Char) (text : String) : String :=
  match letter with
  | some c => "-" ++ c.toString ++ ", " ++ text
  | none => "    " ++ text

def commandRows (l : Level) : List (String × String) :=
  l.commands ++ [("help", "Print this message or the help of the given subcommand(s)")]

def flagRows (l : Level) : List (String × String) :=
  l.flags.map (fun f => (listed f.letter f.write, f.help)) ++
    [(listed (some 'h') "--help", "Print help")] ++
    if l.version.isSome then [(listed (some 'V') "--version", "Print version")] else []

def help (l : Level) : String :=
  l.about ++ "\n\n" ++ l.usage ++ "\n\n" ++
    (if l.commands.isEmpty then "" else "Commands:\n" ++ columns l.commandRows ++ "\n") ++
    "Options:\n" ++ columns l.flagRows

end Level
end AccessControl.CommandLine
