import AccessControl.FileSystem
import AccessControl.Ini
import AccessControl.Json5
import AccessControl.Ron
import AccessControl.Setting
import AccessControl.Toml.Reader
import AccessControl.Yaml.Reader

/-! # Sources of settings

Settings come from files of several languages and from the environment.  In all of them every scalar
counts as its text.  The extension of a file's name says what language it is in. -/

namespace AccessControl.Setting

/-! ### Documents -/

mutual

def ofToml : Toml.Item → Setting
  | .string s => text s
  | .integer n => text (.ofList (Text.signedDecimal n))
  | .real x => text x.write
  | .boolean b => text (if b then "true" else "false")
  | .moment s => text s
  | .table _ entries => group (ofTomlEntries entries)
  | .array items => list (ofTomlItems items)
  | .tables elements => list (ofTomlItems elements)

def ofTomlItems : List Toml.Item → List Setting
  | [] => []
  | item :: rest => ofToml item :: ofTomlItems rest

def ofTomlEntries : List (String × Toml.Item) → List (String × Setting)
  | [] => []
  | (name, item) :: rest => (name, ofToml item) :: ofTomlEntries rest

end

/-- The text of an integer, which is rounded if it does not fit 64 bits with a sign. -/
def integerText (n : Int) : String :=
  if n < (Nat.pow 2 63 : Int) then .ofList (Text.signedDecimal n) else (Number.ofInt n).write

mutual

def ofJson : Json → Setting
  | .null => nothing
  | .string s => text s
  | .integer n => text (integerText n)
  | .real x => text x.write
  | .boolean b => text (if b then "true" else "false")
  | .array items => list (ofJsonItems items)
  | .object members => group (ofJsonMembers members)

def ofJsonItems : List Json → List Setting
  | [] => []
  | value :: rest => ofJson value :: ofJsonItems rest

def ofJsonMembers : List (String × Json) → List (String × Setting)
  | [] => []
  | (name, value) :: rest => (name, ofJson value) :: ofJsonMembers rest

end

/-- The members of a document that is a JSON object. -/
def ofDocument? : Json → Option (List (String × Setting))
  | .object members => some (ofJsonMembers members)
  | _ => none

/-- The members of several documents in one text, of which there may only be one. -/
def ofDocuments? : List Json → Option (List (String × Setting))
  | [] => some []
  | [document] => ofDocument? document
  | _ => none

/-- The members of an INI document; of parts with equal headers the last one counts. -/
def ofIni (parts : List Ini.Part) : List (String × Setting) :=
  parts.foldl (fun members part =>
    let properties := part.properties.foldl (fun properties (key, value) =>
      put key (text value) properties) []
    match part.header? with
    | none => properties ++ members
    | some header => put header (group properties) members) []

/-! ### Files -/

inductive Language where
  | toml
  | json
  | yaml
  | ini
  | ron
  | json5

/-- The extensions of settings files with their languages. -/
def Language.extensions : List (String × Language) :=
  [("toml", .toml), ("json", .json), ("yaml", .yaml), ("yml", .yaml), ("ini", .ini), ("ron", .ron),
   ("json5", .json5)]

/-- The settings of a text in a language. -/
def Language.read? (language : Language) (text : String) : Option (List (String × Setting)) :=
  match language with
  | toml => (Toml.read? text).map ofTomlEntries
  | json => Json.read? text >>= ofDocument?
  | yaml => Yaml.read? text >>= ofDocuments?
  | ini => (Ini.read? text).map ofIni
  | ron => Ron.read? text >>= ofDocument?
  | json5 => Json5.read? text >>= ofDocument?

/-- A text without the byte order mark in front. -/
def withoutMark (text : String) : String :=
  match text.toList with
  | '\ufeff' :: rest => .ofList rest
  | _ => text

/-- The settings of a file, given the extension of its name. -/
def ofContent? (extension : String) (content : Content) : Option (List (String × Setting)) := do
  (← Language.extensions.lookup extension).read? (withoutMark content.repaired)

variable {m : Type → Type} [Monad m]

/-- The settings of the first file whose path is a given one with an extension. -/
def ofSibling? (fs : FileSystem m) (path : String) :
    List String → m (Option (List (String × Setting)))
  | [] => return none
  | extension :: rest => do
    match ← fs.look (path ++ "." ++ extension) with
    | some (.file content) => return ofContent? extension content
    | _ => ofSibling? fs path rest

/-- The settings that are found at a path: none if nothing is there, those of the file, or beside a
directory those of a file whose name has an extension more. -/
def ofPath? (fs : FileSystem m) (path : String) : m (Option (List (String × Setting))) := do
  match ← fs.look path with
  | none => return some []
  | some (.file content) =>
    return (FileSystem.extension? path).bind fun extension => ofContent? extension content
  | some (.directory _) =>
    match FileSystem.bare? path with
    | some path => ofSibling? fs path (Language.extensions.map (·.1))
    | none => return none

/-! ### The environment -/

/-- What the name of a variable that is a setting starts with. -/
def variableStart : List Char := "warrant__".toList

/-- A name with a dot for every pair of underscores. -/
def dotted : List Char → List Char
  | '_' :: '_' :: rest => '.' :: dotted rest
  | c :: rest => c :: dotted rest
  | [] => []

/-- The setting that a variable of the environment is, if it is one. -/
def ofVariable? (found : String × String) : Option (String × Setting) :=
  let name := (lower found.1).toList
  if variableStart.isPrefixOf name then
    some (.ofList (dotted (name.drop variableStart.length)), text found.2)
  else none

end AccessControl.Setting
