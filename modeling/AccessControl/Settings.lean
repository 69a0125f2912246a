import AccessControl.Setting.Source

/-! # Settings

Where the policies and the catalog are, and what is logged.  Each setting has a default, which a
settings file replaces, and a variable of the environment replaces both.

A section of settings is a group, or a list whose first item is the setting. -/

namespace AccessControl

/-- Where things are, and what is logged. -/
structure Settings where
  policies : String
  catalog : String
  logging : String

namespace Settings

/-- Why there are no settings: a source or a setting has a wrong form, or a list has no place for
what a path leads to. -/
inductive Fault where
  | malformed
  | noPlace

/-- What holds when nothing is set. -/
def defaults : Setting :=
  .group [("policies", .group [("dir", .text "policies")]),
    ("catalog", .group [("path", .text "catalog.json")]),
    ("logging", .group [("filter", .text "info")])]

/-- The text of a setting in a section. -/
def textAt? (root : Setting) (heading name : String) : Option String :=
  match root.members.lookup heading with
  | some (.group members) => members.lookup name >>= Setting.text?
  | some (.list (first :: _)) => first.text?
  | _ => none

/-- The settings that everything put together makes, if each has a text. -/
def ofSetting? (root : Setting) : Option Settings := do
  return ⟨← textAt? root "policies" "dir", ← textAt? root "catalog" "path",
    ← textAt? root "logging" "filter"⟩

/-- The settings of a file, if it could be read, and of the environment. -/
def ofSources (file? : Option (List (String × Setting))) (environment : List (String × String)) :
    Except Fault Settings :=
  match file? with
  | none => .error .malformed
  | some file =>
    let fromNames := environment.filterMap Setting.ofVariable?
    match (defaults.overlay? file).bind (·.overlay? fromNames) with
    | none => .error .noPlace
    | some root =>
      match ofSetting? root with
      | none => .error .malformed
      | some settings => .ok settings

variable {m : Type → Type} [Monad m]

/-- The settings of what is at a path, which may be nothing, and of the environment. -/
def load (fs : FileSystem m) (path : String) (environment : List (String × String)) :
    m (Except Fault Settings) := do
  return ofSources (← Setting.ofPath? fs path) environment

end Settings
end AccessControl
