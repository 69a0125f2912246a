/-! # Failures

The ways in which a configuration can be refused and a request can fail.  A denial is not among
them: it is an answer.  Each failure has a message, a code that names its kind, and for most kinds a
hint on what to change. -/

namespace AccessControl

/-- Why a configuration was refused or a request could not be decided. -/
inductive Failure where
  | duplicateAction (type action : String)
  | unknownType (type : String)
  | invalidPermission (reason : String)
  | unsupportedOperator (field operator type : String)
  | typeMismatch (field reason : String)
  | invalidProvider (type reason : String)
  | invalidCondition (reason : String)
  | unreadablePolicy (path : String)
  | invalidPolicy (reason : String)
  | invalidDocument (reason : String)
  | io (reason : String)
  | unknownAction (type action : String)
  | unknownRelation (type relation : String)
  | fieldType (field expected found : String)
  | missingAttribute (name : String)
deriving DecidableEq

/-- A word between backquotes, as messages quote the names in them. -/
def backquoted (name : String) : String := "`" ++ name ++ "`"

namespace Failure

/-- What went wrong, in words. -/
def message : Failure → String
  | duplicateAction type action =>
    "Action " ++ backquoted action ++ " is already registered for resource type " ++ backquoted type
  | unknownType type => "Unknown resource type " ++ backquoted type
  | invalidPermission reason => "Invalid permission: " ++ reason
  | unsupportedOperator field operator type =>
    "Operator " ++ backquoted operator ++ " is not supported for " ++ type ++ " values in " ++
      backquoted field
  | typeMismatch field reason => "Type mismatch in " ++ backquoted field ++ ": " ++ reason
  | invalidProvider type reason =>
    "Invalid capability provider for " ++ backquoted type ++ ": " ++ reason
  | invalidCondition reason => "Invalid condition expression: " ++ reason
  | unreadablePolicy path => "Failed to load policy file " ++ backquoted path
  | invalidPolicy reason => "Invalid policy: " ++ reason
  | invalidDocument reason => "KDL parse error: " ++ reason
  | io reason => "I/O error: " ++ reason
  | unknownAction type action =>
    "Unknown action " ++ backquoted action ++ " for resource type " ++ backquoted type
  | unknownRelation type relation =>
    "Unknown relation " ++ backquoted relation ++ " on resource type " ++ backquoted type
  | fieldType field expected found =>
    "Field " ++ backquoted field ++ " holds " ++ found ++ ", expected a " ++ expected ++ " value"
  | missingAttribute name => "Principal has no attribute " ++ backquoted name

/-- The name of the kind of failure. -/
def label : Failure → String
  | duplicateAction _ _ => "duplicate_action"
  | unknownType _ => "unknown_resource_type"
  | invalidPermission _ => "invalid_permission"
  | unsupportedOperator _ _ _ => "unsupported_operator"
  | typeMismatch _ _ => "type_mismatch"
  | invalidProvider _ _ => "invalid_provider"
  | invalidCondition _ => "invalid_condition"
  | unreadablePolicy _ => "policy_load"
  | invalidPolicy _ => "invalid_policy"
  | invalidDocument _ => "kdl_parse"
  | io _ => "io"
  | unknownAction _ _ => "unknown_action"
  | unknownRelation _ _ => "unknown_relation"
  | fieldType _ _ _ => "field_type"
  | missingAttribute _ => "missing_principal_attribute"

/-- The code under which a failure is reported. -/
def code (f : Failure) : String := "warrant::authz::" ++ f.label

/-- What to change, for the kinds of failure that have such advice. -/
def help? : Failure → Option String
  | duplicateAction _ _ => some "Each action key may be registered only once per resource type"
  | unknownType _ =>
    some "Register a capability provider for the resource type before referencing it"
  | invalidPermission _ =>
    some "A permission may only name actions listed by the resource type's provider"
  | unsupportedOperator _ _ _ =>
    some ("`>` and `<` need number or date values; `in` needs a list; " ++
      "`==`, `!=` and `contains` need a single value")
  | typeMismatch _ _ =>
    some "Literal values must coerce to their declared type (string, number, bool, date)"
  | invalidProvider _ _ =>
    some "Providers must declare a non-empty set of actions for their own resource type"
  | invalidCondition _ =>
    some ("Supported operators: ==, !=, >, <, in, contains, &&, ||, !. " ++
      "Relation paths use dot notation (e.g. relatedCase.status)")
  | unreadablePolicy _ => some "Check that the file exists and contains valid KDL syntax"
  | invalidPolicy _ =>
    some "Each policy file may contain `resource` and `permission` KDL nodes"
  | invalidDocument _ => some "Check the KDL file syntax, see https://kdl.dev"
  | unknownRelation _ _ =>
    some "Declare the relation in the resource type's capability provider"
  | io _ | unknownAction _ _ | fieldType _ _ _ | missingAttribute _ => none

end Failure

/-- Why a command or a catalog failed; an authorization failure keeps its own message and code. -/
inductive ServiceFailure where
  | authorization (failure : Failure)
  | io (reason : String)
  | serialization (reason : String)
  | catalog (reason : String)
  | badRequest (reason : String)
deriving DecidableEq

namespace ServiceFailure

def message : ServiceFailure → String
  | authorization f => f.message
  | io reason => "I/O error: " ++ reason
  | serialization reason => "Serialization error: " ++ reason
  | catalog reason => "Catalog error: " ++ reason
  | badRequest reason => "Bad request: " ++ reason

def code : ServiceFailure → String
  | authorization f => f.code
  | io _ => "warrant::io"
  | serialization _ => "warrant::serde"
  | catalog _ => "warrant::catalog"
  | badRequest _ => "warrant::bad_request"

/-- What to change, for the kinds of failure that have such advice. -/
def help? : ServiceFailure → Option String
  | authorization f => f.help?
  | catalog _ =>
    some "The catalog is a JSON object mapping resource type names to arrays of records"
  | io _ | serialization _ | badRequest _ => none

end ServiceFailure
end AccessControl
