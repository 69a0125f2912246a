import AccessControl.Comparison
import AccessControl.Condition.Text
import AccessControl.Registry
import AccessControl.Text

/-! # Plans

A plan is a condition that was checked against the registry for one type of resource: every path
leads along relations that exist, every fixed value has its declared type, and every operator suits
its operand.  `Plan.compile` makes the plan of a condition or says why there is none.

`Plan.evaluate` decides a plan for a resource in memory.  Groups are decided from left to right and
no further than needed, and relations are followed only for comparisons that are reached.  A
comparison beyond relations holds when it holds for something at the end of its path. -/

namespace AccessControl

/-- A field at the end of a path of relations. -/
structure FieldPath where
  relations : List String
  field : String
deriving DecidableEq

/-- A path as it is written in conditions. -/
def FieldPath.write (p : FieldPath) : String := joinWith "." (p.relations ++ [p.field])

/-- The right side of a checked comparison: a value of the declared type, a list of such values, or
an attribute of the principal. -/
inductive BoundOperand where
  | value (v : Value)
  | attribute (name : String)

structure Comparison where
  path : FieldPath
  operator : Operator
  operand : BoundOperand
  declared : ValueType

inductive Plan where
  | compare (c : Comparison)
  | all (parts : List Plan)
  | any (parts : List Plan)
  | not (inner : Plan)

namespace Comparison

/-- The value of an attribute of the principal, read as a declared type. -/
def attributeValue (p : Principal) (name : String) (declared : ValueType) : Except Failure Value :=
  match p.attribute? name with
  | none => .error (.missingAttribute name)
  | some raw =>
    match raw.coerce? declared with
    | some v => .ok v
    | none => .error (.typeMismatch ("principal." ++ name)
        (raw.kind ++ " cannot be read as " ++ declared.name))

/-- The right side of a comparison on behalf of a principal. -/
def expected (c : Comparison) (p : Principal) : Except Failure Value :=
  match c.operand with
  | .value v => .ok v
  | .attribute name => attributeValue p name c.declared

end Comparison

namespace Plan

/-- The type that a path of relations leads to. -/
def follow (r : Registry) (type : String) : List String → Except Failure String
  | [] => .ok type
  | name :: rest => do follow r (← r.relation type name).target rest

/-- The segments of a dotted path. -/
def segments (field : String) : List String := (Text.split '.' field.toList).map .ofList

/-- The path that a dotted text denotes for a type. -/
def compilePath (r : Registry) (type field : String) : Except Failure FieldPath := do
  let parts := segments field
  if parts.contains "" then
    throw (.invalidCondition ("invalid field path " ++ backquoted field))
  let relations := parts.dropLast
  discard (follow r type relations)
  return ⟨relations, parts.getLast?.getD ""⟩

/-- A literal as a value of its declared type. -/
def compileLiteral (field : String) (l : Literal) : Except Failure Value :=
  match l.value.coerce? l.declared with
  | some v => .ok v
  | none => .error (.typeMismatch field
      (l.value.write ++ " cannot be read as " ++ l.declared.name))

/-- The literals of a list as values of one declared type. -/
def compileItems (field : String) (declared : ValueType) :
    List Literal → Except Failure (List Value)
  | [] => .ok []
  | item :: rest => do
    if item.declared ≠ declared then
      throw (.typeMismatch field
        ("list mixes " ++ declared.name ++ " and " ++ item.declared.name ++ " values"))
    let v ← compileLiteral field item
    return v :: (← compileItems field declared rest)

/-- The refusal of an operator for a kind of operand. -/
def unsupported (field : String) (operator : Operator) (kind : String) : Failure :=
  .unsupportedOperator field operator.symbol kind

/-- The operand of a comparison with its declared type. -/
def compileOperand (field : String) (operator : Operator) (operand : Operand) :
    Except Failure (BoundOperand × ValueType) :=
  match operator, operand with
  | .isIn, .list [] =>
    .error (.invalidCondition (backquoted (field ++ " in") ++ " needs at least one value"))
  -- the first item says what type the list has
  | .isIn, .list (first :: rest) => do
    let items ← compileItems field first.declared (first :: rest)
    return (.value (.list items), first.declared)
  | .isIn, _ => .error (unsupported field operator "single")
  | _, .list _ => .error (unsupported field operator "list")
  | _, .literal l => do return (.value (← compileLiteral field l), l.declared)
  | _, .principal name declared => .ok (.attribute name, declared)

/-- A comparison checked for a type. -/
def compileComparison (r : Registry) (type field : String) (operator : Operator)
    (operand : Operand) : Except Failure Comparison := do
  let path ← compilePath r type field
  let (bound, declared) ← compileOperand field operator operand
  if operator.needsOrder && !declared.isOrdered then
    throw (unsupported field operator declared.name)
  return ⟨path, operator, bound, declared⟩

mutual

/-- The plan of a condition for a type. -/
def compile (r : Registry) (type : String) : Condition → Except Failure Plan
  | .compare field operator operand => do
    return .compare (← compileComparison r type field operator operand)
  | .all parts => do return .all (← compileParts r type parts)
  | .any parts => do return .any (← compileParts r type parts)
  | .not inner => do return .not (← compile r type inner)

def compileParts (r : Registry) (type : String) : List Condition → Except Failure (List Plan)
  | [] => .ok []
  | part :: rest => do return (← compile r type part) :: (← compileParts r type rest)

end

end Plan

/-! ### Deciding for one resource -/

/-- For whom, for which type, and with which related resources at hand a plan is decided. -/
structure Scope where
  principal : Principal
  type : String
  context : Context

namespace Comparison

/-- Whether a comparison holds for a resource. -/
def evaluate (r : Registry) (s : Scope) (subject : Resource) (c : Comparison) : Inquiry Bool := do
  let expected ← c.expected s.principal
  match c.path.relations with
  | [] => compareField c.path.field (subject.field c.path.field) c.operator expected
  | relations => do
    let reached ← r.reach s.type subject relations s.context
    compareSome c.path.field c.operator expected reached

end Comparison

namespace Plan

mutual

/-- Whether a plan holds for a resource. -/
def evaluate (r : Registry) (s : Scope) (subject : Resource) : Plan → Inquiry Bool
  | .compare c => c.evaluate r s subject
  | .all parts => evaluateAll r s subject parts
  | .any parts => evaluateAny r s subject parts
  | .not inner => do return !(← evaluate r s subject inner)

/-- Whether all plans hold, up to the first that does not. -/
def evaluateAll (r : Registry) (s : Scope) (subject : Resource) : List Plan → Inquiry Bool
  | [] => return true
  | part :: rest => do
    if ← evaluate r s subject part then evaluateAll r s subject rest else return false

/-- Whether some plan holds, up to the first that does. -/
def evaluateAny (r : Registry) (s : Scope) (subject : Resource) : List Plan → Inquiry Bool
  | [] => return false
  | part :: rest => do
    if ← evaluate r s subject part then return true else evaluateAny r s subject rest

end

end Plan
end AccessControl
