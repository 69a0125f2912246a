import AccessControl.Value

/-! # Conditions

What a permission can demand of a resource: comparisons of a field with fixed values or with an
attribute of the principal, and their combination with all, any and not.  The field of a comparison
is a dotted path, all but the last segment of which name relations.

`Condition.same` compares two conditions; numbers in them are compared numerically.
`Condition.Forall` says that all comparisons of a condition have a property, whatever they are
joined by. -/

namespace AccessControl

/-- How a comparison relates a field to its operand. -/
inductive Operator where
  | equals
  | notEquals
  | isIn
  | contains
  | greater
  | less
deriving DecidableEq

namespace Operator

def symbol : Operator → String
  | equals => "=="
  | notEquals => "!="
  | isIn => "in"
  | contains => "contains"
  | greater => ">"
  | less => "<"

/-- Whether an operator asks for ordered values. -/
def needsOrder : Operator → Bool
  | greater | less => true
  | equals | notEquals | isIn | contains => false

end Operator

/-- A value with the type that it is to be read as. -/
structure Literal where
  declared : ValueType
  value : Value

namespace Literal

/-- The type that a scalar has by itself. -/
def naturalType? : Value → Option ValueType
  | .string _ => some .string
  | .number _ => some .number
  | .boolean _ => some .boolean
  | .date _ => some .date
  | .null | .list _ => none

/-- A value declared with its own type; what has none is declared a string. -/
def infer (value : Value) : Literal := ⟨(naturalType? value).getD .string, value⟩

def same (a b : Literal) : Bool := a.declared == b.declared && a.value.same b.value

end Literal

/-- The right side of a comparison. -/
inductive Operand where
  | literal (value : Literal)
  | list (items : List Literal)
  | principal (name : String) (declared : ValueType)

namespace Operand

/-- The operand for a value: a list gives a list of literals, all else one literal. -/
def ofValue : Value → Operand
  | .list items => .list (items.map .infer)
  | v => .literal (.infer v)

def sameItems : List Literal → List Literal → Bool
  | [], [] => true
  | a :: as, b :: bs => a.same b && sameItems as bs
  | _, _ => false

/-- Equality of operands. -/
def same : Operand → Operand → Bool
  | literal a, literal b => a.same b
  | list as, list bs => sameItems as bs
  | principal a s, principal b t => a == b && s == t
  | _, _ => false

/-- The literals of an operand. -/
def literals : Operand → List Literal
  | literal l => [l]
  | list items => items
  | principal _ _ => []

end Operand

/-- A demand on a resource. -/
inductive Condition where
  | compare (field : String) (operator : Operator) (operand : Operand)
  | all (parts : List Condition)
  | any (parts : List Condition)
  | not (inner : Condition)

namespace Condition

/-- A field that equals an attribute of the principal. -/
def equalsPrincipal (field name : String) : Condition :=
  compare field .equals (.principal name .string)

mutual

/-- Equality of conditions. -/
def same : Condition → Condition → Bool
  | compare f o x, compare g p y => f == g && o == p && x.same y
  | all as, all bs => sameParts as bs
  | any as, any bs => sameParts as bs
  | not a, not b => same a b
  | _, _ => false

def sameParts : List Condition → List Condition → Bool
  | [], [] => true
  | a :: as, b :: bs => same a b && sameParts as bs
  | _, _ => false

end

/-- Several conditions as one: a single one stands for itself. -/
def group (join : List Condition → Condition) (first : Condition) : List Condition → Condition
  | [] => first
  | more => join (first :: more)

mutual

/-- Whether all comparisons of a condition have a property. -/
def Forall (P : String → Operator → Operand → Prop) : Condition → Prop
  | .compare field operator operand => P field operator operand
  | .all parts => ForallParts P parts
  | .any parts => ForallParts P parts
  | .not inner => Forall P inner

def ForallParts (P : String → Operator → Operand → Prop) : List Condition → Prop
  | [] => True
  | part :: rest => Forall P part ∧ ForallParts P rest

end

end Condition
end AccessControl
