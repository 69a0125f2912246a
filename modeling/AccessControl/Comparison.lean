import AccessControl.Condition
import AccessControl.Failure
import AccessControl.Resource

/-! # Comparing field values

`compareField` decides one comparison of a field value with an operand that already has its declared
type.  A field that is absent or null satisfies `!=` and nothing else.  Any other field value is
read as the operand's type, and one that cannot be read so is a failure, not a mismatch. -/

namespace AccessControl

/-- Whether one text occurs in another. -/
def occursIn (part : List Char) : List Char → Bool
  | [] => part.isEmpty
  | c :: cs => part.isPrefixOf (c :: cs) || occursIn part cs

/-- Whether the first of two values is below the second; only numbers and dates are ordered. -/
def Value.isBelow : Value → Value → Bool
  | .number x, .number y => x.less y
  | .date s, .date t => s.earlier t
  | _, _ => false

/-- A field value read as a declared type. -/
def coerceField (field : String) (declared : ValueType) (actual : Value) : Except Failure Value :=
  match actual.coerce? declared with
  | some v => .ok v
  | none => .error (.fieldType field declared.name actual.kind)

/-- Whether some item of a list, nulls aside, equals the expected value. -/
def holdsItem (field : String) (declared : ValueType) (expected : Value) :
    List Value → Except Failure Bool
  | [] => .ok false
  | item :: rest =>
    if item.isNull then holdsItem field declared expected rest
    else do
      if (← coerceField field declared item).same expected then return true
      holdsItem field declared expected rest

/-- Whether a field value that is a text or a list contains the expected value. -/
def holdsWithin (field : String) (declared : ValueType) (actual expected : Value) :
    Except Failure Bool :=
  match actual, expected with
  | .string whole, .string part => .ok (occursIn part.toList whole.toList)
  | .list items, _ => holdsItem field declared expected items
  | _, _ => .error (.fieldType field "string or list" actual.kind)

/-- Whether a value is the expected one, or one of the expected list. -/
def Value.isAmong (actual : Value) : Value → Bool
  | .list items => items.any (·.same actual)
  | expected => expected.same actual

/-- Whether a field value that is not null stands in the relation to the expected value. -/
def comparePresent (field : String) (declared : ValueType) (operator : Operator)
    (actual expected : Value) : Except Failure Bool :=
  match operator with
  | .contains => holdsWithin field declared actual expected
  | .equals => return (← coerceField field declared actual).same expected
  | .notEquals => return !(← coerceField field declared actual).same expected
  | .isIn => return (← coerceField field declared actual).isAmong expected
  | .greater => return expected.isBelow (← coerceField field declared actual)
  | .less => return (← coerceField field declared actual).isBelow expected

/-- Whether the value of a field, if it has one, stands in the relation to the expected value. -/
def compareField (field : String) (actual? : Option Value) (operator : Operator)
    (expected : Value) : Except Failure Bool :=
  let actual := actual?.getD .null
  if actual.isNull then .ok (operator == .notEquals)
  else match expected.type? with
    | none => .ok false
    | some declared => comparePresent field declared operator actual expected

/-- Whether the field of some resource stands in the relation; the first that does decides. -/
def compareSome (field : String) (operator : Operator) (expected : Value) :
    List Resource → Except Failure Bool
  | [] => .ok false
  | r :: rest => do
    if ← compareField field (r.field field) operator expected then return true
    compareSome field operator expected rest

end AccessControl
