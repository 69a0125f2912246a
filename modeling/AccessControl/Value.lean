import AccessControl.Number.Text
import AccessControl.Text.Quoted
import AccessControl.Timestamp.Text

/-! # Values

The values that fields and attributes hold, and the types that conditions declare for them.

`Value.same` is equality as conditions see it: numbers are equal numerically, so that the two zeros
agree and `nan` differs from itself.  `Value.coerce?` reads a value as a declared type: a value of
that type stands for itself, a text may denote a number, a truth value or a date, and nothing else
is converted. -/

namespace AccessControl

/-- The types that a condition can declare. -/
inductive ValueType where
  | string
  | number
  | boolean
  | date
deriving DecidableEq

namespace ValueType

/-- Whether values of the type can be compared by order. -/
def isOrdered : ValueType → Bool
  | number | date => true
  | string | boolean => false

def name : ValueType → String
  | string => "string"
  | number => "number"
  | boolean => "bool"
  | date => "date"

end ValueType

/-- The value of a field or an attribute. -/
inductive Value where
  | null
  | string (text : String)
  | number (x : Number)
  | boolean (b : Bool)
  | date (t : Timestamp)
  | list (items : List Value)

namespace Value

/-- The word for what a value is. -/
def kind : Value → String
  | null => "null"
  | string _ => "string"
  | number _ => "number"
  | boolean _ => "bool"
  | date _ => "date"
  | list _ => "list"

/-- Whether a value stands for no value. -/
def isNull : Value → Bool
  | null => true
  | _ => false

mutual

/-- Equality of values. -/
def same : Value → Value → Bool
  | null, null => true
  | string s, string t => s == t
  | number x, number y => x.equal y
  | boolean a, boolean b => a == b
  | date s, date t => s == t
  | list xs, list ys => sameItems xs ys
  | _, _ => false

/-- Equality item by item. -/
def sameItems : List Value → List Value → Bool
  | [], [] => true
  | x :: xs, y :: ys => same x y && sameItems xs ys
  | _, _ => false

end

/-- The finite number that a text denotes, blanks around it aside. -/
def readNumber? (s : String) : Option Number :=
  (Number.read? (Text.trim s.toList)).filter Number.isFinite

/-- A scalar read as a value of a declared type. -/
def coerce? (v : Value) (type : ValueType) : Option Value :=
  match type, v with
  | .string, string s => some (string s)
  | .number, number x => some (number x)
  | .number, string s => (readNumber? s).map number
  | .boolean, boolean b => some (boolean b)
  | .boolean, string s =>
    if s = "true" then some (boolean true) else if s = "false" then some (boolean false) else none
  | .date, date t => some (date t)
  | .date, string s => (Timestamp.read? s).map date
  | _, _ => none

/-- The declared type of a value to compare with; a list has the type of its first item. -/
def type? : Value → Option ValueType
  | null => none
  | string _ => some .string
  | number _ => some .number
  | boolean _ => some .boolean
  | date _ => some .date
  | list [] => none
  | list (first :: _) => first.type?

def writeBoolean (b : Bool) : String := if b then "true" else "false"

/-- The text of a date in conditions. -/
def writeDate (t : Timestamp) : String := "date(" ++ Text.quote t.write ++ ")"

mutual

/-- The text of a value in messages and predicates. -/
def write : Value → String
  | null => "null"
  | string s => Text.quote s
  | number x => x.write
  | boolean b => writeBoolean b
  | date t => writeDate t
  | list items => "[" ++ writeItems items ++ "]"

def writeItems : List Value → String
  | [] => ""
  | [v] => v.write
  | v :: rest => v.write ++ ", " ++ writeItems rest

end

end Value
end AccessControl
