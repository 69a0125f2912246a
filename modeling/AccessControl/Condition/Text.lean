import AccessControl.Condition

/-! # Conditions as text

`Condition.write` gives the text of a condition in the language that `Condition.read` accepts.  A
literal of its own type stands bare, any other is wrapped in the name of its declared type.  Groups
inside groups get parentheses, and so does all below a negation but another negation. -/

namespace AccessControl

/-- Texts with a separator between them. -/
def joinWith (separator : String) : List String → String
  | [] => ""
  | [s] => s
  | s :: rest => s ++ separator ++ joinWith separator rest

namespace Literal

def write (l : Literal) : String :=
  match l.value with
  | .date t => Value.writeDate t
  | v =>
    if naturalType? v = some l.declared then v.write
    else l.declared.name ++ "(" ++ v.write ++ ")"

end Literal

namespace Operand

def write : Operand → String
  | literal l => l.write
  | list items => "[" ++ joinWith ", " (items.map (·.write)) ++ "]"
  | principal name .string => "principal." ++ name
  | principal name declared => declared.name ++ "(principal." ++ name ++ ")"

end Operand

namespace Condition

/-- A part of a group, given its text. -/
def parenthesized (part : Condition) (text : String) : String :=
  match part with
  | all _ | any _ => "(" ++ text ++ ")"
  | compare _ _ _ | not _ => text

/-- What is negated, given its text. -/
def negated (inner : Condition) (text : String) : String :=
  match inner with
  | not _ => "!" ++ text
  | compare _ _ _ | all _ | any _ => "!(" ++ text ++ ")"

mutual

/-- The text of a condition. -/
def write : Condition → String
  | compare field operator operand => field ++ " " ++ operator.symbol ++ " " ++ operand.write
  | all [] => "true"
  | any [] => "false"
  | all (first :: rest) => joinWith " && " (writeParts (first :: rest))
  | any (first :: rest) => joinWith " || " (writeParts (first :: rest))
  | not inner => negated inner inner.write

def writeParts : List Condition → List String
  | [] => []
  | part :: rest => parenthesized part part.write :: writeParts rest

end

end Condition
end AccessControl
