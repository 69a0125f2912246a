import AccessControl.Value

/-! # JSON

The values of JSON documents.  Integers of 64 bits, with or without a sign, are kept exactly, and
every other number is the nearest floating-point number.  The members of an object are in ascending
order of their names, each name once: of equal names in a document the last one counts.

`Json.write` gives the compact text of a value: no blanks, members in ascending order, and only
quotes, backslashes and controls escaped.  A number that is not an integer of 64 bits always shows a
point or an exponent; it has an exponent, with its sign, below `0.00001` and from `10 ^ 16` on. -/

namespace AccessControl

/-- A JSON value. -/
inductive Json where
  | null
  | boolean (b : Bool)
  | integer (n : Int)
  | real (x : Number)
  | string (text : String)
  | array (items : List Json)
  | object (members : List (String × Json))

/-- A member put among members in ascending order, in the place of one of the same name. -/
def insertMember (name : String) (value : Json) : List (String × Json) → List (String × Json)
  | [] => [(name, value)]
  | first :: rest =>
    if name < first.1 then (name, value) :: first :: rest
    else if name = first.1 then (name, value) :: rest
    else first :: insertMember name value rest

namespace Json

/-- The object with the given members, of which a later one counts more. -/
def ofMembers (members : List (String × Json)) : Json :=
  object (members.foldl (fun sorted m => insertMember m.1 m.2 sorted) [])

/-- The member of an object with a name. -/
def member? : Json → String → Option Json
  | object members, name => members.lookup name
  | _, _ => none

mutual

/-- A JSON value as the value of a field; an object is no value. -/
def toValue : Json → Value
  | null => .null
  | boolean b => .boolean b
  | integer n => .number (.ofInt n)
  | real x => .number x
  | string s => .string s
  | array items => .list (toValues items)
  | object _ => .null

def toValues : List Json → List Value
  | [] => []
  | first :: rest => first.toValue :: toValues rest

end

/-! ### Text -/

/-- A character inside a JSON string. -/
def escape (c : Char) : List Char :=
  match c with
  | '"' => ['\\', '"']
  | '\\' => ['\\', '\\']
  | '\n' => ['\\', 'n']
  | '\r' => ['\\', 'r']
  | '\t' => ['\\', 't']
  | '\x08' => ['\\', 'b']
  | '\x0c' => ['\\', 'f']
  | c =>
    if c.toNat < 0x20 then
      '\\' :: 'u' :: (List.replicate (4 - (Text.hexadecimal c.toNat).length) '0' ++
        Text.hexadecimal c.toNat)
    else [c]

/-- A JSON string. -/
def writeString (s : String) : String := .ofList ('"' :: (s.toList.flatMap escape ++ ['"']))

/-- A magnitude with a point or an exponent. -/
def writeMagnitude (m : Magnitude) : List Char :=
  let d := m.shortest .even
  if d.digits = 0 then "0.0".toList
  else if 16 < d.scale ∨ d.scale < -4 then Number.exponential ['+'] d
  else if 0 ≤ d.exponent then Number.positional d ++ ".0".toList
  else Number.positional d

mutual

/-- The compact text of a value. -/
def write : Json → String
  | null => "null"
  | boolean b => if b then "true" else "false"
  | integer n => .ofList (Text.signedDecimal n)
  | real x => .ofList (x.writeWith writeMagnitude)
  | string s => writeString s
  | array items => "[" ++ writeItems items ++ "]"
  | object members => "\x7b" ++ writeMembers members ++ "\x7d"

def writeItems : List Json → String
  | [] => ""
  | [v] => v.write
  | v :: rest => v.write ++ "," ++ writeItems rest

def writeMembers : List (String × Json) → String
  | [] => ""
  | [(name, v)] => writeString name ++ ":" ++ v.write
  | (name, v) :: rest => writeString name ++ ":" ++ v.write ++ "," ++ writeMembers rest

end

end Json
end AccessControl
