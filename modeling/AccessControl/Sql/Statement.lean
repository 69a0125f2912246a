import AccessControl.Number.Text
import AccessControl.Timestamp.Text

/-! # SQL statements

The conditions of a `WHERE` clause, as a tree, and the queries that have them.  A value enters a
condition only as a `Parameter`, so that a statement can be written with its values or with
placeholders for them.

A statement is written once, as a `Statement` of fixed text with the values in their places.
`Statement.inline` writes the values out, `Statement.prepared` puts placeholders for them, and
`Statement.parameters` lists them, so that all three agree on what stands where. -/

namespace AccessControl.Sql

/-! ### Conditions -/

/-- A value that a statement is given. -/
inductive Parameter where
  | null
  | text (s : String)
  | number (x : Number)
  | integer (n : Int)
  | boolean (b : Bool)
  | date (t : Timestamp)

/-- What a condition compares: a column of a table, a value, or a function of two such terms. -/
inductive Term where
  | column (table name : String)
  | parameter (p : Parameter)
  | call (function : String) (first second : Term)

/-- How two terms are compared. -/
inductive Comparator where
  | equal
  | different
  | greater
  | less

def Comparator.symbol : Comparator → String
  | equal => "="
  | different => "<>"
  | greater => ">"
  | less => "<"

/-- A condition.  A subquery holds when its table has a row, called by the alias, for which the
inner condition holds. -/
inductive Expression where
  | constant (value : Bool)
  | compare (left : Term) (sign : Comparator) (right : Term)
  | isNull (t : Term)
  | isPresent (t : Term)
  | among (t : Term) (values : List Parameter)
  | subquery (table aliasName : String) (condition : Expression)
  | and (left right : Expression)
  | or (left right : Expression)
  | not (inner : Expression)

/-- The selection of a column of the rows of a table. -/
structure Query where
  table : String
  column : String
  condition : Expression

/-! ### Pieces -/

/-- The language of a database. -/
inductive Dialect where
  | sqlite
  | postgres
deriving DecidableEq

/-- A piece of a statement. -/
inductive Piece where
  | text (s : String)
  | value (p : Parameter)

/-- A statement, piece by piece. -/
abbrev Statement := List Piece

/-! ### From conditions to pieces -/

/-- The name of a table, column or alias between double quotes. -/
def quoteName (name : String) : String :=
  .ofList ('"' :: (name.toList.flatMap (fun c => if c = '"' then ['"', '"'] else [c]) ++ ['"']))

def Term.pieces : Term → Statement
  | column table name => [.text (quoteName table ++ "." ++ quoteName name)]
  | parameter p => [.value p]
  | call function first second =>
    .text (function ++ "(") :: (first.pieces ++ .text ", " :: (second.pieces ++ [.text ")"]))

/-- The pieces of values with commas between them. -/
def valuePieces : List Parameter → Statement
  | [] => []
  | [p] => [.value p]
  | p :: rest => .value p :: .text ", " :: valuePieces rest

/-- The pieces of a membership; nothing is among no values. -/
def membershipPieces (t : Term) : List Parameter → Statement
  | [] => [.value (.integer 1), .text " = ", .value (.integer 2)]
  | values => t.pieces ++ .text " IN (" :: (valuePieces values ++ [.text ")"])

/-- Pieces in parentheses, if these are needed. -/
def parenthesized (needed : Bool) (s : Statement) : Statement :=
  if needed then .text "(" :: (s ++ [.text ")"]) else s

namespace Expression

/-- Whether a condition needs no parentheses below a connective. -/
def bindsTighter : Expression → Bool
  | compare _ _ _ | isNull _ | isPresent _ | among _ _ | subquery _ _ _ => true
  | constant _ | and _ _ | or _ _ | not _ => false

def isConjunction : Expression → Bool
  | and _ _ => true
  | _ => false

def isDisjunction : Expression → Bool
  | or _ _ => true
  | _ => false

/-- The pieces of a condition.  A chain of one connective needs no parentheses on its left. -/
def pieces : Expression → Statement
  | constant value => [.text (if value then "1 = 1" else "1 = 0")]
  | compare left sign right =>
    left.pieces ++ .text (" " ++ sign.symbol ++ " ") :: right.pieces
  | isNull t => t.pieces ++ [.text " IS NULL"]
  | isPresent t => t.pieces ++ [.text " IS NOT NULL"]
  | among t values => membershipPieces t values
  | subquery table aliasName condition =>
    .text "EXISTS(SELECT " :: .value (.integer 1) ::
      .text (" FROM " ++ quoteName table ++ " AS " ++ quoteName aliasName ++ " WHERE ") ::
      (condition.pieces ++ [.text ")"])
  | and left right =>
    parenthesized (!left.bindsTighter && !left.isConjunction) left.pieces ++
      .text " AND " :: parenthesized (!right.bindsTighter) right.pieces
  | or left right =>
    parenthesized (!left.bindsTighter && !left.isDisjunction) left.pieces ++
      .text " OR " :: parenthesized (!right.bindsTighter) right.pieces
  | not inner => .text "NOT " :: parenthesized (!inner.bindsTighter) inner.pieces

end Expression

def Query.pieces (q : Query) : Statement :=
  .text ("SELECT " ++ quoteName q.table ++ "." ++ quoteName q.column ++ " FROM " ++
    quoteName q.table ++ " WHERE ") :: q.condition.pieces

/-! ### From pieces to text -/

namespace Dialect

/-- A character of a string that may hold escapes. -/
def escape (c : Char) : List Char :=
  match c with
  | '\\' => ['\\', '\\']
  | '"' => ['\\', '"']
  | '\'' => ['\\', '\'']
  | '\x00' => ['\\', '0']
  | '\x08' => ['\\', 'b']
  | '\t' => ['\\', 't']
  | '\x1a' => ['\\', 'z']
  | '\n' => ['\\', 'n']
  | '\r' => ['\\', 'r']
  | c => [c]

/-- A string between single quotes.  One dialect doubles the quotes in it; the other escapes them
with backslashes, and marks a string that has any. -/
def quoteText (d : Dialect) (s : String) : String :=
  match d with
  | sqlite =>
    let doubled := s.toList.flatMap fun c => if c = '\'' then ['\'', '\''] else [c]
    "'" ++ .ofList doubled ++ "'"
  | postgres =>
    let escaped := s.toList.flatMap escape
    (if escaped.contains '\\' then "E'" else "'") ++ .ofList escaped ++ "'"

def writeValue (d : Dialect) : Parameter → String
  | .null => "NULL"
  | .text s => d.quoteText s
  | .number x => x.write
  | .integer n => .ofList (Text.signedDecimal n)
  | .boolean b => if b then "TRUE" else "FALSE"
  | .date t => "'" ++ t.writeMicroseconds ++ "'"

/-- The placeholder of the value with a number. -/
def placeholder (d : Dialect) (number : Nat) : String :=
  match d with
  | sqlite => "?"
  | postgres => "$" ++ .ofList (Text.decimal number)

end Dialect

namespace Statement

/-- The text of a statement with its values written out. -/
def inline (d : Dialect) : Statement → String
  | [] => ""
  | .text s :: rest => s ++ inline d rest
  | .value p :: rest => d.writeValue p ++ inline d rest

/-- The text of the pieces after `earlier` values, with placeholders. -/
def preparedAfter (d : Dialect) (earlier : Nat) : Statement → String
  | [] => ""
  | .text s :: rest => s ++ preparedAfter d earlier rest
  | .value _ :: rest => d.placeholder (earlier + 1) ++ preparedAfter d (earlier + 1) rest

/-- The text of a statement with placeholders. -/
def prepared (d : Dialect) (s : Statement) : String := preparedAfter d 0 s

/-- The values of a statement in the order of their places. -/
def parameters : Statement → List Parameter
  | [] => []
  | .text _ :: rest => parameters rest
  | .value p :: rest => p :: parameters rest

end Statement
end AccessControl.Sql
