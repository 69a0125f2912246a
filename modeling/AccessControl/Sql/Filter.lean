import AccessControl.Filter
import AccessControl.Sql.Statement

/-! # Filters in SQL

A `Schema` says in which table the records of a type are, which columns hold their fields, and by
which columns related records are joined.  `Schema.language` is the vocabulary of SQL for
`Plan.render`.

Comparisons are written so that a null column makes them true or false and never unknown, and each
relation becomes a subquery on a table with an alias of its own.  On sqlite, where dates are text,
both sides of a date comparison are brought to one layout with milliseconds in UTC. -/

namespace AccessControl.Sql

/-! ### Schemas -/

/-- How the rows of a relation are found: those of the target's table whose remote column equals the
local column. -/
structure Join where
  target : String
  localColumn : String
  remoteColumn : String

/-- The table of a type; a field without an entry is in the column of its name. -/
structure TableMapping where
  table : String
  columns : List (String × String)
  joins : List (String × Join)

/-- The column of a field. -/
def TableMapping.columnFor (m : TableMapping) (field : String) : String :=
  (m.columns.lookup field).getD field

/-- The tables of the types in a database. -/
structure Schema where
  dialect : Dialect
  tables : List (String × TableMapping)

def Schema.table (s : Schema) (type : String) : Except Failure TableMapping :=
  match s.tables.lookup type with
  | some m => .ok m
  | none => .error (.unknownType type)

/-! ### Groups of conditions -/

/-- What joins the members of a group. -/
inductive Junction where
  | all
  | any

/-- Conditions joined to one, and whether the whole is negated.  That a negation is kept apart makes
a double negation disappear. -/
structure Group where
  negated : Bool
  junction : Junction
  members : List Expression

namespace Group

def single (e : Expression) : Group := ⟨false, .all, [e]⟩

/-- Two conditions joined. -/
def connect : Junction → Expression → Expression → Expression
  | .all => .and
  | .any => .or

/-- The members of a group joined from left to right. -/
def joined (g : Group) : Expression :=
  match g.members with
  | [] => .constant (match g.junction with | .all => true | .any => false)
  | first :: rest => rest.foldl (connect g.junction) first

/-- A group as one condition. -/
def toExpression (g : Group) : Expression := if g.negated then .not g.joined else g.joined

/-- A group that is negated once more. -/
def negate (g : Group) : Group := ⟨!g.negated, g.junction, g.members⟩

/-- The group that every row satisfies. -/
def always : Group := single (.constant true)

def all : List Group → Group
  | [] => always
  | groups => ⟨false, .all, groups.map toExpression⟩

def any : List Group → Group
  | [] => single (.constant false)
  | groups => ⟨false, .any, groups.map toExpression⟩

end Group

/-! ### Comparisons -/

/-- A step along a relation: the table that it leads to, by its alias, and the columns that join it
to the table before. -/
structure Hop where
  table : String
  aliasName : String
  remoteColumn : String
  outerAlias : String
  localColumn : String

/-- The table that comparisons speak of, and the steps that led to it, the last one first. -/
structure Place where
  type : String
  aliasName : String
  hops : List Hop

/-- The layout of dates on sqlite, in the words of its own date function. -/
def dateLayout : String := "%Y-%m-%dT%H:%M:%fZ"

/-- The value of a comparison as a parameter. -/
def bind (d : Dialect) : Value → Parameter
  | .string s => .text s
  | .number x => .number x
  | .boolean b => .boolean b
  | .date t =>
    match d with
    | .sqlite => .text t.writeMilliseconds
    | .postgres => .date t
  | .null | .list _ => .null

/-- The column of a comparison with a value, in the layout of dates if the value is one. -/
def comparedTerm (d : Dialect) (column : Term) (value : Value) : Term :=
  if d = .sqlite ∧ value.type? = some .date then
    .call "strftime" (.parameter (.text dateLayout)) column
  else column

/-- The position at which a text occurs in a column; it is above zero if there is one. -/
def positionOf (d : Dialect) (column : Term) (part : String) : Term :=
  .call (match d with | .sqlite => "INSTR" | .postgres => "STRPOS") column (.parameter (.text part))

/-- The test of a comparison for a column that is not null. -/
def presentTest (d : Dialect) (field : String) (column : Term) (operator : Operator)
    (value : Value) : Except Failure Expression :=
  let left := comparedTerm d column value
  let right := Term.parameter (bind d value)
  match operator, value with
  | .equals, _ => .ok (.compare left .equal right)
  | .notEquals, _ => .ok (.compare left .different right)
  | .greater, _ => .ok (.compare left .greater right)
  | .less, _ => .ok (.compare left .less right)
  | .isIn, .list items => .ok (.among left (items.map (bind d)))
  | .isIn, _ => .ok (.compare left .equal right)
  | .contains, .string part =>
    .ok (.compare (positionOf d column part) .greater (.parameter (.integer 0)))
  | .contains, other => .error (.unsupportedOperator field operator.symbol other.kind)

/-- A comparison of a column with a value; a null column satisfies `!=` only. -/
def leaf (d : Dialect) (field : String) (column : Term) (operator : Operator) (value : Value) :
    Except Failure Expression := do
  let test ← presentTest d field column operator value
  return match operator with
    | .notEquals => .or (.isNull column) test
    | _ => .and (.isPresent column) test

/-- The condition that holds when a row at the end of a step satisfies the inner one. -/
def Hop.within (inner : Group) (h : Hop) : Group :=
  let correlation : Expression :=
    .compare (.column h.aliasName h.remoteColumn) .equal (.column h.outerAlias h.localColumn)
  let row := Group.joined ⟨false, .all, [correlation, inner.toExpression]⟩
  .single (.subquery h.table h.aliasName row)

namespace Schema

/-- The table of a type as the place where filters start. -/
def place (s : Schema) (type : String) : Except Failure Place := do
  return ⟨type, (← s.table type).table, []⟩

/-- A comparison at a place. -/
def compareAt (s : Schema) (p : Place) (field : String) (operator : Operator) (value : Value) :
    Except Failure Group := do
  let column := Term.column p.aliasName ((← s.table p.type).columnFor field)
  let e ← leaf s.dialect field column operator value
  -- the last hop makes the innermost subquery
  return p.hops.foldl Hop.within (.single e)

/-- The alias of the table that the step with a number leads to. -/
def aliasOf (number : Nat) (table : String) : String :=
  "h" ++ .ofList (Text.decimal number) ++ "_" ++ table

/-- The place at the end of a relation. -/
def traverse (s : Schema) (p : Place) (relation : String) : Except Failure Place := do
  match (← s.table p.type).joins.lookup relation with
  | none => throw (.unknownRelation p.type relation)
  | some join =>
    let target ← s.table join.target
    let aliasName := aliasOf (p.hops.length + 1) target.table
    return ⟨join.target, aliasName,
      ⟨target.table, aliasName, join.remoteColumn, p.aliasName, join.localColumn⟩ :: p.hops⟩

/-- The vocabulary of SQL filters over a schema. -/
def language (s : Schema) : FilterLanguage Place Group where
  compare := s.compareAt
  traverse := s.traverse
  all := .all
  any := .any
  not := .negate
  always := .always

/-- The query for a column of the rows of a type that satisfy a filter. -/
def select (s : Schema) (type column : String) (filter : Group) : Except Failure Query := do
  return ⟨(← s.table type).table, column, filter.toExpression⟩

end Schema
end AccessControl.Sql
