import AccessControl.Proofs.Timestamp
import AccessControl.Sql.Filter

/-! # What SQL conditions mean

A condition is read for the rows in scope in the three-valued logic of SQL: comparing with `NULL` is
unknown, and so is what depends on it (`Expression.truth`).  What a database engine does by itself,
its functions and its reading of texts as times, is an `Engine`; `Engine.Documented` is what the
manuals of the engines say about the functions that filters call. -/

namespace AccessControl.Sql

/-! ### Truth -/

/-- A truth value of SQL; `none` is `UNKNOWN`. -/
abbrev Truth := Option Bool

namespace Truth

/-- What a conjunction is worth. -/
def and : Truth → Truth → Truth
  | some false, _ => some false
  | _, some false => some false
  | some true, some true => some true
  | _, _ => none

/-- What a disjunction is worth. -/
def or : Truth → Truth → Truth
  | some true, _ => some true
  | _, some true => some true
  | some false, some false => some false
  | _, _ => none

/-- What a negation is worth. -/
def not : Truth → Truth
  | some b => some !b
  | none => none

theorem and_some (a b : Bool) : and (some a) (some b) = some (a && b) := by
  cases a <;> cases b <;> rfl

theorem or_some (a b : Bool) : or (some a) (some b) = some (a || b) := by
  cases a <;> cases b <;> rfl

@[simp] theorem and_false_left (x : Truth) : and (some false) x = some false := rfl

@[simp] theorem and_true_left (x : Truth) : and (some true) x = x := by
  rcases x with _ | _ | _ <;> rfl

@[simp] theorem or_true_left (x : Truth) : or (some true) x = some true := rfl

@[simp] theorem or_false_left (x : Truth) : or (some false) x = x := by
  rcases x with _ | _ | _ <;> rfl

theorem not_not (x : Truth) : not (not x) = x := by
  rcases x with _ | _ | _ <;> rfl

/-- A conjunction is true exactly if both sides are. -/
theorem and_eq_true {x y : Truth} : and x y = some true ↔ x = some true ∧ y = some true := by
  rcases x with _ | _ | _ <;> rcases y with _ | _ | _ <;> simp [and]

end Truth

/-! ### Rows -/

/-- What a row holds in a column. -/
abbrev Cell := Parameter

/-- The cells of a row, by column. -/
abbrev Row := String → Cell

/-- The rows of each table. -/
abbrev Database := String → List Row

/-- The rows in scope, by the names of their tables, the innermost first. -/
abbrev Rows := List (String × Row)

/-- Whether a cell is null. -/
def Parameter.isNull : Parameter → Bool
  | null => true
  | _ => false

/-- How two cells of one kind are ordered; a number that is none has no place. -/
def Parameter.order? : Parameter → Parameter → Option Ordering
  | text s, text t => some (compare s t)
  | number x, number y =>
    match x.position?, y.position? with
    | some a, some b => some (compare a b)
    | _, _ => none
  | integer m, integer n => some (compare m n)
  | boolean a, boolean b => some (compare a b)
  | date s, date t => some (compare s.position t.position)
  | _, _ => none

/-- Whether a sign admits an order. -/
def Comparator.admits : Comparator → Ordering → Bool
  | equal, o => o == .eq
  | different, o => o != .eq
  | greater, o => o == .gt
  | less, o => o == .lt

/-! ### Engines -/

/-- What a database engine decides by itself: its functions of two arguments, the time that a text
denotes, and comparisons of cells of different kinds. -/
structure Engine where
  call : String → Cell → Cell → Cell
  readTime? : String → Option Timestamp
  compareMixed : Cell → Comparator → Cell → Truth

/-- The text of a directive of a date layout. -/
def directive? (t : Timestamp) : Char → Option (List Char)
  | 'Y' => some (Text.paddedDecimal 4 t.date.year.toNat)
  | 'm' => some (Text.paddedDecimal 2 t.date.month)
  | 'd' => some (Text.paddedDecimal 2 t.date.day)
  | 'H' => some (Text.paddedDecimal 2 t.hour)
  | 'M' => some (Text.paddedDecimal 2 t.minute)
  | 'S' => some (Text.paddedDecimal 2 t.clockSecond)
  | 'f' => some (Text.paddedDecimal 2 t.clockSecond ++
      '.' :: Text.paddedDecimal 3 (t.fraction / 1000000))
  | '%' => some ['%']
  | _ => none

/-- A time in a date layout, if all directives of the layout are known. -/
def formatted? (t : Timestamp) : List Char → Option (List Char)
  | [] => some []
  | '%' :: c :: rest => do return (← directive? t c) ++ (← formatted? t rest)
  | c :: rest => do return c :: (← formatted? t rest)

/-- The place at which a text first occurs in another, counted from one, or zero. -/
def occurrence (part : List Char) : List Char → Nat
  | [] => if part.isEmpty then 1 else 0
  | c :: cs =>
    if part.isPrefixOf (c :: cs) then 1
    else match occurrence part cs with
      | 0 => 0
      | n + 1 => n + 2

/-- What the manuals say about the functions that filters call: the position of a text in another,
and on sqlite a text that denotes a time in a layout. -/
structure Engine.Documented (e : Engine) (d : Dialect) : Prop where
  instr : d = .sqlite → ∀ whole part : String,
    e.call "INSTR" (.text whole) (.text part) = .integer (occurrence part.toList whole.toList)
  strpos : d = .postgres → ∀ whole part : String,
    e.call "STRPOS" (.text whole) (.text part) = .integer (occurrence part.toList whole.toList)
  strftime : d = .sqlite → ∀ (layout s : String) (t : Timestamp) (text : List Char),
    e.readTime? s = some t → t.InMilliseconds → formatted? t layout.toList = some text →
    e.call "strftime" (.text layout) (.text s) = .text (.ofList text)

namespace Engine

/-- What a comparison of two cells is worth. -/
def compare (e : Engine) (a : Cell) (sign : Comparator) (b : Cell) : Truth :=
  if a.isNull || b.isNull then none
  else match a.order? b with
    | some o => some (sign.admits o)
    | none => e.compareMixed a sign b

end Engine

/-! ### Conditions -/

/-- The value of a term. -/
def Term.value (e : Engine) (rows : Rows) : Term → Cell
  | column table name =>
    match rows.lookup table with
    | some row => row name
    | none => .null
  | parameter p => p
  | call function first second => e.call function (value e rows first) (value e rows second)

/-- What a condition is worth for the rows in scope. -/
def Expression.truth (e : Engine) (db : Database) (rows : Rows) : Expression → Truth
  | constant b => some b
  | compare left sign right => e.compare (left.value e rows) sign (right.value e rows)
  | isNull t => some (t.value e rows).isNull
  | isPresent t => some !(t.value e rows).isNull
  | among t values =>
    values.foldr (fun v rest => (e.compare (t.value e rows) .equal v).or rest) (some false)
  | subquery table aliasName condition =>
    some ((db table).any fun row => truth e db ((aliasName, row) :: rows) condition == some true)
  | and left right => (truth e db rows left).and (truth e db rows right)
  | or left right => (truth e db rows left).or (truth e db rows right)
  | not inner => (truth e db rows inner).not

end AccessControl.Sql
