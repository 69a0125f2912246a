import AccessControl.Proofs.Sql.Filter
import AccessControl.Proofs.Value

/-! # Comparisons of columns

A column that holds the value of a field, or null if there is none, is compared in SQL the way the
field is compared in memory: the condition is never unknown, and it is true exactly if the
comparison holds (`truth_leaf`).  Everything rests on one fact, that values of one type are ordered
in their cells the way they are ordered as values (`order?_bind`). -/

namespace AccessControl.Sql

/-! ### Cells and values -/

/-- Whether a database compares a value exactly: numbers are numbers, and the dates of sqlite are
cut off after the milliseconds. -/
def IsExact (d : Dialect) : Value → Prop
  | .number x => x ≠ .nan
  | .date t => d = .sqlite → t.InMilliseconds
  | _ => True

/-- Whether a database compares a value, or the items of a list, exactly. -/
def IsExactOperand (d : Dialect) : Value → Prop
  | .list items => ∀ x ∈ items, IsExact d x
  | v => IsExact d v

/-- Whether a cell stores a value: the way it would be given to a statement, except that a date on
sqlite is any text that the engine reads as the date. -/
def Engine.Stores (e : Engine) (d : Dialect) (x : Value) (cell : Cell) : Prop :=
  match d, x with
  | .sqlite, .date t => ∃ s, cell = .text s ∧ e.readTime? s = some t
  | _, _ => cell = bind d x

/-- Whether a cell holds the value of a field that is compared as a declared type; no value is no
cell. -/
inductive Holds (e : Engine) (d : Dialect) (declared : ValueType) : Value → Cell → Prop where
  | null : Holds e d declared .null .null
  | value {v x : Value} {cell : Cell} : v.coerce? declared = some x → IsExact d x →
      e.Stores d x cell → Holds e d declared v cell

section cells
variable {d : Dialect} {t : ValueType} {x y : Value}

theorem isNull_bind (h : Literal.naturalType? x = some t) : (bind d x).isNull = false := by
  cases x <;> try cases h
  all_goals cases d <;> rfl

/-- The cells of two dates are ordered by their positions. -/
theorem order?_bind_date {s t : Timestamp} (hs : d = .sqlite → s.InMilliseconds)
    (ht : d = .sqlite → t.InMilliseconds) :
    (bind d (.date s)).order? (bind d (.date t)) = some (compare s.position t.position) := by
  cases d with
  | sqlite => exact congrArg some ((hs rfl).compare_writeMilliseconds (ht rfl))
  | postgres => rfl

theorem IsExact.ne_nan (h : IsExact d x) : x ≠ .number .nan := by
  rintro rfl
  exact h rfl

/-- Values of one type are ordered in their cells the way they are ordered as values. -/
theorem order?_bind (hx : Literal.naturalType? x = some t) (hy : Literal.naturalType? y = some t)
    (hxe : IsExact d x) (hye : IsExact d y) : (bind d x).order? (bind d y) = x.order? y := by
  match x, y with
  | .string _, .string _ | .boolean _, .boolean _ => cases d <;> rfl
  | .date u, .date v => exact order?_bind_date hxe hye
  | .number m, .number n =>
      obtain ⟨a, ha⟩ := Number.position?_of_ne_nan hxe
      obtain ⟨b, hb⟩ := Number.position?_of_ne_nan hye
      cases d <;> simp only [bind, Parameter.order?, Value.order?, ha, hb] <;> rfl

/-- Comparing the cells of two values of one type is never unknown. -/
theorem compare_bind (e : Engine) (hx : Literal.naturalType? x = some t)
    (hy : Literal.naturalType? y = some t) {o : Ordering}
    (ho : (bind d x).order? (bind d y) = some o) (sign : Comparator) :
    e.compare (bind d x) sign (bind d y) = some (sign.admits o) := by
  simp only [Engine.compare, isNull_bind hx, isNull_bind hy, Bool.or_self, Bool.false_eq_true,
    if_false, ho]

theorem compare_bind_equal (e : Engine) (hx : Literal.naturalType? x = some t)
    (hy : Literal.naturalType? y = some t) (hxe : IsExact d x) (hye : IsExact d y) :
    e.compare (bind d x) .equal (bind d y) = some (x.same y) := by
  obtain ⟨o, ho⟩ := Value.exists_order? hx hy hxe.ne_nan hye.ne_nan
  rw [compare_bind e hx hy ((order?_bind hx hy hxe hye).trans ho), Value.same_of_order? ho]
  rfl

end cells

/-! ### Functions -/

/-- Where a text occurs in another, its place is above zero. -/
theorem occurrence_pos (part : List Char) : ∀ whole : List Char,
    decide (0 < occurrence part whole) = occursIn part whole
  | [] => by
      unfold occurrence occursIn
      cases part.isEmpty <;> rfl
  | c :: cs => by
      have ih := occurrence_pos part cs
      unfold occurrence occursIn
      cases hprefix : part.isPrefixOf (c :: cs) with
      | true => rfl
      | false =>
          rw [Bool.false_or, ← ih]
          cases occurrence part cs <;> simp

/-- The layout of dates on sqlite is that of the text of a timestamp cut off after the milliseconds. -/
theorem formatted?_dateLayout {t : Timestamp} (h : t.InMilliseconds) :
    formatted? t dateLayout.toList = some t.writeMilliseconds.toList := by
  have hparts : formatted? t dateLayout.toList = some (Text.paddedDecimal 4 t.date.year.toNat ++
      '-' :: (Text.paddedDecimal 2 t.date.month ++ '-' :: (Text.paddedDecimal 2 t.date.day ++
        'T' :: (Text.paddedDecimal 2 t.hour ++ ':' :: (Text.paddedDecimal 2 t.minute ++
          ':' :: ((Text.paddedDecimal 2 t.clockSecond ++
            '.' :: Text.paddedDecimal 3 (t.fraction / 1000000)) ++ ['Z'])))))) := rfl
  rw [hparts, Timestamp.writeMilliseconds_eq h.year, String.toList_ofList, List.append_assoc,
    List.cons_append]

section terms
variable {e : Engine} {d : Dialect} {rows : Rows} {t : ValueType} {x v : Value} {cell : Cell}
  {column : Term}

/-- The left side of a comparison has the value that would be given to a statement for the value of
the column. -/
theorem value_comparedTerm (he : e.Documented d) (hx : Literal.naturalType? x = some t)
    (hxe : IsExact d x) (hcell : e.Stores d x cell) (hcolumn : column.value e rows = cell)
    (hv : v.type? = some t) : (comparedTerm d column v).value e rows = bind d x := by
  by_cases hdate : d = .sqlite ∧ v.type? = some .date
  · obtain ⟨rfl, hvdate⟩ := hdate
    rw [hv] at hvdate
    cases hvdate
    match x with
    | .date u =>
        obtain ⟨s, hs, hread⟩ := hcell
        have hu := hxe rfl
        rw [comparedTerm, if_pos ⟨rfl, hv⟩]
        simp only [Term.value, hcolumn, hs, bind]
        rw [he.strftime rfl dateLayout s u _ hread hu (formatted?_dateLayout hu), String.ofList_toList]
  · rw [comparedTerm, if_neg hdate, hcolumn]
    cases d with
    | postgres => exact hcell
    | sqlite =>
        match x with
        | .date u =>
            cases hx
            exact absurd ⟨rfl, hv⟩ hdate
        | .string _ => exact hcell
        | .number _ => exact hcell
        | .boolean _ => exact hcell

/-- Where a text occurs in a column, its position there is above zero. -/
theorem truth_positionOf (he : e.Documented d) (db : Database) {whole part : String}
    (hcolumn : column.value e rows = .text whole) :
    (Expression.compare (positionOf d column part) .greater (.parameter (.integer 0))).truth e db rows =
      some (occursIn part.toList whole.toList) := by
  have hposition : (positionOf d column part).value e rows =
      .integer (occurrence part.toList whole.toList) := by
    cases d with
    | sqlite =>
        simp only [positionOf, Term.value, hcolumn]
        exact he.instr rfl whole part
    | postgres =>
        simp only [positionOf, Term.value, hcolumn]
        exact he.strpos rfl whole part
  rw [Expression.truth, hposition, ← occurrence_pos]
  simp only [Term.value, Engine.compare, Parameter.isNull, Bool.or_self, Bool.false_eq_true,
    if_false, Parameter.order?, Comparator.admits, ← decide_gt_eq_compare]
  simp

/-- A value is among others if one of these is the same. -/
theorem truth_among (hx : Literal.naturalType? x = some t) (hxe : IsExact d x)
    {term : Term} (hterm : term.value e rows = bind d x) (db : Database) : ∀ items : List Value,
    (∀ y ∈ items, Literal.naturalType? y = some t) → (∀ y ∈ items, IsExact d y) →
    (Expression.among term (items.map (bind d))).truth e db rows = some (items.any (·.same x))
  | [], _, _ => rfl
  | y :: rest, hitems, hexact => by
      obtain ⟨hy, hrest⟩ := List.forall_mem_cons.mp hitems
      obtain ⟨hye, hreste⟩ := List.forall_mem_cons.mp hexact
      have ih := truth_among hx hxe hterm db rest hrest hreste
      simp only [Expression.truth] at ih ⊢
      rw [List.map_cons, List.foldr_cons, ih, hterm, compare_bind_equal e hx hy hxe hye,
        Truth.or_some, Value.same_comm x y, List.any_cons]

end terms

/-! ### Tests -/

section leaf
variable {e : Engine} {d : Dialect} {db : Database} {rows : Rows} {t : ValueType}
  {actual x v : Value} {cell : Cell} {column : Term} {field : String} {operator : Operator}

theorem isExact_of_operand (hv : Literal.naturalType? v = some t) (h : IsExactOperand d v) :
    IsExact d v := by
  cases v <;> first | exact h | cases hv

theorem isNull_of_stores (hx : Literal.naturalType? x = some t) (hcell : e.Stores d x cell) :
    cell.isNull = false := by
  match d, x with
  | .sqlite, .date _ =>
      obtain ⟨s, rfl, -⟩ := hcell
      rfl
  | .sqlite, .string _ | .sqlite, .number _ | .sqlite, .boolean _ | .postgres, _ =>
      rw [show cell = bind _ _ from hcell]
      exact isNull_bind hx

/-- Comparing a column with a value of its type comes to how the two are ordered. -/
theorem truth_compare (he : e.Documented d) (db : Database) (hx : Literal.naturalType? x = some t)
    (hxe : IsExact d x) (hcell : e.Stores d x cell) (hcolumn : column.value e rows = cell)
    (hv : Literal.naturalType? v = some t) (hve : IsExact d v) :
    ∃ o, (∀ sign, (Expression.compare (comparedTerm d column v) sign
        (.parameter (bind d v))).truth e db rows = some (sign.admits o)) ∧
      x.same v = (o == .eq) ∧
      (t.isOrdered = true → x.isBelow v = (o == .lt) ∧ v.isBelow x = (o == .gt)) := by
  obtain ⟨o, ho⟩ := Value.exists_order? hx hv hxe.ne_nan hve.ne_nan
  refine ⟨o, fun sign => ?_, Value.same_of_order? ho, fun ht => Value.isBelow_of_order? hx ht ho⟩
  rw [Expression.truth, value_comparedTerm he hx hxe hcell hcolumn (Value.type?_of_naturalType? hv)]
  exact compare_bind e hx hv ((order?_bind hx hv hxe hve).trans ho) sign

/-- The test of a column that holds a value comes to what the comparison of the value does. -/
theorem truth_presentTest (he : e.Documented d) (hactual : actual.coerce? t = some x)
    (hxe : IsExact d x) (hcell : e.Stores d x cell) (hcolumn : column.value e rows = cell)
    (hv : v.Suits operator t) (hve : IsExactOperand d v)
    (hordered : operator.needsOrder = true → t.isOrdered = true) {test : Expression}
    (htest : presentTest d field column operator v = .ok test) :
    (test.truth e db rows).IsOutcome (comparePresent field t operator actual v) := by
  have hx := Value.naturalType?_of_coerce? hactual
  have hleft := value_comparedTerm he hx hxe hcell hcolumn hv.type?
  have hcoerce : coerceField field t actual = .ok x := by
    rw [coerceField, hactual]
  cases operator with
  | isIn =>
      obtain ⟨first, rest, rfl, hitems⟩ := hv
      cases htest
      refine ⟨_, truth_among hx hxe hleft db (first :: rest) hitems hve, ?_⟩
      simp only [comparePresent, hcoerce, Value.isAmong]
      rfl
  | contains =>
      match v with
      | .string part =>
          cases htest
          cases hv
          match actual with
          | .string whole =>
              cases hactual
              have hwhole : cell = .text whole := by
                cases d <;> exact hcell
              exact ⟨_, truth_positionOf he db (hcolumn.trans hwhole), rfl⟩
      | .null | .number _ | .boolean _ | .date _ | .list _ => cases htest
  | equals =>
      obtain ⟨o, htruth, hsame, -⟩ :=
        truth_compare he db hx hxe hcell hcolumn hv (isExact_of_operand hv hve)
      cases htest
      refine ⟨_, htruth .equal, ?_⟩
      simp only [comparePresent, hcoerce, ok_bind, hsame]
      rfl
  | notEquals =>
      obtain ⟨o, htruth, hsame, -⟩ :=
        truth_compare he db hx hxe hcell hcolumn hv (isExact_of_operand hv hve)
      cases htest
      refine ⟨_, htruth .different, ?_⟩
      simp only [comparePresent, hcoerce, ok_bind, hsame]
      rfl
  | greater =>
      obtain ⟨o, htruth, -, hbelow⟩ :=
        truth_compare he db hx hxe hcell hcolumn hv (isExact_of_operand hv hve)
      cases htest
      refine ⟨_, htruth .greater, ?_⟩
      simp only [comparePresent, hcoerce, ok_bind, (hbelow (hordered rfl)).2]
      rfl
  | less =>
      obtain ⟨o, htruth, -, hbelow⟩ :=
        truth_compare he db hx hxe hcell hcolumn hv (isExact_of_operand hv hve)
      cases htest
      refine ⟨_, htruth .less, ?_⟩
      simp only [comparePresent, hcoerce, ok_bind, (hbelow (hordered rfl)).1]
      rfl

/-- A comparison of a column comes to what the comparison of the field does, whether or not there is
a value. -/
theorem truth_leaf (he : e.Documented d) {actual? : Option Value}
    (hholds : Holds e d t (actual?.getD .null) cell) (hcolumn : column.value e rows = cell)
    (hv : v.Suits operator t) (hve : IsExactOperand d v)
    (hordered : operator.needsOrder = true → t.isOrdered = true) {test : Expression}
    (htest : leaf d field column operator v = .ok test) :
    (test.truth e db rows).IsOutcome (compareField field actual? operator v) := by
  obtain ⟨present, hpresent, htest⟩ := bind_eq_ok.mp htest
  unfold compareField
  generalize actual?.getD .null = actual at hholds
  cases hholds with
  | null =>
      -- only `!=` is true of no value
      refine ⟨operator == .notEquals, ?_, rfl⟩
      cases operator <;> cases htest <;>
        simp only [Expression.truth, hcolumn, Parameter.isNull, Truth.or_true_left, Bool.not_true,
          Truth.and_false_left] <;> rfl
  | value hcoerce hxe hcell =>
      have hactual : actual.isNull = false := by
        cases actual <;> first | rfl | (cases t <;> cases hcoerce)
      have hcellNull : cell.isNull = false :=
        isNull_of_stores (Value.naturalType?_of_coerce? hcoerce) hcell
      have htruth : test.truth e db rows = present.truth e db rows := by
        cases operator <;> cases htest <;>
          simp only [Expression.truth, hcolumn, hcellNull, Truth.or_false_left, Bool.not_false,
            Truth.and_true_left]
      simp only [hactual, Bool.false_eq_true, if_false, hv.type?]
      rw [htruth]
      exact truth_presentTest he hcoerce hxe hcell hcolumn hv hve hordered hpresent

end leaf

end AccessControl.Sql
