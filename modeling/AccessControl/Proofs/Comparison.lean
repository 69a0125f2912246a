import AccessControl.Proofs.Binding
import AccessControl.Proofs.Condition.Meaning
import AccessControl.Proofs.Plan
import AccessControl.Proofs.Value

/-! # The algebra of operators

`compareField` goes its own way for each operator, and the declared type is found out from the operand.
Nevertheless the operators belong together (`OperatorLaws`): `!=` is the negation of `==`, `contains`
asks a list for `==` with one item after another, and of `>`, `<` and `==` at most one holds, and one
does where numbers or dates are compared.  Likewise `in` asks for `==` with one value after another
(`compareField_isIn`).  Failures are the same on both sides.

For fields of the resource itself this carries over to conditions: a negated `==` is a `!=`, and `in`
is a group of `==` (`Comparison.operator_laws`). -/

namespace AccessControl

/-- The operators that tell where one value stands to another. -/
def Operator.ordering : List Operator := [.greater, .less, .equals]

/-- Whether a value is an operand or, if that is a list, one of its items. -/
def Value.Offers (v w : Value) : Prop := w = v ∨ ∃ items, v = .list items ∧ w ∈ items

/-- What the operators have to do with one another, when the value of a field is compared with an
operand of a declared type.  A list has no place among numbers or dates, so `total` is about single
values. -/
structure OperatorLaws (field : String) (actual? : Option Value) (declared : ValueType) (w : Value) :
    Prop where
  notEquals : compareField field actual? .notEquals w =
    (compareField field actual? .equals w).map not
  contains : ∀ items, actual? = some (.list items) →
    compareField field actual? .contains w =
      items.anyM fun x => compareField field (some x) .equals w
  exclusive : ∀ o ∈ Operator.ordering, ∀ o' ∈ Operator.ordering,
    compareField field actual? o w = .ok true → compareField field actual? o' w = .ok true → o = o'
  total : declared.isOrdered = true → Literal.naturalType? w = some declared → w ≠ .number .nan →
    ∀ actual x, actual? = some actual → actual.coerce? declared = some x → x ≠ .number .nan →
      ∃ o ∈ Operator.ordering, ∀ o' ∈ Operator.ordering,
        compareField field actual? o' w = .ok (o' == o)

namespace Value

theorem isNull_of_coerce? {v x : Value} {t : ValueType} (h : v.coerce? t = some x) :
    v.isNull = false := by
  cases v with
  | null => cases t <;> cases h
  | _ => rfl

/-- All values that an operand offers have its declared type. -/
theorem Suits.type?_of_offers {v w : Value} {operator : Operator} {declared : ValueType}
    (h : v.Suits operator declared) (hw : v.Offers w) : w.type? = some declared := by
  rcases hw with rfl | ⟨items, rfl, hw⟩
  · exact h.type?
  · by_cases hop : operator = .isIn
    · subst hop
      obtain ⟨first, rest, hitems, htypes⟩ := h
      cases hitems
      exact type?_of_naturalType? (htypes w hw)
    · cases (suits_of_ne hop).mp h

end Value

/-! ### One field value -/

section laws
variable {field : String} {actual? : Option Value} {operator : Operator} {declared : ValueType}
  {actual x w : Value}

theorem compareField_of_null (h : (actual?.getD .null).isNull = true) :
    compareField field actual? operator w = .ok (operator == .notEquals) := by
  unfold compareField
  exact if_pos h

theorem compareField_of_present (h : (actual?.getD .null).isNull = false)
    (hw : w.type? = some declared) : compareField field actual? operator w =
      comparePresent field declared operator (actual?.getD .null) w := by
  unfold compareField
  simp only [h, Bool.false_eq_true, if_false, hw]

theorem compareField_notEquals (hw : w.type? = some declared) :
    compareField field actual? .notEquals w = (compareField field actual? .equals w).map not := by
  cases hnull : (actual?.getD .null).isNull with
  | true =>
      rw [compareField_of_null hnull, compareField_of_null hnull]
      rfl
  | false =>
      rw [compareField_of_present hnull hw, compareField_of_present hnull hw, comparePresent,
        comparePresent]
      cases coerceField field declared (actual?.getD .null) <;> rfl

/-- `contains` asks a list for `==` with one item after another. -/
theorem compareField_contains (hw : w.type? = some declared) (items : List Value) :
    compareField field (some (.list items)) .contains w =
      items.anyM fun x => compareField field (some x) .equals w := by
  have hwithin : ∀ items : List Value, compareField field (some (.list items)) .contains w =
      holdsItem field declared w items := fun items => compareField_of_present rfl hw
  rw [hwithin]
  induction items with
  | nil => rfl
  | cons item rest ih =>
      rw [List.anyM_cons, holdsItem]
      cases hnull : item.isNull with
      | true =>
          -- nulls are passed over, and no null equals anything
          have hitem : compareField field (some item) .equals w = .ok false :=
            compareField_of_null hnull
          rw [hitem, if_pos rfl, ok_bind]
          exact ih
      | false =>
          have hitem : compareField field (some item) .equals w =
              comparePresent field declared .equals item w := compareField_of_present hnull hw
          rw [hitem, comparePresent, if_neg Bool.false_ne_true, ← ih]
          cases coerceField field declared item <;> rfl

/-- `in` asks for `==` with one value after another. -/
theorem compareField_isIn {items : List Value} (h : (Value.list items).Suits operator declared) :
    compareField field actual? .isIn (.list items) =
      items.anyM (compareField field actual? .equals) := by
  have hlist := h.type?
  have hitems : ∀ y ∈ items, y.type? = some declared :=
    fun y hy => h.type?_of_offers (.inr ⟨items, rfl, hy⟩)
  cases hnull : (actual?.getD .null).isNull with
  | true =>
      have hfalse : ∀ y ∈ items, compareField field actual? .equals y = .ok false :=
        fun y _ => compareField_of_null hnull
      rw [compareField_of_null hnull, anyM_of_ok hfalse, List.any_eq_false.mpr (by simp)]
      rfl
  | false =>
      have hequals : ∀ y ∈ items, compareField field actual? .equals y =
          (coerceField field declared (actual?.getD .null)).map (·.same y) :=
        fun y hy => compareField_of_present hnull (hitems y hy)
      rw [compareField_of_present hnull hlist, comparePresent]
      cases hx : coerceField field declared (actual?.getD .null) with
      | error e =>
          -- a field value that cannot be read fails at the first of the values, and there is one
          cases items with
          | nil => cases hlist
          | cons first rest =>
              rw [List.anyM_cons, hequals first List.mem_cons_self, hx]
              rfl
      | ok x =>
          rw [hx] at hequals
          rw [anyM_of_ok hequals]
          show Except.ok (items.any (·.same x)) = _
          simp only [Value.same_comm]

/-! ### Greater, less and equal -/

theorem compareField_ordering (field : String) (hx : actual.coerce? declared = some x)
    (hw : w.type? = some declared) :
    compareField field (some actual) .greater w = .ok (w.isBelow x) ∧
      compareField field (some actual) .less w = .ok (x.isBelow w) ∧
      compareField field (some actual) .equals w = .ok (x.same w) := by
  have hpresent : ∀ operator, compareField field (some actual) operator w =
      comparePresent field declared operator actual w :=
    fun operator => compareField_of_present (Value.isNull_of_coerce? hx) hw
  have hcoerce : coerceField field declared actual = .ok x := by rw [coerceField, hx]
  refine ⟨?_, ?_, ?_⟩ <;> rw [hpresent, comparePresent, hcoerce] <;> rfl

/-- A field value equals what it is read as, unless that is `nan`. -/
theorem compareField_of_coerce? (field : String) (hx : actual.coerce? declared = some w)
    (hnan : w ≠ .number .nan) : compareField field (some actual) .equals w = .ok true := by
  have hw := Value.naturalType?_of_coerce? hx
  obtain ⟨-, -, hequals⟩ := compareField_ordering field hx (Value.type?_of_naturalType? hw)
  rw [hequals, Value.same_self hw hnan]

/-- Only a field value that can be read as the declared type is greater, less or equal. -/
theorem exists_coerce?_of_ordering (hw : w.type? = some declared) (ho : operator ∈ Operator.ordering)
    (h : compareField field actual? operator w = .ok true) :
    ∃ actual x, actual? = some actual ∧ actual.coerce? declared = some x := by
  have hdifferent : (operator == .notEquals) = false := by
    simp only [Operator.ordering, List.mem_cons, List.not_mem_nil, or_false] at ho
    rcases ho with rfl | rfl | rfl <;> rfl
  cases hnull : (actual?.getD .null).isNull with
  | true =>
      rw [compareField_of_null hnull, hdifferent] at h
      cases h
  | false =>
      cases actual? with
      | none => cases hnull
      | some actual =>
          cases hx : actual.coerce? declared with
          | some x => exact ⟨actual, x, rfl, hx⟩
          | none =>
              rw [compareField_of_present hnull hw] at h
              simp only [Operator.ordering, List.mem_cons, List.not_mem_nil, or_false] at ho
              rcases ho with rfl | rfl | rfl <;>
                · simp only [comparePresent, coerceField, Option.getD_some, hx] at h
                  cases h

/-- At most one of the operators holds. -/
theorem ordering_exclusive (hw : w.type? = some declared) {o o' : Operator}
    (ho : o ∈ Operator.ordering) (ho' : o' ∈ Operator.ordering)
    (h : compareField field actual? o w = .ok true)
    (h' : compareField field actual? o' w = .ok true) : o = o' := by
  obtain ⟨actual, x, rfl, hx⟩ := exists_coerce?_of_ordering hw ho h
  obtain ⟨hgreater, hless, hequals⟩ := compareField_ordering field hx hw
  have notBoth : ¬(w.isBelow x = true ∧ x.isBelow w = true) := by
    rintro ⟨hwx, hxw⟩
    have := (Value.order?_of_isBelow hwx).2.symm.trans (Value.order?_of_isBelow hxw).1
    cases this
  have notAbove : ¬(w.isBelow x = true ∧ x.same w = true) := by
    rintro ⟨hwx, hsame⟩
    rw [Value.same_of_order? (Value.order?_of_isBelow hwx).2] at hsame
    cases hsame
  have notBelow : ¬(x.isBelow w = true ∧ x.same w = true) := by
    rintro ⟨hxw, hsame⟩
    rw [Value.same_of_order? (Value.order?_of_isBelow hxw).1] at hsame
    cases hsame
  simp only [Operator.ordering, List.mem_cons, List.not_mem_nil, or_false] at ho ho'
  rcases ho with rfl | rfl | rfl <;> rcases ho' with rfl | rfl | rfl <;>
    simp_all

/-- One of the operators holds between numbers or dates that are not `nan`. -/
theorem ordering_total (ht : declared.isOrdered = true)
    (hw : Literal.naturalType? w = some declared) (hwnan : w ≠ .number .nan)
    (hx : actual.coerce? declared = some x) (hxnan : x ≠ .number .nan) :
    ∃ o ∈ Operator.ordering, ∀ o' ∈ Operator.ordering,
      compareField field (some actual) o' w = .ok (o' == o) := by
  have hxtype := Value.naturalType?_of_coerce? hx
  obtain ⟨order, horder⟩ := Value.exists_order? hxtype hw hxnan hwnan
  obtain ⟨hbelow, habove⟩ := Value.isBelow_of_order? hxtype ht horder
  have hsame := Value.same_of_order? horder
  obtain ⟨hgreater, hless, hequals⟩ :=
    compareField_ordering field hx (Value.type?_of_naturalType? hw)
  rw [habove] at hgreater
  rw [hbelow] at hless
  rw [hsame] at hequals
  simp only [Operator.ordering, List.forall_mem_cons, hgreater, hless, hequals]
  cases order with
  | lt => exact ⟨.less, by decide, rfl, rfl, rfl, nofun⟩
  | eq => exact ⟨.equals, by decide, rfl, rfl, rfl, nofun⟩
  | gt => exact ⟨.greater, by decide, rfl, rfl, rfl, nofun⟩

theorem operatorLaws (hw : w.type? = some declared) : OperatorLaws field actual? declared w where
  notEquals := compareField_notEquals hw
  contains := by
    rintro items rfl
    exact compareField_contains hw items
  exclusive := fun o ho o' ho' => ordering_exclusive hw ho ho'
  total := by
    rintro ht hw hwnan actual x rfl
    exact ordering_total ht hw hwnan

end laws

/-! ### Comparisons of the resource itself -/

/-- A comparison of a field of the resource itself needs no lookup. -/
theorem Comparison.evaluate_of_field {c : Comparison} (h : c.path.relations = []) (r : Registry)
    (s : Scope) (subject : Resource) : c.evaluate r s subject = liftM (do
      compareField c.path.field (subject.field c.path.field) c.operator (← c.expected s.principal)) := by
  rw [Inquiry.lift_bind]
  simp only [evaluate, h]

namespace Plan
variable {r : Registry} {type field : String} {c : Comparison}

/-- A negated `==` decides as `!=` does. -/
theorem agrees_not_equals (hc : c.WellTyped r type) (hpath : c.path.relations = []) :
    (Plan.not (.compare ⟨c.path, .equals, c.operand, c.declared⟩)).Agrees
      (.compare ⟨c.path, .notEquals, c.operand, c.declared⟩) := by
  intro r' s subject
  have hevaluate : ∀ operator,
      Comparison.evaluate r' s subject ⟨c.path, operator, c.operand, c.declared⟩ = liftM (do
        compareField c.path.field (subject.field c.path.field) operator (← c.expected s.principal)) := by
    intro operator
    exact Comparison.evaluate_of_field (c := ⟨c.path, operator, c.operand, c.declared⟩) hpath r' s
      subject
  rw [evaluate, evaluate, evaluate, hevaluate, hevaluate]
  cases hv : c.expected s.principal with
  | error e => rfl
  | ok v =>
      have htype : v.type? = some c.declared := (hc.expected_suits hv).type?
      rw [ok_bind, ok_bind, compareField_notEquals htype]
      cases compareField c.path.field (subject.field c.path.field) .equals v <;> rfl

/-- A group of `==` asks for one value after another. -/
theorem evaluateAny_equals {path : FieldPath} (hpath : path.relations = []) (declared : ValueType)
    (r : Registry) (s : Scope) (subject : Resource) : ∀ vs : List Value,
    evaluateAny r s subject (vs.map fun v => .compare ⟨path, .equals, .value v, declared⟩) =
      liftM (vs.anyM (compareField path.field (subject.field path.field) .equals))
  | [] => rfl
  | v :: vs => by
      have hv : Comparison.evaluate r s subject ⟨path, .equals, .value v, declared⟩ =
          liftM (compareField path.field (subject.field path.field) .equals v) :=
        Comparison.evaluate_of_field hpath r s subject
      rw [List.map_cons, evaluateAny, evaluate, hv, evaluateAny_equals hpath declared r s subject vs,
        List.anyM_cons, Inquiry.lift_bind]
      congr 1
      funext t
      cases t <;> rfl

/-- `in` decides as a group of `==` does. -/
theorem agrees_isIn (hc : c.WellTyped r type) (hop : c.operator = .isIn) {vs : List Value}
    (hvs : c.operand = .value (.list vs)) (hpath : c.path.relations = []) :
    (Plan.compare c).Agrees
      (.any (vs.map fun v => .compare ⟨c.path, .equals, .value v, c.declared⟩)) := by
  intro r' s subject
  rw [evaluate, evaluate, evaluateAny_equals hpath, Comparison.evaluate_of_field hpath,
    Comparison.expected, hvs, hop, ok_bind, compareField_isIn (hc.value (.list vs) hvs)]

/-! ### Compiling one operator for another -/

/-- An operand for an operator other than `in` can be compared for equality too. -/
theorem compileComparison_of_ne {operator operator' : Operator} {operand : Operand}
    (h : compileComparison r type field operator operand = .ok c) (hop : operator ≠ .isIn)
    (hop' : operator' ≠ .isIn) (hneeds : operator'.needsOrder = false) :
    compileComparison r type field operator' operand =
      .ok ⟨c.path, operator', c.operand, c.declared⟩ := by
  obtain ⟨hpath, -, hoperand, -⟩ := compileComparison_eq_ok.mp h
  refine compileComparison_eq_ok.mpr ⟨hpath, rfl, ?_, by rw [hneeds]; nofun⟩
  cases operand with
  | literal l =>
      obtain ⟨-, hl⟩ := compileOperand_literal_eq_ok.mp hoperand
      exact compileOperand_literal_eq_ok.mpr ⟨hop', hl⟩
  | list items => exact absurd (compileOperand_list_eq_ok.mp hoperand).1 hop
  | principal name t =>
      obtain ⟨-, hname⟩ := compileOperand_principal_eq_ok.mp hoperand
      exact compileOperand_principal_eq_ok.mpr ⟨hop', hname⟩

/-- The items of a list are compiled one by one as they are together. -/
theorem compileParts_equals {path : FieldPath} {declared : ValueType}
    (hpath : compilePath r type field = .ok path) : ∀ {items : List Literal} {vs : List Value},
    compileItems field declared items = .ok vs →
    compileParts r type (items.map fun l => .compare field .equals (.literal l)) =
      .ok (vs.map fun v => .compare ⟨path, .equals, .value v, declared⟩)
  | [], vs, h => by
      cases h
      rfl
  | l :: items, vs, h => by
      obtain ⟨hdeclared, v, more, hv, hmore, rfl⟩ := compileItems_cons_eq_ok.mp h
      have hl : compileComparison r type field .equals (.literal l) =
          .ok ⟨path, .equals, .value v, declared⟩ := by
        refine compileComparison_eq_ok.mpr ⟨hpath, rfl, ?_, nofun⟩
        exact compileOperand_literal_eq_ok.mpr ⟨nofun, hdeclared.symm, v, hv, rfl⟩
      rw [List.map_cons, compileParts, compile, hl, compileParts_equals hpath hmore]
      rfl

theorem exists_compileLiteral_of_mem {declared : ValueType} : ∀ {items : List Literal}
    {vs : List Value}, compileItems field declared items = .ok vs → ∀ l ∈ items,
    ∃ w ∈ vs, compileLiteral field l = .ok w
  | [], _, _ => fun _ hl => nomatch hl
  | l :: items, vs, h => by
      obtain ⟨-, v, more, hv, hmore, rfl⟩ := compileItems_cons_eq_ok.mp h
      refine List.forall_mem_cons.mpr ⟨⟨v, List.mem_cons_self, hv⟩, fun l' hl' => ?_⟩
      obtain ⟨w, hw, hcompile⟩ := exists_compileLiteral_of_mem hmore l' hl'
      exact ⟨w, List.mem_cons_of_mem v hw, hcompile⟩

/-- Every literal of an operand is among what the operand offers. -/
theorem exists_offered {operator : Operator} {operand : Operand} {p : Principal} {v : Value}
    (h : compileComparison r type field operator operand = .ok c) (hv : c.expected p = .ok v)
    {l : Literal} (hl : l ∈ operand.literals) :
    ∃ w, v.Offers w ∧ compileLiteral field l = .ok w := by
  obtain ⟨-, -, hoperand, -⟩ := compileComparison_eq_ok.mp h
  unfold Comparison.expected at hv
  cases operand with
  | literal l' =>
      obtain ⟨-, -, w, hw, hvalue⟩ := compileOperand_literal_eq_ok.mp hoperand
      rw [hvalue] at hv
      cases hv
      rw [List.mem_singleton.mp hl]
      exact ⟨v, .inl rfl, hw⟩
  | list items =>
      obtain ⟨-, -, vs, hvs, hvalue⟩ := compileOperand_list_eq_ok.mp hoperand
      rw [hvalue] at hv
      cases hv
      obtain ⟨w, hw, hcompile⟩ := exists_compileLiteral_of_mem hvs l hl
      exact ⟨w, .inr ⟨vs, rfl, hw⟩, hcompile⟩
  | principal name t => cases hl

end Plan

namespace Comparison

/-- The algebra of operators.  The operators on every value that the operand of a compiled comparison
offers obey their laws, whatever is in the field; `in` is the disjunction of `==` with the values of
its list, in their order; and a field that holds what a literal was written as equals the literal,
unless that is `nan`.  So on fields of the resource itself a negated `==` decides as `!=` does, and
`in` as a group of `==`, failures included. -/
theorem operator_laws {r : Registry} {type written : String} {operator : Operator} {operand : Operand}
    {c : Comparison} (hc : Plan.compileComparison r type written operator operand = .ok c) :
    (∀ p v, c.expected p = .ok v → ∀ field actual?,
      (∀ w, v.Offers w → OperatorLaws field actual? c.declared w) ∧
      (∀ items, v = .list items → compareField field actual? .isIn v =
        items.anyM (compareField field actual? .equals)) ∧
      ∀ l ∈ operand.literals, ∃ w, v.Offers w ∧ Plan.compileLiteral written l = .ok w ∧
        (w ≠ .number .nan → compareField field (some l.value) .equals w = .ok true)) ∧
    (c.path.relations = [] →
      (operator ≠ .isIn → ∃ plan plan',
        Plan.compile r type (.not (.compare written .equals operand)) = .ok plan ∧
        Plan.compile r type (.compare written .notEquals operand) = .ok plan' ∧
        plan.Agrees plan') ∧
      ∀ items, operand = .list items → ∃ plan plan',
        Plan.compile r type (.compare written .isIn operand) = .ok plan ∧
        Plan.compile r type (.any (items.map fun l => .compare written .equals (.literal l))) =
          .ok plan' ∧
        plan.Agrees plan') := by
  have hwell := Plan.compileComparison_wellTyped hc
  obtain ⟨hpath, hop, hoperand, -⟩ := Plan.compileComparison_eq_ok.mp hc
  refine ⟨fun p v hv field actual? => ⟨fun w hw => ?_, fun items hitems => ?_, fun l hl => ?_⟩,
    fun hlocal => ⟨fun hne => ?_, fun items hitems => ?_⟩⟩
  · exact operatorLaws ((hwell.expected_suits hv).type?_of_offers hw)
  · subst hitems
    exact compareField_isIn (hwell.expected_suits hv)
  · obtain ⟨w, hw, hcompile⟩ := Plan.exists_offered hc hv hl
    refine ⟨w, hw, hcompile, fun hnan => ?_⟩
    exact compareField_of_coerce? field (Plan.compileLiteral_eq_ok.mp hcompile) hnan
  · have hequals : Plan.compileComparison r type written .equals operand =
        .ok ⟨c.path, .equals, c.operand, c.declared⟩ :=
      Plan.compileComparison_of_ne hc hne nofun rfl
    have hnotEquals : Plan.compileComparison r type written .notEquals operand =
        .ok ⟨c.path, .notEquals, c.operand, c.declared⟩ :=
      Plan.compileComparison_of_ne hc hne nofun rfl
    refine ⟨_, _, ?_, ?_, Plan.agrees_not_equals hwell hlocal⟩
    · rw [Plan.compile, Plan.compile, hequals]
      rfl
    · rw [Plan.compile, hnotEquals]
      rfl
  · subst hitems
    obtain ⟨hisIn, -, vs, hvs, hvalue⟩ := Plan.compileOperand_list_eq_ok.mp hoperand
    refine ⟨.compare c, _, ?_, ?_, Plan.agrees_isIn hwell (hop.trans hisIn) hvalue hlocal⟩
    · rw [Plan.compile, ← hisIn, hc]
      rfl
    · rw [Plan.compile, Plan.compileParts_equals hpath hvs]
      rfl

/-- Truth values may be written as words, in a list as in a field; of two levels one is the greater;
and a list that holds no truth value fails for `!=` as it does for a negated `==`. -/
theorem operator_laws_board :
    compareField "done" (some (.string "false")) .isIn (.list [.boolean true, .boolean false]) =
      [.boolean true, .boolean false].anyM (compareField "done" (some (.string "false")) .equals) ∧
    (∃ o ∈ Operator.ordering, ∀ o' ∈ Operator.ordering,
      compareField "level" (some (.number (.ofInt 3))) o' (.number (.ofInt 5)) = .ok (o' == o)) ∧
    compareField "done" (some (.list [])) .notEquals (.boolean true) =
      (compareField "done" (some (.list [])) .equals (.boolean true)).map not ∧
    ∃ plan plan',
      Plan.compile Board.registry "task" (.not (.compare "team" .equals (.principal "team" .string))) =
        .ok plan ∧
      Plan.compile Board.registry "task" (.compare "team" .notEquals (.principal "team" .string)) =
        .ok plan' ∧
      plan.Agrees plan' := by
  have hdone : Plan.compileComparison Board.registry "task" "done" .isIn
      (.list [⟨.boolean, .string "true"⟩, ⟨.boolean, .boolean false⟩]) =
      .ok ⟨⟨[], "done"⟩, .isIn, .value (.list [.boolean true, .boolean false]), .boolean⟩ := rfl
  have hlevel : Plan.compileComparison Board.registry "task" "level" .greater
      (.literal (.infer (.number (.ofInt 5)))) =
      .ok ⟨⟨[], "level"⟩, .greater, .value (.number (.ofInt 5)), .number⟩ := rfl
  have hteam : Plan.compileComparison Board.registry "task" "team" .equals
      (.principal "team" .string) = .ok ⟨⟨[], "team"⟩, .equals, .attribute "team", .string⟩ := rfl
  obtain ⟨-, hisIn, -⟩ := (operator_laws hdone).1 Board.loner.principal _ rfl "done"
    (some (.string "false"))
  obtain ⟨hlaws, -⟩ := (operator_laws hdone).1 Board.loner.principal _ rfl "done" (some (.list []))
  obtain ⟨hlevels, -⟩ := (operator_laws hlevel).1 Board.loner.principal _ rfl "level"
    (some (.number (.ofInt 3)))
  refine ⟨hisIn _ rfl, ?_, ?_, ((operator_laws hteam).2 rfl).1 nofun⟩
  · exact (hlevels _ (.inl rfl)).total rfl rfl nofun _ _ rfl rfl nofun
  · exact (hlaws _ (.inr ⟨_, rfl, List.mem_cons_self⟩)).notEquals

end Comparison

end AccessControl
