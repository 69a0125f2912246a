import AccessControl.Plan
import AccessControl.Proofs.Inquiry

/-! # Compiled plans are well typed

`Plan.compile` leaves nothing to chance: in a compiled plan every path leads along known relations,
every operand has the declared type, on its own or in a list as its operator asks for, and only
ordered types are compared by order (`compile_wellTyped`).  What a comparison expects of a principal
suits its operator and declared type too (`Comparison.WellTyped.expected_suits`).  For each step of
compiling a comparison one lemma says when it succeeds and with what, up to `compileComparison_eq_ok`
for the whole.

A plan is decided by its comparisons and nothing else (`Plan.agree_evaluate`). -/

namespace AccessControl

namespace Value

theorem naturalType?_of_coerce? {v x : Value} {t : ValueType} (h : v.coerce? t = some x) :
    Literal.naturalType? x = some t := by
  cases t with
  | string =>
      cases v <;> simp only [coerce?, Option.some.injEq, reduceCtorEq] at h
      rw [← h]
      rfl
  | number =>
      cases v <;> simp only [coerce?, Option.some.injEq, Option.map_eq_some_iff, reduceCtorEq] at h
      · obtain ⟨_, -, rfl⟩ := h
        rfl
      · rw [← h]
        rfl
  | boolean =>
      cases v with
      | string s =>
          simp only [coerce?] at h
          split at h
          · cases h
            rfl
          · split at h
            · cases h
              rfl
            · cases h
      | _ =>
          simp only [coerce?, Option.some.injEq, reduceCtorEq] at h
          try (rw [← h]; rfl)
  | date =>
      cases v <;> simp only [coerce?, Option.some.injEq, Option.map_eq_some_iff, reduceCtorEq] at h
      · obtain ⟨_, -, rfl⟩ := h
        rfl
      · rw [← h]
        rfl

theorem type?_of_naturalType? {v : Value} {t : ValueType} (h : Literal.naturalType? v = some t) :
    v.type? = some t := by
  cases v <;> first | exact h | cases h

/-- Whether a value can be the right side of an operator: a value of the declared type, or for `in` a
list of such values that is not empty. -/
def Suits (v : Value) (operator : Operator) (declared : ValueType) : Prop :=
  match operator with
  | .isIn => ∃ first rest, v = .list (first :: rest) ∧
      ∀ x ∈ first :: rest, Literal.naturalType? x = some declared
  | _ => Literal.naturalType? v = some declared

theorem suits_of_ne {operator : Operator} (h : operator ≠ .isIn) {v : Value}
    {declared : ValueType} : v.Suits operator declared ↔ Literal.naturalType? v = some declared := by
  cases operator <;> first | exact Iff.rfl | exact absurd rfl h

theorem Suits.type? {v : Value} {operator : Operator} {declared : ValueType}
    (h : v.Suits operator declared) : v.type? = some declared := by
  cases operator with
  | isIn =>
      obtain ⟨first, rest, rfl, hitems⟩ := h
      show first.type? = some declared
      exact type?_of_naturalType? (hitems first List.mem_cons_self)
  | _ => exact type?_of_naturalType? h

end Value

/-! ### Well-typed comparisons -/

/-- Whether a comparison is as the registry and the declared type ask for. -/
structure Comparison.WellTyped (r : Registry) (type : String) (c : Comparison) : Prop where
  path : ∃ target, Plan.follow r type c.path.relations = .ok target
  value : ∀ v, c.operand = .value v → v.Suits c.operator c.declared
  reference : ∀ name, c.operand = .attribute name → c.operator ≠ .isIn
  ordered : c.operator.needsOrder = true → c.declared.isOrdered = true

theorem Comparison.attributeValue_eq_ok {p : Principal} {name : String} {declared : ValueType}
    {v : Value} : attributeValue p name declared = .ok v ↔
      ∃ raw, p.attribute? name = some raw ∧ raw.coerce? declared = some v := by
  unfold attributeValue
  cases p.attribute? name with
  | none => simp
  | some raw =>
      simp only [Option.some.injEq, exists_eq_left']
      cases raw.coerce? declared <;> simp

/-- What a well-typed comparison expects of a principal suits it. -/
theorem Comparison.WellTyped.expected_suits {r : Registry} {type : String} {c : Comparison}
    (h : c.WellTyped r type) {p : Principal} {v : Value} (hv : c.expected p = .ok v) :
    v.Suits c.operator c.declared := by
  unfold expected at hv
  match hoperand : c.operand with
  | .value w =>
      rw [hoperand] at hv
      cases hv
      exact h.value v hoperand
  | .attribute name =>
      rw [Value.suits_of_ne (h.reference name hoperand)]
      simp only [hoperand] at hv
      obtain ⟨_, -, hcoerce⟩ := attributeValue_eq_ok.mp hv
      exact Value.naturalType?_of_coerce? hcoerce

/-- Two ways to decide a comparison agree where they expect the same and follow its path alike. -/
theorem Comparison.agree_evaluate {A : Agreement} {r r' : Registry} {a b : Principal} {type : String}
    {context context' : Context} {subject : Resource} {c : Comparison}
    (hexpected : c.expected a = c.expected b)
    (hreach : A.rel (r.reach type subject c.path.relations context)
      (r'.reach type subject c.path.relations context')) :
    A.rel (c.evaluate r ⟨a, type, context⟩ subject) (c.evaluate r' ⟨b, type, context'⟩ subject) := by
  rw [evaluate, evaluate, hexpected]
  refine A.bind (A.refl _) fun expected => ?_
  dsimp only
  split
  · exact A.refl _
  · exact A.bind hreach fun _ => A.refl _

namespace Plan

mutual

/-- The comparisons of a plan. -/
def comparisons : Plan → List Comparison
  | .compare c => [c]
  | .all parts => comparisonsOf parts
  | .any parts => comparisonsOf parts
  | .not inner => comparisons inner

/-- The comparisons of plans. -/
def comparisonsOf : List Plan → List Comparison
  | [] => []
  | part :: rest => comparisons part ++ comparisonsOf rest

end

section evaluate
variable {A : Agreement} {r r' : Registry} {s s' : Scope} {subject : Resource}

mutual

/-- Two ways to decide a plan agree where they agree on its comparisons. -/
theorem agree_evaluate : ∀ {plan : Plan},
    (∀ c ∈ plan.comparisons, A.rel (c.evaluate r s subject) (c.evaluate r' s' subject)) →
    A.rel (plan.evaluate r s subject) (plan.evaluate r' s' subject)
  | .compare c, h => h c (List.mem_singleton.mpr rfl)
  | .all _, h => agree_evaluateAll h
  | .any _, h => agree_evaluateAny h
  | .not inner, h => by
      have hinner : A.rel (inner.evaluate r s subject) (inner.evaluate r' s' subject) :=
        agree_evaluate h
      exact A.bind hinner fun _ => A.refl _

theorem agree_evaluateAll : ∀ {parts : List Plan},
    (∀ c ∈ comparisonsOf parts, A.rel (c.evaluate r s subject) (c.evaluate r' s' subject)) →
    A.rel (evaluateAll r s subject parts) (evaluateAll r' s' subject parts)
  | [], _ => A.refl _
  | part :: rest, h => by
      obtain ⟨hpart, hrest⟩ := List.forall_mem_append.mp h
      exact A.branch (agree_evaluate hpart) (agree_evaluateAll hrest) (A.refl _)

theorem agree_evaluateAny : ∀ {parts : List Plan},
    (∀ c ∈ comparisonsOf parts, A.rel (c.evaluate r s subject) (c.evaluate r' s' subject)) →
    A.rel (evaluateAny r s subject parts) (evaluateAny r' s' subject parts)
  | [], _ => A.refl _
  | part :: rest, h => by
      obtain ⟨hpart, hrest⟩ := List.forall_mem_append.mp h
      exact A.branch (agree_evaluate hpart) (A.refl _) (agree_evaluateAny hrest)

end

/-- A plan is decided alike where its comparisons are. -/
theorem evaluate_congr {plan : Plan}
    (h : ∀ c ∈ plan.comparisons, c.evaluate r s subject = c.evaluate r' s' subject) :
    plan.evaluate r s subject = plan.evaluate r' s' subject :=
  agree_evaluate (A := .same) h

end evaluate

/-! ### Compiling -/

section compile
variable {r : Registry} {type : String}

theorem compileLiteral_eq_ok {field : String} {l : Literal} {v : Value} :
    compileLiteral field l = .ok v ↔ l.value.coerce? l.declared = some v := by
  unfold compileLiteral
  cases l.value.coerce? l.declared <;> simp

theorem compileLiteral_ok {field : String} {l : Literal} {v : Value}
    (h : compileLiteral field l = .ok v) : Literal.naturalType? v = some l.declared :=
  Value.naturalType?_of_coerce? (compileLiteral_eq_ok.mp h)

theorem compileItems_cons_eq_ok {field : String} {declared : ValueType} {l : Literal}
    {ls : List Literal} {vs : List Value} : compileItems field declared (l :: ls) = .ok vs ↔
      l.declared = declared ∧ ∃ v more, compileLiteral field l = .ok v ∧
        compileItems field declared ls = .ok more ∧ vs = v :: more := by
  rw [compileItems]
  by_cases hdeclared : l.declared = declared
  · rw [if_neg (not_not_intro hdeclared)]
    constructor
    · intro h
      obtain ⟨v, hv, h⟩ := bind_eq_ok.mp h
      obtain ⟨more, hmore, h⟩ := bind_eq_ok.mp h
      cases h
      exact ⟨hdeclared, v, more, hv, hmore, rfl⟩
    · rintro ⟨-, v, more, hv, hmore, rfl⟩
      exact bind_eq_ok.mpr ⟨v, hv, bind_eq_ok.mpr ⟨more, hmore, rfl⟩⟩
  · rw [if_pos hdeclared]
    exact ⟨fun h => (nomatch h), fun h => absurd h.1 hdeclared⟩

theorem compileItems_ok {field : String} {declared : ValueType} :
    ∀ {ls : List Literal} {vs : List Value}, compileItems field declared ls = .ok vs →
    vs.length = ls.length ∧ ∀ v ∈ vs, Literal.naturalType? v = some declared
  | [], vs, h => by
      cases h
      exact ⟨rfl, fun v hv => nomatch hv⟩
  | l :: ls, vs, h => by
      obtain ⟨hdeclared, v, more, hv, hmore, rfl⟩ := compileItems_cons_eq_ok.mp h
      obtain ⟨hlength, hitems⟩ := compileItems_ok hmore
      refine ⟨congrArg Nat.succ hlength, List.forall_mem_cons.mpr ⟨?_, hitems⟩⟩
      rw [← hdeclared]
      exact compileLiteral_ok hv

/-- What the other operators make of an operand. -/
theorem compileOperand_of_ne (field : String) {operator : Operator} (hop : operator ≠ .isIn)
    (operand : Operand) : compileOperand field operator operand =
      match operand with
      | .list _ => .error (unsupported field operator "list")
      | .literal l => do return (.value (← compileLiteral field l), l.declared)
      | .principal name declared => .ok (.attribute name, declared) := by
  cases operator <;> first | exact absurd rfl hop | (cases operand <;> rfl)

theorem compileOperand_literal_eq_ok {field : String} {operator : Operator} {l : Literal}
    {bound : BoundOperand} {declared : ValueType} :
    compileOperand field operator (.literal l) = .ok (bound, declared) ↔
      operator ≠ .isIn ∧ declared = l.declared ∧
        ∃ v, compileLiteral field l = .ok v ∧ bound = .value v := by
  by_cases hop : operator = .isIn
  · subst hop
    exact ⟨fun h => (nomatch h), fun h => absurd rfl h.1⟩
  · rw [compileOperand_of_ne field hop]
    constructor
    · intro h
      obtain ⟨v, hv, h⟩ := bind_eq_ok.mp h
      cases h
      exact ⟨hop, rfl, v, hv, rfl⟩
    · rintro ⟨-, rfl, v, hv, rfl⟩
      exact bind_eq_ok.mpr ⟨v, hv, rfl⟩

theorem compileOperand_list_eq_ok {field : String} {operator : Operator} {items : List Literal}
    {bound : BoundOperand} {declared : ValueType} :
    compileOperand field operator (.list items) = .ok (bound, declared) ↔
      operator = .isIn ∧ items.head?.map (·.declared) = some declared ∧
        ∃ vs, compileItems field declared items = .ok vs ∧ bound = .value (.list vs) := by
  by_cases hop : operator = .isIn
  · subst hop
    cases items with
    | nil => exact ⟨fun h => (nomatch h), fun ⟨_, h, _⟩ => (nomatch h)⟩
    | cons first rest =>
        constructor
        · intro h
          obtain ⟨vs, hvs, h⟩ := bind_eq_ok.mp h
          cases h
          exact ⟨rfl, rfl, vs, hvs, rfl⟩
        · rintro ⟨-, hdeclared, vs, hvs, rfl⟩
          cases hdeclared
          exact bind_eq_ok.mpr ⟨vs, hvs, rfl⟩
  · rw [compileOperand_of_ne field hop]
    exact ⟨fun h => (nomatch h), fun h => absurd h.1 hop⟩

theorem compileOperand_principal_eq_ok {field name : String} {operator : Operator} {t : ValueType}
    {bound : BoundOperand} {declared : ValueType} :
    compileOperand field operator (.principal name t) = .ok (bound, declared) ↔
      operator ≠ .isIn ∧ declared = t ∧ bound = .attribute name := by
  by_cases hop : operator = .isIn
  · subst hop
    exact ⟨fun h => (nomatch h), fun h => absurd rfl h.1⟩
  · rw [compileOperand_of_ne field hop]
    constructor
    · intro h
      cases h
      exact ⟨hop, rfl, rfl⟩
    · rintro ⟨-, rfl, rfl⟩
      rfl

/-- The operand of a compiled comparison. -/
theorem compileOperand_ok {field : String} {operator : Operator} {operand : Operand}
    {bound : BoundOperand} {declared : ValueType}
    (h : compileOperand field operator operand = .ok (bound, declared)) :
    (∀ v, bound = .value v → v.Suits operator declared) ∧
      ∀ name, bound = .attribute name → operator ≠ .isIn := by
  cases operand with
  | literal l =>
      obtain ⟨hop, rfl, v, hv, rfl⟩ := compileOperand_literal_eq_ok.mp h
      refine ⟨fun w hw => ?_, fun _ _ => hop⟩
      cases hw
      exact (Value.suits_of_ne hop).mpr (compileLiteral_ok hv)
  | list items =>
      obtain ⟨rfl, hdeclared, vs, hvs, rfl⟩ := compileOperand_list_eq_ok.mp h
      obtain ⟨hlength, hitems⟩ := compileItems_ok hvs
      refine ⟨fun w hw => ?_, fun name hname => nomatch hname⟩
      cases hw
      cases vs with
      | nil =>
          rw [List.length_eq_zero_iff.mp hlength.symm] at hdeclared
          cases hdeclared
      | cons x xs => exact ⟨x, xs, rfl, hitems⟩
  | principal name t =>
      obtain ⟨hop, -, rfl⟩ := compileOperand_principal_eq_ok.mp h
      exact ⟨fun w hw => (nomatch hw), fun _ _ => hop⟩

theorem compilePath_ok {field : String} {path : FieldPath}
    (h : compilePath r type field = .ok path) :
    ∃ target, follow r type path.relations = .ok target := by
  unfold compilePath at h
  by_cases hempty : (segments field).contains "" = true
  · rw [if_pos hempty] at h
    cases h
  · rw [if_neg hempty] at h
    obtain ⟨_, hfollow, h⟩ := bind_eq_ok.mp h
    cases h
    cases htarget : follow r type (segments field).dropLast with
    | error e =>
        rw [htarget] at hfollow
        cases hfollow
    | ok target => exact ⟨target, rfl⟩

/-- What a comparison is compiled to. -/
theorem compileComparison_eq_ok {field : String} {operator : Operator} {operand : Operand}
    {c : Comparison} : compileComparison r type field operator operand = .ok c ↔
      compilePath r type field = .ok c.path ∧ c.operator = operator ∧
        compileOperand field operator operand = .ok (c.operand, c.declared) ∧
        ¬(operator.needsOrder && !c.declared.isOrdered) = true := by
  constructor
  · intro h
    obtain ⟨path, hpath, h⟩ := bind_eq_ok.mp h
    obtain ⟨⟨bound, declared⟩, hoperand, h⟩ := bind_eq_ok.mp h
    simp only at h
    by_cases hrefused : (operator.needsOrder && !declared.isOrdered) = true
    · rw [if_pos hrefused] at h
      cases h
    · rw [if_neg hrefused] at h
      cases h
      exact ⟨hpath, rfl, hoperand, hrefused⟩
  · rintro ⟨hpath, rfl, hoperand, hrefused⟩
    refine bind_eq_ok.mpr ⟨_, hpath, bind_eq_ok.mpr ⟨_, hoperand, ?_⟩⟩
    simp only
    rw [if_neg hrefused]
    rfl

theorem compileComparison_wellTyped {field : String} {operator : Operator} {operand : Operand}
    {c : Comparison} (h : compileComparison r type field operator operand = .ok c) :
    c.WellTyped r type := by
  obtain ⟨hpath, rfl, hoperand, hrefused⟩ := compileComparison_eq_ok.mp h
  obtain ⟨hvalue, hreference⟩ := compileOperand_ok hoperand
  refine ⟨compilePath_ok hpath, hvalue, hreference, fun hneeds => ?_⟩
  simp only [Bool.and_eq_true, Bool.not_eq_true', not_and, Bool.not_eq_false] at hrefused
  exact hrefused hneeds

mutual

/-- The comparisons of a compiled plan are well typed. -/
theorem compile_wellTyped : ∀ {condition : Condition} {plan : Plan},
    compile r type condition = .ok plan → ∀ c ∈ plan.comparisons, c.WellTyped r type
  | .compare field operator operand, plan, h => by
      obtain ⟨c, hc, h⟩ := bind_eq_ok.mp h
      cases h
      intro c' hc'
      rw [List.mem_singleton.mp hc']
      exact compileComparison_wellTyped hc
  | .all parts, plan, h => by
      obtain ⟨plans, hplans, h⟩ := bind_eq_ok.mp h
      cases h
      exact compileParts_wellTyped hplans
  | .any parts, plan, h => by
      obtain ⟨plans, hplans, h⟩ := bind_eq_ok.mp h
      cases h
      exact compileParts_wellTyped hplans
  | .not inner, plan, h => by
      obtain ⟨inner', hinner, h⟩ := bind_eq_ok.mp h
      cases h
      intro c hc
      rw [comparisons] at hc
      exact compile_wellTyped hinner c hc

theorem compileParts_wellTyped : ∀ {parts : List Condition} {plans : List Plan},
    compileParts r type parts = .ok plans → ∀ c ∈ comparisonsOf plans, c.WellTyped r type
  | [], plans, h => by
      cases h
      exact fun c hc => nomatch hc
  | part :: rest, plans, h => by
      obtain ⟨plan, hplan, h⟩ := bind_eq_ok.mp h
      obtain ⟨more, hmore, h⟩ := bind_eq_ok.mp h
      cases h
      intro c hc
      rcases List.mem_append.mp hc with hc | hc
      · exact compile_wellTyped hplan c hc
      · exact compileParts_wellTyped hmore c hc

end

end compile

end Plan
end AccessControl
