import AccessControl.Proofs.Condition.Text
import AccessControl.Proofs.Decision
import AccessControl.Proofs.Number.Finite
import AccessControl.Proofs.Plan

/-! # The numbers of rules

A plan holds the literals of its condition, each read as its declared type (`Plan.compile_values`), and
the numbers among these literals are those among the tokens of the text
(`Condition.IsGroup.mem_number`).  So the numbers in a plan are either written as numbers in the text,
or read out of a cast.  The latter are always finite.  The former are if the text has no more than 308
digits in a row, but need not be otherwise (`Plan.values_of_read`, `Plan.infinite_values_of_read`). -/

namespace AccessControl

/-! ### The literals of a condition -/

namespace Condition

mutual

/-- The literals that a condition compares with, in their order. -/
def literals : Condition → List Literal
  | .compare _ _ operand => operand.literals
  | .all parts => literalsOf parts
  | .any parts => literalsOf parts
  | .not inner => literals inner

/-- The literals of several conditions. -/
def literalsOf : List Condition → List Literal
  | [] => []
  | part :: rest => literals part ++ literalsOf rest

end

theorem literals_group (j : Junction) (c : Condition) (cs : List Condition) :
    (group j.join c cs).literals = c.literals ++ literalsOf cs := by
  cases cs with
  | nil => exact (List.append_nil _).symm
  | cons d cs => cases j <;> rfl

mutual

theorem hasFiniteNumbers_of_literals : ∀ {c : Condition},
    (∀ l ∈ c.literals, ∀ x, l.value = .number x → x.isFinite = true) → c.HasFiniteNumbers
  | .compare _ _ _, h => h
  | .all _, h => hasFiniteNumbers_of_literalsOf h
  | .any _, h => hasFiniteNumbers_of_literalsOf h
  | .not inner, h => by
      rw [literals] at h
      exact hasFiniteNumbers_of_literals (c := inner) h

theorem hasFiniteNumbers_of_literalsOf : ∀ {cs : List Condition},
    (∀ l ∈ literalsOf cs, ∀ x, l.value = .number x → x.isFinite = true) →
      ForallParts (fun _ _ operand => operand.HasFiniteNumbers) cs
  | [], _ => trivial
  | _ :: _, h =>
      ⟨hasFiniteNumbers_of_literals fun l hl => h l (List.mem_append_left _ hl),
        hasFiniteNumbers_of_literalsOf fun l hl => h l (List.mem_append_right _ hl)⟩

end

/-! ### Numbers among tokens -/

/-- Whether a number is among the values of literals. -/
def HoldsNumber (x : Number) (literals : List Literal) : Prop := ∃ l ∈ literals, l.value = .number x

theorem holdsNumber_append {x : Number} {ls ms : List Literal} :
    HoldsNumber x (ls ++ ms) ↔ HoldsNumber x ls ∨ HoldsNumber x ms := by
  simp [HoldsNumber, or_and_right, exists_or]

theorem holdsNumber_singleton {x : Number} {l : Literal} : HoldsNumber x [l] ↔ l.value = .number x := by
  simp [HoldsNumber]

section tokens
variable {x : Number} {us : List Token}

theorem IsScalar.number_eq {t : Token} {v : Value} (h : IsScalar t v) :
    .number x = t ↔ v = .number x := by
  cases h <;> simp [eq_comm]

theorem IsLiteral.mem_number {l : Literal} (h : IsLiteral us l) :
    .number x ∈ us ↔ l.value = .number x := by
  cases h with
  | bare hv => simp [Literal.infer, hv.number_eq]
  | cast declared hv => simp [hv.number_eq]

theorem IsItems.mem_number {items : List Literal} (h : IsItems us items) :
    .number x ∈ us ↔ HoldsNumber x items := by
  induction h with
  | one hl => rw [hl.mem_number, holdsNumber_singleton]
  | @more ts us l items hl _ ih =>
      have hitems : HoldsNumber x (l :: items) ↔ l.value = .number x ∨ HoldsNumber x items := by
        simp [HoldsNumber]
      rw [hitems, List.mem_append, hl.mem_number, List.mem_cons, ih]
      simp

theorem number_not_mem_pathTokens (names : List String) : Token.number x ∉ pathTokens names := by
  cases names <;> simp [pathTokens]

theorem IsOperand.mem_number {operand : Operand} (h : IsOperand us operand) :
    .number x ∈ us ↔ HoldsNumber x operand.literals := by
  have hnone : ¬HoldsNumber x [] := by simp [HoldsNumber]
  cases h with
  | literal hl => rw [hl.mem_number, Operand.literals, holdsNumber_singleton]
  | list hitems => simp [hitems.mem_number, Operand.literals]
  | principal name => exact iff_of_false (number_not_mem_pathTokens _) hnone
  | cast declared name => exact iff_of_false (by simp [number_not_mem_pathTokens]) hnone

theorem IsComparison.mem_number {c : Condition} (h : IsComparison us c) :
    .number x ∈ us ↔ HoldsNumber x c.literals := by
  cases h with
  | @mk names t operator ts operand hne hfield hsign hright =>
      have hoperator : Token.number x ≠ t := by
        rintro rfl
        cases hsign
      rw [List.mem_append, List.mem_cons, hright.mem_number, literals]
      simp [number_not_mem_pathTokens, hoperator]

end tokens

mutual

theorem IsUnary.mem_number {x : Number} : ∀ {us : List Token} {c : Condition}, IsUnary us c →
    (.number x ∈ us ↔ HoldsNumber x c.literals)
  | _, _, .comparison h => h.mem_number
  | _, _, .not h => by simpa [literals] using h.mem_number
  | _, _, .parenthesized h => by simpa using h.mem_number

theorem IsPart.mem_number {x : Number} : ∀ {j : Junction} {us : List Token} {c : Condition},
    IsPart j us c → (.number x ∈ us ↔ HoldsNumber x c.literals)
  | _, _, _, .unary h => h.mem_number
  | _, _, _, .group h => h.mem_number

/-- The numbers among the literals of a condition are those among its tokens. -/
theorem IsGroup.mem_number {x : Number} : ∀ {j : Junction} {us : List Token} {c : Condition},
    IsGroup j us c → (.number x ∈ us ↔ HoldsNumber x c.literals)
  | j, _, _, .mk first more => by
      rw [List.mem_append, first.mem_number, more.mem_number, literals_group, holdsNumber_append]

theorem IsMore.mem_number {x : Number} : ∀ {j : Junction} {us : List Token} {cs : List Condition},
    IsMore j us cs → (.number x ∈ us ↔ HoldsNumber x (literalsOf cs))
  | _, _, _, .nil => by simp [literalsOf, HoldsNumber]
  | j, _, _, .cons part more => by
      have hsign : Token.number x ≠ j.sign := by cases j <;> simp [Junction.sign]
      rw [List.mem_cons, List.mem_append, part.mem_number, more.mem_number, literalsOf,
        holdsNumber_append]
      simp [hsign]

end

end Condition

/-! ### The values of a plan -/

/-- The scalars that a checked operand holds. -/
def BoundOperand.values : BoundOperand → List Value
  | .value (.list items) => items
  | .value v => [v]
  | .attribute _ => []

/-- A literal as it is compared with, if it has a value of its declared type. -/
def Literal.read? (l : Literal) : Option Value := l.value.coerce? l.declared

namespace Plan

/-- The scalars that a plan compares with, in their order. -/
def values (plan : Plan) : List Value := plan.comparisons.flatMap fun c => c.operand.values

/-- The scalars of several plans. -/
def valuesOf (plans : List Plan) : List Value := (comparisonsOf plans).flatMap fun c => c.operand.values

section compile
variable {r : Registry} {type : String}

theorem compileItems_values {field : String} {declared : ValueType} :
    ∀ {items : List Literal} {vs : List Value}, compileItems field declared items = .ok vs →
      items.map Literal.read? = vs.map some
  | [], _, h => by
      cases h
      rfl
  | l :: items, _, h => by
      obtain ⟨-, v, more, hv, hmore, rfl⟩ := compileItems_cons_eq_ok.mp h
      rw [List.map_cons, List.map_cons, compileItems_values hmore, Literal.read?,
        compileLiteral_eq_ok.mp hv]

theorem compileOperand_values {field : String} {operator : Operator} {operand : Operand}
    {bound : BoundOperand} {declared : ValueType}
    (h : compileOperand field operator operand = .ok (bound, declared)) :
    operand.literals.map Literal.read? = bound.values.map some := by
  cases operand with
  | literal l =>
      obtain ⟨-, -, v, hv, rfl⟩ := compileOperand_literal_eq_ok.mp h
      have hvalues : BoundOperand.values (.value v) = [v] := by
        have hscalar := compileLiteral_ok hv
        cases v <;> first | rfl | cases hscalar
      rw [hvalues, Operand.literals, List.map_singleton, Literal.read?, compileLiteral_eq_ok.mp hv]
      rfl
  | list items =>
      obtain ⟨-, -, vs, hvs, rfl⟩ := compileOperand_list_eq_ok.mp h
      exact compileItems_values hvs
  | principal name t =>
      obtain ⟨-, -, rfl⟩ := compileOperand_principal_eq_ok.mp h
      rfl

mutual

/-- A plan compares with the literals of its condition, each read as its declared type. -/
theorem compile_values : ∀ {condition : Condition} {plan : Plan},
    compile r type condition = .ok plan → condition.literals.map Literal.read? = plan.values.map some
  | .compare field operator operand, plan, h => by
      obtain ⟨c, hc, h⟩ := bind_eq_ok.mp h
      cases h
      obtain ⟨-, -, hoperand, -⟩ := compileComparison_eq_ok.mp hc
      have hvalues : values (.compare c) = c.operand.values := List.append_nil _
      rw [hvalues]
      exact compileOperand_values hoperand
  | .all parts, plan, h => by
      obtain ⟨plans, hplans, h⟩ := bind_eq_ok.mp h
      cases h
      exact compileParts_values hplans
  | .any parts, plan, h => by
      obtain ⟨plans, hplans, h⟩ := bind_eq_ok.mp h
      cases h
      exact compileParts_values hplans
  | .not inner, plan, h => by
      obtain ⟨plan', hplan, h⟩ := bind_eq_ok.mp h
      cases h
      have hvalues : values (.not plan') = plan'.values := by rw [values, comparisons, values]
      rw [hvalues, Condition.literals]
      exact compile_values hplan

theorem compileParts_values : ∀ {parts : List Condition} {plans : List Plan},
    compileParts r type parts = .ok plans →
      (Condition.literalsOf parts).map Literal.read? = (valuesOf plans).map some
  | [], plans, h => by
      cases h
      rfl
  | part :: rest, plans, h => by
      obtain ⟨plan, hplan, h⟩ := bind_eq_ok.mp h
      obtain ⟨more, hmore, h⟩ := bind_eq_ok.mp h
      cases h
      have hvalues : valuesOf (plan :: more) = plan.values ++ valuesOf more := List.flatMap_append
      rw [Condition.literalsOf, List.map_append, compile_values hplan, compileParts_values hmore,
        hvalues, List.map_append]

end

end compile

end Plan

/-! ### Numbers that are read -/

/-- All numbers in what a text makes have a sign, and they are finite unless the text has more than 308
digits in a row. -/
theorem Token.exists_of_number_mem_split {cs : List Char} {ts : List Token} (h : split cs = .ok ts)
    {x : Number} (hx : .number x ∈ ts) : ∃ negative m, x = .signed negative m ∧
      (Text.RunsWithin 308 cs → m.isFinite = true) := by
  obtain ⟨c, rest, after, hsuffix, hread⟩ := exists_readOne_of_mem_split h hx
  obtain ⟨hstart, hnumber⟩ := read?_of_readOne hread
  have hrest : ∀ d ∈ rest.takeWhile isNumberCharacter, Text.isDigit d = true ∨ d = '.' := by
    intro d hd
    have hcharacter := List.all_eq_true.mp List.all_takeWhile d hd
    simpa [isNumberCharacter] using hcharacter
  have hfirst : Text.isDigit c = true ∨
      c = '-' ∧ ∃ d ∈ (rest.takeWhile isNumberCharacter).head?, Text.isDigit d = true := by
    simp only [startsNumber, Bool.or_eq_true, Bool.and_eq_true, beq_iff_eq] at hstart
    rcases hstart with hdigit | ⟨hsign, hnext⟩
    · exact .inl hdigit
    · cases rest with
      | nil => cases hnext
      | cons d others =>
          have hcharacter : isNumberCharacter d = true := by simp [isNumberCharacter, hnext]
          exact .inr ⟨hsign, d, by simp [hcharacter], hnext⟩
  obtain ⟨negative, m, hm, hfinite⟩ := Number.exists_of_read? hrest hfirst hnumber
  refine ⟨negative, m, hm, fun hruns => hfinite (hruns.mono ?_)⟩
  have hprefix : c :: rest.takeWhile isNumberCharacter <+: c :: rest :=
    List.cons_prefix_cons.mpr ⟨rfl, List.takeWhile_prefix _⟩
  exact hprefix.isInfix.trans hsuffix.isInfix

namespace Literal
variable {l : Literal} {x : Number}

/-- A number that a literal is read as is the number that it holds, or finite. -/
theorem read?_eq_number (h : l.read? = some (.number x)) : l.value = .number x ∨ x.isFinite = true := by
  obtain ⟨declared, value⟩ := l
  have hdeclared := Value.naturalType?_of_coerce? h
  cases hdeclared
  cases value <;> simp only [read?, Value.coerce?, Option.some.injEq, Option.map_eq_some_iff,
    reduceCtorEq] at h
  · obtain ⟨y, hy, hyx⟩ := h
    cases hyx
    exact .inr (Option.filter_eq_some_iff.mp hy).2
  · exact .inl h

/-- A literal that holds a number is read as that number, if it is read at all. -/
theorem read?_of_number {v : Value} (hl : l.value = .number x) (h : l.read? = some v) :
    v = .number x := by
  unfold read? at h
  rw [hl] at h
  cases hdeclared : l.declared <;> rw [hdeclared] at h <;>
    simp only [Value.coerce?, Option.some.injEq, reduceCtorEq] at h
  exact h.symm

end Literal

/-- A condition that was read, all numbers of which are finite, is printable and its own normal form. -/
theorem Condition.isPrintable_of_read {text : String} {c : Condition} (h : read text = .ok c)
    (hfinite : c.HasFiniteNumbers) : c.IsPrintable ∧ c.normal = c := by
  obtain ⟨tokens, hsplit, hgroup⟩ := bind_eq_ok.mp h
  exact (ofTokens_eq_ok.mp hgroup).isPrintable (Token.isName_of_mem_split hsplit) hfinite

/-! ### Rules about prices -/

namespace Market

/-- Free offers, and those of a cast of nothing. -/
def freeCondition : Condition :=
  .all [.compare "price" .equals (.literal ⟨.number, .number .zero⟩),
    .compare "tax" .isIn (.list [⟨.number, .string "0"⟩])]

def freePlan : Plan :=
  .all [.compare ⟨⟨[], "price"⟩, .equals, .value (.number .zero), .number⟩,
    .compare ⟨⟨[], "tax"⟩, .isIn, .value (.list [.number .zero]), .number⟩]

/-- Offers below a power of ten. -/
def limitText (count : Nat) : String :=
  .ofList ("price < ".toList ++ (['1'] ++ List.replicate count '0'))

/-- Offers below a price that is out of range. -/
def hugeCondition : Condition :=
  .compare "price" .less (.literal ⟨.number, .number (.signed false .infinite)⟩)

def hugePlan : Plan :=
  .compare ⟨⟨[], "price"⟩, .less, .value (.number (.signed false .infinite)), .number⟩

theorem isName_price : Token.IsName "price" := by decide

/-- A price below what some digits denote. -/
theorem read_less {digits : List Char} {m : Magnitude} (h : Number.Reads digits m) :
    Condition.read (.ofList ("price < ".toList ++ digits)) =
      .ok (.compare "price" .less (.literal ⟨.number, .number (.signed false m)⟩)) := by
  have hspans : Token.Spans ("price < ".toList ++ digits)
      [.identifier "price", .less, .number (.signed false m)] := by
    have hnumber := Token.spans_nil.digits h false Token.breaks_nil.2
    have hright := (Condition.spans_operator .less hnumber).space
    have hwhole := (Condition.spans_name isName_price).append hright
      (Token.breaks_cons (by decide) (by decide) _)
    simpa [Operator.symbol, Operator.token] using hwhole
  have hoperand : Condition.IsOperand [.number (.signed false m)]
      (.literal ⟨.number, .number (.signed false m)⟩) := .literal (.bare (.number _))
  have hfield : ["price"].head? ≠ some "principal" := by decide
  have hcomparison : Condition.IsComparison [.identifier "price", .less, .number (.signed false m)]
      (.compare "price" .less (.literal ⟨.number, .number (.signed false m)⟩)) :=
    .mk (List.cons_ne_nil _ _) hfield rfl hoperand
  have hdenotes : Condition.Denotes Condition.IsUnary (.ofList ("price < ".toList ++ digits))
      (.compare "price" .less (.literal ⟨.number, .number (.signed false m)⟩)) :=
    ⟨_, .comparison hcomparison, by rwa [String.toList_ofList]⟩
  exact hdenotes.toDisjunction.read_eq

/-- Powers of ten are out of range from the 309th on. -/
theorem read_limitText {count : Nat} (hcount : 309 ≤ count) :
    Condition.read (limitText count) = .ok hugeCondition := by
  have hdigits : ∀ d ∈ ['1'] ++ List.replicate count '0', Text.isDigit d = true := by
    intro d hd
    rcases List.mem_append.mp hd with hd | hd
    · rw [List.mem_singleton.mp hd]
      decide
    · rw [List.eq_of_mem_replicate hd]
      decide
  have hvalue : Text.ofDigits 10 (['1'] ++ List.replicate count '0') = Nat.pow 10 count := by
    have hone : Text.ofDigits 10 ['1'] = 1 := by decide
    rw [Text.ofDigits_append_zeros, hone, Nat.one_mul]
  have hreads := Number.reads_digits (by simp) hdigits
  rw [Decimal.magnitude_infinite hcount (Nat.le_of_eq hvalue.symm)] at hreads
  exact read_less hreads

/-- What is written for infinity is read as a word that declares no type. -/
theorem read_inf : ¬ ∃ c, Condition.read "price < inf" = .ok c := by
  have hinf : Token.IsName "inf" := by decide
  have hspans : Token.Spans "price < inf".toList [.identifier "price", .less, .identifier "inf"] := by
    have hright := (Condition.spans_operator .less (Condition.spans_name hinf)).space
    have hwhole := (Condition.spans_name isName_price).append hright
      (Token.breaks_cons (by decide) (by decide) _)
    simpa [Operator.symbol, Operator.token] using hwhole
  rintro ⟨c, hc⟩
  unfold Condition.read at hc
  rw [hspans.split_eq, ok_bind] at hc
  cases hc

theorem read_freeText :
    Condition.read "price == 0 && tax in [number(\"0\")]" = .ok freeCondition := by
  have hprice : Condition.IsField "price" := Condition.isField_name (by decide) (by decide)
  have htax : Condition.IsField "tax" := Condition.isField_name (by decide) (by decide)
  have hzero : Literal.IsPrintable ⟨.number, .number .zero⟩ := .number .number rfl
  have hcast : Literal.IsPrintable ⟨.number, .string "0"⟩ := .string .number "0"
  have hlist : Operand.IsPrintable (.list [⟨.number, .string "0"⟩]) :=
    .list (List.cons_ne_nil _ _) (by simp [hcast])
  have hprintable : freeCondition.IsPrintable := by
    simp [freeCondition, Condition.IsPrintable, Condition.ArePrintable, hprice, htax, hlist,
      Operand.IsPrintable.literal hzero]
  have htext : freeCondition.write = "price == 0 && tax in [number(\"0\")]" := by decide +kernel
  rw [← htext]
  exact Condition.read_write_normal hprintable

end Market

namespace Plan

/-- The numbers of the plan of a text are those among the tokens of the text, and others that casts were
read as.  None of them is `nan`, and those of casts are finite.  If all are finite, the text of the
condition that was read denotes that condition again.  All are finite if the text has no more than 308
digits in a row. -/
theorem values_of_read {r : Registry} {type text : String} {c : Condition} {plan : Plan}
    (hread : Condition.read text = .ok c) (hcompile : compile r type c = .ok plan) :
    ∃ tokens, Token.split text.toList = .ok tokens ∧
      (∀ x, Token.number x ∈ tokens → Value.number x ∈ plan.values) ∧
      (∀ x, Value.number x ∈ plan.values →
        x ≠ .nan ∧ (x.isFinite = true ∨ Token.number x ∈ tokens)) ∧
      ((∀ x, Value.number x ∈ plan.values → x.isFinite = true) → Condition.read c.write = .ok c) ∧
      (Text.RunsWithin 308 text.toList → ∀ x, Value.number x ∈ plan.values → x.isFinite = true) := by
  obtain ⟨tokens, hsplit, hgroup⟩ := bind_eq_ok.mp hread
  have hgroup := Condition.ofTokens_eq_ok.mp hgroup
  have hvalues := compile_values hcompile
  -- a number in the plan is what a literal is read as, and a number in a literal gets into the plan
  have hliteral : ∀ x, Value.number x ∈ plan.values → ∃ l ∈ c.literals, l.read? = some (.number x) := by
    intro x hx
    have hmem : some (Value.number x) ∈ c.literals.map Literal.read? :=
      hvalues ▸ List.mem_map_of_mem hx
    exact List.mem_map.mp hmem
  have hvalue : ∀ l ∈ c.literals, ∀ x, l.value = .number x → Value.number x ∈ plan.values := by
    intro l hl x hx
    have hmem : l.read? ∈ plan.values.map some := hvalues ▸ List.mem_map_of_mem hl
    obtain ⟨v, hv, hlv⟩ := List.mem_map.mp hmem
    rwa [Literal.read?_of_number hx hlv.symm] at hv
  have horigin : ∀ x, Value.number x ∈ plan.values → x.isFinite = true ∨ Token.number x ∈ tokens := by
    intro x hx
    obtain ⟨l, hl, hlx⟩ := hliteral x hx
    rcases Literal.read?_eq_number hlx with hnumber | hfinite
    · exact .inr (hgroup.mem_number.mpr ⟨l, hl, hnumber⟩)
    · exact .inl hfinite
  refine ⟨tokens, hsplit, fun x hx => ?tokens, fun x hx => ⟨?nan, horigin x hx⟩, fun hfinite => ?back,
    fun hruns x hx => ?finite⟩
  case tokens =>
    obtain ⟨l, hl, hlx⟩ := hgroup.mem_number.mp hx
    exact hvalue l hl x hlx
  case nan =>
    rintro rfl
    rcases horigin _ hx with hfinite | htoken
    · cases hfinite
    · obtain ⟨negative, m, hsigned, -⟩ := Token.exists_of_number_mem_split hsplit htoken
      cases hsigned
  case back =>
    have hall : c.HasFiniteNumbers := Condition.hasFiniteNumbers_of_literals fun l hl x hx =>
      hfinite x (hvalue l hl x hx)
    obtain ⟨hprintable, hnormal⟩ := Condition.isPrintable_of_read hread hall
    rw [Condition.read_write_normal hprintable, hnormal]
  case finite =>
    rcases horigin x hx with hfinite | htoken
    · exact hfinite
    · obtain ⟨negative, m, rfl, hm⟩ := Token.exists_of_number_mem_split hsplit htoken
      exact hm hruns

/-- The numbers of a rule about offers, one of which is in a cast. -/
theorem values_of_read_free :
    Condition.read "price == 0 && tax in [number(\"0\")]" = .ok Market.freeCondition ∧
    compile Office.registry "task" Market.freeCondition = .ok Market.freePlan ∧
    Condition.read Market.freeCondition.write = .ok Market.freeCondition := by
  have hcompile : compile Office.registry "task" Market.freeCondition = .ok Market.freePlan := rfl
  obtain ⟨tokens, -, -, -, hback, -⟩ := values_of_read Market.read_freeText hcompile
  refine ⟨Market.read_freeText, hcompile, hback fun x hx => ?_⟩
  have hx : Value.number x ∈ [Value.number .zero, .number .zero] := hx
  simp only [List.mem_cons, List.not_mem_nil, or_false, or_self, Value.number.injEq] at hx
  rw [hx]
  rfl

/-- A number of 310 digits is accepted and infinite, and the text of the condition that it is in is no
condition. -/
theorem infinite_values_of_read :
    Condition.read (Market.limitText 309) = .ok Market.hugeCondition ∧
    compile Office.registry "task" Market.hugeCondition = .ok Market.hugePlan ∧
    Value.number (.signed false .infinite) ∈ Market.hugePlan.values ∧
    (Number.signed false .infinite).isFinite = false ∧
    Market.hugeCondition.write = "price < inf" ∧
    ¬ ∃ c, Condition.read "price < inf" = .ok c :=
  ⟨Market.read_limitText (Nat.le_refl 309), rfl, List.mem_singleton.mpr rfl, rfl, by decide +kernel,
    Market.read_inf⟩

end Plan

end AccessControl
