import AccessControl.Proofs.Binding
import AccessControl.Sql.Filter

/-! # The values that a statement is given

Every value that a filter in SQL is given has a `Source`: either it is fixed by the rules and the
dialect, or it is an attribute of the principal.  The sources are known from the rules alone, comparison
by comparison (`Comparison.sources`), and the values of a statement are the sources filled in for the
principal, in the same order (`Request.parameters_filter`). -/

namespace AccessControl.Sql

/-! ### Values of statements -/

namespace Statement

@[simp] theorem parameters_nil : parameters [] = [] := rfl

@[simp] theorem parameters_text (s : String) (rest : Statement) :
    parameters (.text s :: rest) = parameters rest := rfl

@[simp] theorem parameters_value (p : Parameter) (rest : Statement) :
    parameters (.value p :: rest) = p :: parameters rest := rfl

@[simp] theorem parameters_append (s t : Statement) :
    parameters (s ++ t) = parameters s ++ parameters t := by
  induction s with
  | nil => rfl
  | cons piece s ih =>
      cases piece with
      | text => exact ih
      | value p => exact congrArg (p :: ·) ih

@[simp] theorem parameters_parenthesized (needed : Bool) (s : Statement) :
    parameters (parenthesized needed s) = parameters s := by
  cases needed with
  | true => simp [parenthesized]
  | false => rfl

theorem parameters_valuePieces : ∀ values : List Parameter, parameters (valuePieces values) = values
  | [] => rfl
  | [_] => rfl
  | first :: second :: rest => by
      have ih : parameters (valuePieces (second :: rest)) = second :: rest :=
        parameters_valuePieces (second :: rest)
      simp [valuePieces, ih]

end Statement

namespace Expression

/-- The values of a condition in the order of their places. -/
def parameters (e : Expression) : List Parameter := Statement.parameters e.pieces

@[simp] theorem parameters_and (a b : Expression) :
    (Expression.and a b).parameters = a.parameters ++ b.parameters := by
  simp [parameters, pieces]

@[simp] theorem parameters_or (a b : Expression) :
    (Expression.or a b).parameters = a.parameters ++ b.parameters := by
  simp [parameters, pieces]

@[simp] theorem parameters_not (e : Expression) : (Expression.not e).parameters = e.parameters := by
  simp [parameters, pieces]

@[simp] theorem parameters_subquery (table aliasName : String) (e : Expression) :
    (subquery table aliasName e).parameters = .integer 1 :: e.parameters := by
  simp [parameters, pieces]

end Expression

/-! ### Values of groups -/

namespace Group

/-- The values of a group in the order of their places. -/
def parameters (g : Group) : List Parameter := g.toExpression.parameters

theorem parameters_foldl_connect (j : Junction) : ∀ (rest : List Expression) (first : Expression),
    (rest.foldl (connect j) first).parameters =
      first.parameters ++ rest.flatMap Expression.parameters
  | [], first => by simp
  | next :: rest, first => by
      have hconnect : (connect j first next).parameters = first.parameters ++ next.parameters := by
        cases j <;> simp [connect]
      rw [List.foldl_cons, parameters_foldl_connect j rest, hconnect, List.append_assoc,
        List.flatMap_cons]

/-- A group is given the values of its members, negated or not. -/
theorem parameters_eq (g : Group) : g.parameters = g.members.flatMap Expression.parameters := by
  have hjoined : g.joined.parameters = g.members.flatMap Expression.parameters := by
    unfold joined
    cases g.members with
    | nil => rfl
    | cons first rest => exact parameters_foldl_connect g.junction rest first
  unfold parameters toExpression
  cases g.negated with
  | true => exact (Expression.parameters_not _).trans hjoined
  | false => exact hjoined

theorem parameters_single (e : Expression) : (single e).parameters = e.parameters := rfl

theorem parameters_all (groups : List Group) : (all groups).parameters = groups.flatMap parameters := by
  cases groups with
  | nil => rfl
  | cons first rest =>
      show parameters ⟨false, .all, (first :: rest).map toExpression⟩ = _
      rw [parameters_eq, List.flatMap_map]
      rfl

theorem parameters_any (groups : List Group) : (any groups).parameters = groups.flatMap parameters := by
  cases groups with
  | nil => rfl
  | cons first rest =>
      show parameters ⟨false, .any, (first :: rest).map toExpression⟩ = _
      rw [parameters_eq, List.flatMap_map]
      rfl

theorem parameters_negate (g : Group) : g.negate.parameters = g.parameters := by
  rw [parameters_eq, parameters_eq]
  rfl

/-- A step along a relation adds the constant that its subquery selects. -/
theorem parameters_within (inner : Group) (h : Hop) :
    (h.within inner).parameters = .integer 1 :: inner.parameters := by
  rw [Hop.within, parameters_single, Expression.parameters_subquery]
  exact congrArg (Parameter.integer 1 :: ·) (Expression.parameters_and _ inner.toExpression)

theorem parameters_foldl_within : ∀ (hops : List Hop) (inner : Group),
    (hops.foldl Hop.within inner).parameters =
      List.replicate hops.length (.integer 1) ++ inner.parameters
  | [], inner => rfl
  | h :: hops, inner => by
      rw [List.foldl_cons, parameters_foldl_within hops, parameters_within, List.length_cons,
        List.replicate_succ', List.append_assoc]
      rfl

end Group

/-! ### Sources -/

/-- Where a value of a statement comes from. -/
inductive Source where
  | fixed (p : Parameter)
  | attribute (name : String) (declared : ValueType)

/-- The value that a source gives on behalf of a principal. -/
def Source.fill (d : Dialect) (p : Principal) : Source → Parameter
  | .fixed x => x
  | .attribute name declared =>
    match Comparison.attributeValue p name declared with
    | .ok v => bind d v
    | .error _ => .null

/-- The items of a list, or a single value. -/
def itemsOf : Value → List Value
  | .list items => items
  | v => [v]

theorem itemsOf_of_naturalType? {v : Value} {t : ValueType} (h : Literal.naturalType? v = some t) :
    itemsOf v = [v] := by
  cases v <;> first | rfl | cases h

/-- The values that bring a column of a declared type to the layout of its values. -/
def layoutValues (d : Dialect) (declared : ValueType) : List Parameter :=
  if d = .sqlite ∧ declared = .date then [.text dateLayout] else []

section leaf
variable {d : Dialect} {field table name : String} {operator : Operator} {v : Value} {t : ValueType}

theorem parameters_comparedTerm (hv : v.type? = some t) :
    Statement.parameters (comparedTerm d (.column table name) v).pieces = layoutValues d t := by
  by_cases hdate : d = .sqlite ∧ t = .date
  · rw [comparedTerm, if_pos ⟨hdate.1, by rw [hv, hdate.2]⟩, layoutValues, if_pos hdate]
    rfl
  · rw [comparedTerm, if_neg fun h => hdate ⟨h.1, by rw [hv] at h; exact Option.some.inj h.2⟩,
      layoutValues, if_neg hdate]
    rfl

/-- The values of a test in the order of their places. -/
theorem parameters_presentTest (hv : v.Suits operator t) {test : Expression}
    (h : presentTest d field (.column table name) operator v = .ok test) :
    test.parameters = if operator = .contains then (itemsOf v).map (bind d) ++ [.integer 0]
      else layoutValues d t ++ (itemsOf v).map (bind d) := by
  have hleft : Statement.parameters (comparedTerm d (.column table name) v).pieces =
      layoutValues d t := parameters_comparedTerm hv.type?
  have hcompare : Literal.naturalType? v = some t → ∀ sign,
      (Expression.compare (comparedTerm d (.column table name) v) sign
        (.parameter (bind d v))).parameters = layoutValues d t ++ (itemsOf v).map (bind d) := by
    intro hnatural sign
    rw [itemsOf_of_naturalType? hnatural]
    simp [Expression.parameters, Expression.pieces, Term.pieces, hleft]
  cases operator with
  | isIn =>
      obtain ⟨first, rest, rfl, -⟩ := hv
      cases h
      simp [Expression.parameters, Expression.pieces, membershipPieces,
        Statement.parameters_valuePieces, hleft, itemsOf]
  | contains =>
      match v with
      | .string part =>
          cases h
          cases d <;> rfl
      | .null | .number _ | .boolean _ | .date _ | .list _ => cases h
  | equals =>
      cases h
      exact hcompare hv .equal
  | notEquals =>
      cases h
      exact hcompare hv .different
  | greater =>
      cases h
      exact hcompare hv .greater
  | less =>
      cases h
      exact hcompare hv .less

theorem parameters_leaf {e : Expression}
    (h : leaf d field (.column table name) operator v = .ok e) :
    ∃ test, presentTest d field (.column table name) operator v = .ok test ∧
      e.parameters = test.parameters := by
  obtain ⟨test, htest, h⟩ := bind_eq_ok.mp h
  refine ⟨test, htest, ?_⟩
  cases operator <;> cases h <;> simp [Expression.parameters, Expression.pieces, Term.pieces]

end leaf

end AccessControl.Sql

namespace AccessControl.Comparison

open Sql

/-- The sources of the right side of a comparison. -/
def operandSources (d : Dialect) (c : Comparison) : List Source :=
  match c.operand with
  | .value v => (itemsOf v).map fun x => .fixed (bind d x)
  | .attribute name => [.attribute name c.declared]

/-- The sources of the test of a comparison: a date may have to be brought to a layout, and the position
of a text is compared with zero. -/
def testSources (d : Dialect) (c : Comparison) : List Source :=
  if c.operator = .contains then c.operandSources d ++ [.fixed (.integer 0)]
  else (layoutValues d c.declared).map .fixed ++ c.operandSources d

/-- The sources of the values that a comparison gives to a statement. -/
def sources (d : Dialect) (c : Comparison) : List Source :=
  List.replicate c.path.relations.length (.fixed (.integer 1)) ++ c.testSources d

section render
variable {d : Dialect} {c : Comparison} {p : Principal} {v : Value}

theorem fill_operandSources {r : Registry} {type : String} (hc : c.WellTyped r type)
    (hv : c.expected p = .ok v) :
    (c.operandSources d).map (Source.fill d p) = (itemsOf v).map (bind d) := by
  unfold operandSources
  match hoperand : c.operand with
  | .value w =>
      simp only [expected, hoperand] at hv
      cases hv
      rw [List.map_map]
      rfl
  | .attribute name =>
      have hsuits := hc.expected_suits hv
      rw [Value.suits_of_ne (hc.reference name hoperand)] at hsuits
      simp only [expected, hoperand] at hv
      rw [itemsOf_of_naturalType? hsuits]
      simp only [List.map_cons, List.map_nil, Source.fill, hv]

theorem fill_testSources {r : Registry} {type : String} (hc : c.WellTyped r type)
    (hv : c.expected p = .ok v) {field table name : String} {e : Expression}
    (he : leaf d field (.column table name) c.operator v = .ok e) :
    e.parameters = (c.testSources d).map (Source.fill d p) := by
  obtain ⟨test, htest, hparameters⟩ := parameters_leaf he
  rw [hparameters, parameters_presentTest (hc.expected_suits hv) htest, testSources]
  split
  · rw [List.map_append, fill_operandSources hc hv]
    rfl
  · rw [List.map_append, fill_operandSources hc hv, List.map_map]
    exact congrArg (· ++ _) (List.map_id _).symm

/-- Traversing relations takes one step for each. -/
theorem length_traverseAll {s : Schema} : ∀ (path : List String) {place reached : Place},
    s.language.traverseAll place path = .ok reached →
    reached.hops.length = path.length + place.hops.length
  | [], place, reached, h => by
      cases h
      simp
  | name :: rest, place, reached, h => by
      obtain ⟨next, hnext, h⟩ := bind_eq_ok.mp h
      have ih := length_traverseAll rest h
      obtain ⟨mapping, -, hnext⟩ := bind_eq_ok.mp hnext
      split at hnext
      · cases hnext
      · obtain ⟨target, -, hnext⟩ := bind_eq_ok.mp hnext
        cases hnext
        rw [ih, List.length_cons, List.length_cons]
        omega

/-- A comparison gives a statement the values of its sources. -/
theorem parameters_render {r : Registry} {type : String} (hc : c.WellTyped r type) {s : Schema}
    {place : Place} (hplace : place.hops = []) {g : Group}
    (hg : c.render s.language place p = .ok g) :
    g.parameters = (c.sources s.dialect).map (Source.fill s.dialect p) := by
  obtain ⟨v, hv, hg⟩ := bind_eq_ok.mp hg
  obtain ⟨reached, hreached, hg⟩ := bind_eq_ok.mp hg
  obtain ⟨mapping, -, hg⟩ := bind_eq_ok.mp hg
  obtain ⟨e, he, hg⟩ := bind_eq_ok.mp hg
  cases hg
  rw [Group.parameters_foldl_within, Group.parameters_single, fill_testSources hc hv he,
    length_traverseAll _ hreached, hplace, sources, List.map_append, List.map_replicate]
  rfl

end render
end AccessControl.Comparison

/-! ### Plans and requests -/

namespace AccessControl

open Sql

section render
variable {s : Schema} {place : Place} {p : Principal}

/-- Whether a comparison, once written in SQL, gives a statement the values of its sources. -/
def Comparison.GivesSources (s : Schema) (place : Place) (p : Principal) (c : Comparison) : Prop :=
  ∀ g, c.render s.language place p = .ok g →
    g.parameters = (c.sources s.dialect).map (Source.fill s.dialect p)

namespace Plan

mutual

/-- A plan gives a statement the values of the sources of its comparisons, in their order. -/
theorem parameters_render : ∀ (plan : Plan) {g : Group},
    (∀ c ∈ plan.comparisons, c.GivesSources s place p) → plan.render s.language place p = .ok g →
    g.parameters = (plan.comparisons.flatMap (·.sources s.dialect)).map (Source.fill s.dialect p)
  | .compare c, g, h, hg => by
      rw [comparisons, List.flatMap_singleton]
      exact h c (List.mem_singleton.mpr rfl) g hg
  | .all parts, g, h, hg => by
      obtain ⟨gs, hgs, hg⟩ := bind_eq_ok.mp hg
      cases hg
      exact (Group.parameters_all gs).trans (parameters_renderParts parts h hgs)
  | .any parts, g, h, hg => by
      obtain ⟨gs, hgs, hg⟩ := bind_eq_ok.mp hg
      cases hg
      exact (Group.parameters_any gs).trans (parameters_renderParts parts h hgs)
  | .not inner, g, h, hg => by
      obtain ⟨f, hf, hg⟩ := bind_eq_ok.mp hg
      cases hg
      exact (Group.parameters_negate f).trans (parameters_render inner h hf)

theorem parameters_renderParts : ∀ (parts : List Plan) {gs : List Group},
    (∀ c ∈ comparisonsOf parts, c.GivesSources s place p) →
    renderParts s.language place p parts = .ok gs →
    gs.flatMap Group.parameters =
      ((comparisonsOf parts).flatMap (·.sources s.dialect)).map (Source.fill s.dialect p)
  | [], gs, _, hgs => by
      cases hgs
      rfl
  | part :: rest, gs, h, hgs => by
      obtain ⟨hpart, hrest⟩ := List.forall_mem_append.mp h
      obtain ⟨g, hg, hgs⟩ := bind_eq_ok.mp hgs
      obtain ⟨more, hmore, hgs⟩ := bind_eq_ok.mp hgs
      cases hgs
      rw [List.flatMap_cons, parameters_render part hpart hg, parameters_renderParts rest hrest hmore,
        comparisonsOf, List.flatMap_append, List.map_append]

end

end Plan

namespace Request

theorem parameters_fragments {candidates : List Permission} {gs : List Group}
    (h : ∀ c ∈ boundComparisons candidates, c.GivesSources s place p)
    (hgs : fragments s.language place p candidates = .ok gs) :
    gs.flatMap Group.parameters =
      ((boundComparisons candidates).flatMap (·.sources s.dialect)).map (Source.fill s.dialect p) := by
  rw [fragments_eq] at hgs
  obtain ⟨parts, hparts, hgs⟩ := bind_eq_ok.mp hgs
  cases hgs
  -- the fragment that every row satisfies has no values
  have hlast : (if candidates.any (·.isUnconditional) then [s.language.always] else []).flatMap
      Group.parameters = [] := by
    split
    · rfl
    · rfl
  rw [List.flatMap_append, hlast, List.append_nil]
  exact Plan.parameters_renderParts _ h hparts

theorem parameters_combine (gs : List Group) :
    (combine s.language gs).parameters = gs.flatMap Group.parameters := by
  match gs with
  | [] => rfl
  | [only] => exact (List.flatMap_singleton _ _).symm
  | first :: second :: rest => exact Group.parameters_any (first :: second :: rest)

/-- The sources of the values that the filter of a request gives to a statement. -/
def sources (q : Request) (d : Dialect) (ps : Permissions) : List Source :=
  (boundComparisons (ps.candidates q.principal q.type q.action)).flatMap (·.sources d)

/-- The comparisons that the filter of a request binds are well typed for its type. -/
theorem wellTyped_bound {providers : List Provider} {r : Registry} {ds : List Definition}
    {ps : Permissions} (hr : Registry.build providers = .ok r) (hps : Permissions.load r ds = .ok ps)
    {q : Request} {c : Comparison}
    (hc : c ∈ boundComparisons (ps.candidates q.principal q.type q.action)) :
    c.WellTyped r q.type := by
  obtain ⟨candidate, hcandidate, plan, hplan, hc⟩ := exists_of_mem_boundComparisons hc
  exact wellTyped_candidates hr hps hcandidate hplan c hc

/-- A filter in SQL is made of the fragments of the candidates, which are written from the table of the
type. -/
theorem exists_fragments {r : Registry} {q : Request} {ps : Permissions} {found : List Permission}
    {g : Group} (h : q.filter r ps s.language place = .ok ⟨found, some g⟩) :
    ∃ gs, fragments s.language place q.principal (ps.candidates q.principal q.type q.action) = .ok gs ∧
      g = combine s.language gs := by
  obtain ⟨candidates, hcandidates, h⟩ := bind_eq_ok.mp h
  obtain ⟨_, -, hcandidates⟩ := bind_eq_ok.mp hcandidates
  cases hcandidates
  split at h
  · cases h
  · obtain ⟨gs, hgs, h⟩ := bind_eq_ok.mp h
    cases h
    exact ⟨gs, hgs, rfl⟩

theorem hops_of_place {type : String} (h : s.place type = .ok place) : place.hops = [] := by
  obtain ⟨mapping, -, h⟩ := bind_eq_ok.mp h
  cases h
  rfl

/-- The values of a filter in SQL are its sources, filled in for the principal. -/
theorem parameters_filter {providers : List Provider} {r : Registry} {ds : List Definition}
    {ps : Permissions} (hr : Registry.build providers = .ok r) (hps : Permissions.load r ds = .ok ps)
    {q : Request} (hplace : s.place q.type = .ok place) {found : List Permission} {g : Group}
    (h : q.filter r ps s.language place = .ok ⟨found, some g⟩) :
    g.parameters = (q.sources s.dialect ps).map (Source.fill s.dialect q.principal) := by
  obtain ⟨gs, hgs, rfl⟩ := exists_fragments h
  rw [parameters_combine]
  refine parameters_fragments (fun c hc f hf => ?_) hgs
  exact c.parameters_render (wellTyped_bound hr hps hc) (hops_of_place hplace) hf

end Request
end render
end AccessControl
