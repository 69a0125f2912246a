import AccessControl.Proofs.Sql.Parameters

/-! # What a principal can change in a statement

A statement with placeholders is the same text whatever its values are, and what a filter looks like
apart from its values does not depend on the principal's attributes: how a comparison is written is
decided by its operator and its declared type.  So for principals of the same roles the prepared
statements of a request have the same text, and their values differ only where an attribute of the
principal stands (`Request.prepared_eq`). -/

namespace AccessControl.Sql

/-! ### Statements without their values -/

/-- A piece without its value. -/
def Piece.blank : Piece → Piece
  | .text s => .text s
  | .value _ => .value .null

namespace Statement

/-- A statement without its values. -/
def blank (s : Statement) : Statement := s.map Piece.blank

@[simp] theorem blank_nil : blank [] = [] := rfl

@[simp] theorem blank_cons (piece : Piece) (s : Statement) :
    blank (piece :: s) = piece.blank :: blank s := rfl

@[simp] theorem blank_append (s t : Statement) : blank (s ++ t) = blank s ++ blank t :=
  List.map_append

/-- The text with placeholders does not depend on the values. -/
theorem preparedAfter_blank (d : Dialect) : ∀ (s : Statement) (earlier : Nat),
    preparedAfter d earlier (blank s) = preparedAfter d earlier s
  | [], _ => rfl
  | .text t :: rest, earlier => congrArg (t ++ ·) (preparedAfter_blank d rest earlier)
  | .value _ :: rest, earlier => congrArg (_ ++ ·) (preparedAfter_blank d rest (earlier + 1))

theorem prepared_eq_of_blank {s t : Statement} (h : blank s = blank t) (d : Dialect) :
    prepared d s = prepared d t := by
  rw [prepared, ← preparedAfter_blank, h, preparedAfter_blank]
  rfl

end Statement

/-! ### Conditions without their values -/

/-- A term without its values. -/
def Term.blank : Term → Term
  | .column table name => .column table name
  | .parameter _ => .parameter .null
  | .call function first second => .call function first.blank second.blank

/-- A condition without its values. -/
def Expression.blank : Expression → Expression
  | .constant value => .constant value
  | .compare left sign right => .compare left.blank sign right.blank
  | .isNull t => .isNull t.blank
  | .isPresent t => .isPresent t.blank
  | .among t values => .among t.blank (values.map fun _ => .null)
  | .subquery table aliasName condition => .subquery table aliasName condition.blank
  | .and left right => .and left.blank right.blank
  | .or left right => .or left.blank right.blank
  | .not inner => .not inner.blank

namespace Statement

theorem blank_term : ∀ t : Term, blank t.blank.pieces = blank t.pieces
  | .column _ _ => rfl
  | .parameter _ => rfl
  | .call function first second => by
      simp only [Term.blank, Term.pieces, blank_cons, blank_append, blank_term first,
        blank_term second]

theorem blank_valuePieces : ∀ values : List Parameter,
    blank (valuePieces (values.map fun _ => .null)) = blank (valuePieces values)
  | [] => rfl
  | [_] => rfl
  | first :: second :: rest => by
      have ih := blank_valuePieces (second :: rest)
      simp only [List.map_cons] at ih
      simp only [List.map_cons, valuePieces, blank_cons, ih, Piece.blank]

theorem blank_membershipPieces (t : Term) (values : List Parameter) :
    blank (membershipPieces t.blank (values.map fun _ => .null)) =
      blank (membershipPieces t values) := by
  cases values with
  | nil => rfl
  | cons first rest =>
      have hvalues := blank_valuePieces (first :: rest)
      simp only [List.map_cons] at hvalues
      simp only [List.map_cons, membershipPieces, blank_append, blank_cons, blank_term, hvalues]

theorem blank_parenthesized (needed : Bool) {s t : Statement} (h : blank s = blank t) :
    blank (parenthesized needed s) = blank (parenthesized needed t) := by
  cases needed with
  | true => simp only [parenthesized, if_true, blank_cons, blank_append, h]
  | false => exact h

/-- Which parentheses a condition needs is decided without its values. -/
theorem blank_pieces (e : Expression) : blank e.blank.pieces = blank e.pieces := by
  have htight : ∀ e : Expression, e.blank.bindsTighter = e.bindsTighter ∧
      e.blank.isConjunction = e.isConjunction ∧ e.blank.isDisjunction = e.isDisjunction := by
    intro e
    cases e <;> exact ⟨rfl, rfl, rfl⟩
  induction e with
  | constant value => rfl
  | compare left sign right =>
      simp only [Expression.blank, Expression.pieces, blank_append, blank_cons, blank_term]
  | isNull t => simp only [Expression.blank, Expression.pieces, blank_append, blank_term]
  | isPresent t => simp only [Expression.blank, Expression.pieces, blank_append, blank_term]
  | among t values => exact blank_membershipPieces t values
  | subquery table aliasName condition ih =>
      simp only [Expression.blank, Expression.pieces, blank_cons, blank_append, ih]
  | and left right ihLeft ihRight =>
      obtain ⟨hleft, hconjunction, -⟩ := htight left
      simp only [Expression.blank, Expression.pieces, blank_append, blank_cons, hleft, hconjunction,
        (htight right).1, blank_parenthesized _ ihLeft, blank_parenthesized _ ihRight]
  | or left right ihLeft ihRight =>
      obtain ⟨hleft, -, hdisjunction⟩ := htight left
      simp only [Expression.blank, Expression.pieces, blank_append, blank_cons, hleft, hdisjunction,
        (htight right).1, blank_parenthesized _ ihLeft, blank_parenthesized _ ihRight]
  | not inner ih =>
      simp only [Expression.blank, Expression.pieces, blank_cons, (htight inner).1,
        blank_parenthesized _ ih]

end Statement

/-! ### Groups without their values -/

namespace Group

/-- A group without its values. -/
def blank (g : Group) : Group := ⟨g.negated, g.junction, g.members.map Expression.blank⟩

theorem blank_foldl_connect (j : Junction) : ∀ (rest : List Expression) (first : Expression),
    (rest.foldl (connect j) first).blank =
      (rest.map Expression.blank).foldl (connect j) first.blank
  | [], _ => rfl
  | next :: rest, first => by
      have hconnect : (connect j first next).blank = connect j first.blank next.blank := by
        cases j <;> rfl
      rw [List.foldl_cons, blank_foldl_connect j rest, hconnect]
      rfl

theorem blank_toExpression (g : Group) : g.toExpression.blank = g.blank.toExpression := by
  have hjoined : g.joined.blank = g.blank.joined := by
    obtain ⟨negated, junction, members⟩ := g
    cases members with
    | nil => rfl
    | cons first rest => exact blank_foldl_connect junction rest first
  obtain ⟨negated, junction, members⟩ := g
  cases negated with
  | true => exact congrArg Expression.not hjoined
  | false => exact hjoined

theorem blank_map_toExpression (groups : List Group) :
    (groups.map toExpression).map Expression.blank = (groups.map blank).map toExpression := by
  rw [List.map_map, List.map_map]
  exact List.map_congr_left fun g _ => blank_toExpression g

theorem blank_all (groups : List Group) : (all groups).blank = all (groups.map blank) := by
  cases groups with
  | nil => rfl
  | cons first rest => exact congrArg (Group.mk false .all) (blank_map_toExpression (first :: rest))

theorem blank_any (groups : List Group) : (any groups).blank = any (groups.map blank) := by
  cases groups with
  | nil => rfl
  | cons first rest => exact congrArg (Group.mk false .any) (blank_map_toExpression (first :: rest))

theorem blank_foldl_within : ∀ (hops : List Hop) (inner : Group),
    (hops.foldl Hop.within inner).blank = hops.foldl Hop.within inner.blank
  | [], _ => rfl
  | h :: hops, inner => by
      have hwithin : (h.within inner).blank = h.within inner.blank := by
        rw [Hop.within, Hop.within, ← blank_toExpression]
        rfl
      rw [List.foldl_cons, blank_foldl_within hops, hwithin]
      rfl

end Group

/-! ### Comparisons without their values -/

section leaf
variable {d : Dialect} {field : String} {column : Term} {operator : Operator} {v w : Value}
  {t : ValueType}

/-- How a test is written is decided by the type of its value. -/
theorem blank_presentTest (hoperator : operator ≠ .isIn) (hv : v.type? = some t)
    (hw : w.type? = some t) {test test' : Expression}
    (h : presentTest d field column operator v = .ok test)
    (h' : presentTest d field column operator w = .ok test') : test.blank = test'.blank := by
  have hleft : comparedTerm d column v = comparedTerm d column w := by
    unfold comparedTerm
    rw [hv, hw]
  cases operator with
  | isIn => exact absurd rfl hoperator
  | contains =>
      match v, w with
      | .string _, .string _ =>
          cases h
          cases h'
          rfl
      | .null, _ | .number _, _ | .boolean _, _ | .date _, _ | .list _, _ => cases h
      | .string _, .null | .string _, .number _ | .string _, .boolean _ | .string _, .date _
      | .string _, .list _ => cases h'
  | equals | notEquals | greater | less =>
      cases h
      cases h'
      simp only [Expression.blank, Term.blank, hleft]

theorem blank_leaf (hoperator : operator ≠ .isIn) (hv : v.type? = some t) (hw : w.type? = some t)
    {e e' : Expression} (h : leaf d field column operator v = .ok e)
    (h' : leaf d field column operator w = .ok e') : e.blank = e'.blank := by
  obtain ⟨test, htest, h⟩ := bind_eq_ok.mp h
  obtain ⟨test', htest', h'⟩ := bind_eq_ok.mp h'
  have hblank := blank_presentTest hoperator hv hw htest htest'
  cases operator <;> cases h <;> cases h' <;> simp only [Expression.blank, hblank]

end leaf
end AccessControl.Sql

/-! ### Plans without their values -/

namespace AccessControl

open Sql

section render
variable {s : Schema} {place : Place} {p q : Principal}

/-- Whether a comparison is written in SQL alike for two principals, but for its values. -/
def Comparison.WrittenAlike (s : Schema) (place : Place) (p q : Principal) (c : Comparison) : Prop :=
  ∀ g g', c.render s.language place p = .ok g → c.render s.language place q = .ok g' →
    g.blank = g'.blank

/-- A well-typed comparison is written alike for all principals. -/
theorem Comparison.WellTyped.writtenAlike {r : Registry} {type : String} {c : Comparison}
    (hc : c.WellTyped r type) : c.WrittenAlike s place p q := by
  intro g g' hg hg'
  obtain ⟨v, hv, hg⟩ := bind_eq_ok.mp hg
  obtain ⟨w, hw, hg'⟩ := bind_eq_ok.mp hg'
  obtain ⟨reached, hreached, hg⟩ := bind_eq_ok.mp hg
  rw [hreached, ok_bind] at hg'
  match hoperand : c.operand with
  | .value x =>
      -- a fixed value is the same for both
      simp only [expected, hoperand] at hv hw
      cases hv
      cases hw
      rw [hg] at hg'
      cases hg'
      rfl
  | .attribute name =>
      obtain ⟨mapping, hmapping, hg⟩ := bind_eq_ok.mp hg
      obtain ⟨mapping', hmapping', hg'⟩ := bind_eq_ok.mp hg'
      rw [hmapping] at hmapping'
      cases hmapping'
      obtain ⟨e, he, hg⟩ := bind_eq_ok.mp hg
      obtain ⟨e', he', hg'⟩ := bind_eq_ok.mp hg'
      cases hg
      cases hg'
      have hblank : e.blank = e'.blank := blank_leaf (hc.reference name hoperand)
        (hc.expected_suits hv).type? (hc.expected_suits hw).type? he he'
      rw [Group.blank_foldl_within, Group.blank_foldl_within]
      exact congrArg (fun x => reached.hops.foldl Hop.within (Group.single x)) hblank

namespace Plan

mutual

/-- A plan is written alike for two principals, if its comparisons are. -/
theorem blank_render : ∀ (plan : Plan) {g g' : Group},
    (∀ c ∈ plan.comparisons, c.WrittenAlike s place p q) →
    plan.render s.language place p = .ok g → plan.render s.language place q = .ok g' →
    g.blank = g'.blank
  | .compare c, g, g', h, hg, hg' => h c (List.mem_singleton.mpr rfl) g g' hg hg'
  | .all parts, g, g', h, hg, hg' => by
      obtain ⟨gs, hgs, hg⟩ := bind_eq_ok.mp hg
      obtain ⟨gs', hgs', hg'⟩ := bind_eq_ok.mp hg'
      cases hg
      cases hg'
      have hparts := blank_renderParts parts h hgs hgs'
      show (Group.all gs).blank = (Group.all gs').blank
      rw [Group.blank_all, Group.blank_all, hparts]
  | .any parts, g, g', h, hg, hg' => by
      obtain ⟨gs, hgs, hg⟩ := bind_eq_ok.mp hg
      obtain ⟨gs', hgs', hg'⟩ := bind_eq_ok.mp hg'
      cases hg
      cases hg'
      have hparts := blank_renderParts parts h hgs hgs'
      show (Group.any gs).blank = (Group.any gs').blank
      rw [Group.blank_any, Group.blank_any, hparts]
  | .not inner, g, g', h, hg, hg' => by
      obtain ⟨f, hf, hg⟩ := bind_eq_ok.mp hg
      obtain ⟨f', hf', hg'⟩ := bind_eq_ok.mp hg'
      cases hg
      cases hg'
      exact congrArg Group.negate (blank_render inner h hf hf')

theorem blank_renderParts : ∀ (parts : List Plan) {gs gs' : List Group},
    (∀ c ∈ comparisonsOf parts, c.WrittenAlike s place p q) →
    renderParts s.language place p parts = .ok gs → renderParts s.language place q parts = .ok gs' →
    gs.map Group.blank = gs'.map Group.blank
  | [], gs, gs', _, hgs, hgs' => by
      cases hgs
      cases hgs'
      rfl
  | part :: rest, gs, gs', h, hgs, hgs' => by
      obtain ⟨hpart, hrest⟩ := List.forall_mem_append.mp h
      obtain ⟨g, hg, hgs⟩ := bind_eq_ok.mp hgs
      obtain ⟨more, hmore, hgs⟩ := bind_eq_ok.mp hgs
      obtain ⟨g', hg', hgs'⟩ := bind_eq_ok.mp hgs'
      obtain ⟨more', hmore', hgs'⟩ := bind_eq_ok.mp hgs'
      cases hgs
      cases hgs'
      rw [List.map_cons, List.map_cons, blank_render part hpart hg hg',
        blank_renderParts rest hrest hmore hmore']

end

end Plan

namespace Request

theorem blank_fragments {candidates : List Permission} {gs gs' : List Group}
    (h : ∀ c ∈ boundComparisons candidates, c.WrittenAlike s place p q)
    (hgs : fragments s.language place p candidates = .ok gs)
    (hgs' : fragments s.language place q candidates = .ok gs') :
    gs.map Group.blank = gs'.map Group.blank := by
  rw [fragments_eq] at hgs hgs'
  obtain ⟨parts, hparts, hgs⟩ := bind_eq_ok.mp hgs
  obtain ⟨parts', hparts', hgs'⟩ := bind_eq_ok.mp hgs'
  cases hgs
  cases hgs'
  rw [List.map_append, List.map_append, Plan.blank_renderParts _ h hparts hparts']

theorem blank_combine (gs : List Group) :
    (combine s.language gs).blank = combine s.language (gs.map Group.blank) := by
  match gs with
  | [] => rfl
  | [only] => rfl
  | first :: second :: rest => exact Group.blank_any (first :: second :: rest)

section filter
variable {providers : List Provider} {r : Registry} {ds : List Definition} {ps : Permissions}
  {type action : String} {found found' : List Permission} {g g' : Group}

/-- The filters of a request of two principals of the same roles are alike but for their values. -/
theorem blank_filter (hr : Registry.build providers = .ok r) (hps : Permissions.load r ds = .ok ps)
    (hroles : ∀ role, role ∈ p.roles ↔ role ∈ q.roles)
    (hp : filter ⟨p, type, action⟩ r ps s.language place = .ok ⟨found, some g⟩)
    (hq : filter ⟨q, type, action⟩ r ps s.language place = .ok ⟨found', some g'⟩) :
    g.blank = g'.blank := by
  obtain ⟨gs, hgs, rfl⟩ := exists_fragments hp
  obtain ⟨gs', hgs', rfl⟩ := exists_fragments hq
  simp only [← Permissions.candidates_congr hroles] at hgs'
  rw [blank_combine, blank_combine, blank_fragments (fun c hc => ?_) hgs hgs']
  have htyped : c.WellTyped r type := wellTyped_bound (q := ⟨p, type, action⟩) hr hps hc
  exact htyped.writtenAlike

/-- No data of the principal reaches the text of a statement.  For two principals of the same roles the
statements of a request have the same text with placeholders, in any dialect, and equally many values;
the values are the same wherever no attribute of the principal stands. -/
theorem prepared_eq (hr : Registry.build providers = .ok r) (hps : Permissions.load r ds = .ok ps)
    (hroles : ∀ role, role ∈ p.roles ↔ role ∈ q.roles) (hplace : s.place type = .ok place)
    (hp : filter ⟨p, type, action⟩ r ps s.language place = .ok ⟨found, some g⟩)
    (hq : filter ⟨q, type, action⟩ r ps s.language place = .ok ⟨found', some g'⟩) (column : String) :
    let origins := sources ⟨p, type, action⟩ s.dialect ps
    ∃ query query', s.select type column g = .ok query ∧ s.select type column g' = .ok query' ∧
      (∀ d, Statement.prepared d query.pieces = Statement.prepared d query'.pieces) ∧
      Statement.parameters query.pieces = origins.map (Source.fill s.dialect p) ∧
      Statement.parameters query'.pieces = origins.map (Source.fill s.dialect q) ∧
      (Statement.parameters query.pieces).length = (Statement.parameters query'.pieces).length ∧
      ∀ i : Nat, (∀ name declared, origins[i]? ≠ some (Source.attribute name declared)) →
        (Statement.parameters query.pieces)[i]? = (Statement.parameters query'.pieces)[i]? := by
  intro origins
  obtain ⟨mapping, hmapping, -⟩ := bind_eq_ok.mp hplace
  have hselect : ∀ f : Group, s.select type column f = .ok ⟨mapping.table, column, f.toExpression⟩ := by
    intro f
    rw [Schema.select, hmapping]
    rfl
  have hvalues : g.parameters = origins.map (Source.fill s.dialect p) :=
    parameters_filter hr hps hplace hp
  have hvalues' : g'.parameters = origins.map (Source.fill s.dialect q) := by
    have hsame : origins = sources ⟨q, type, action⟩ s.dialect ps := by
      simp only [origins, sources, Permissions.candidates_congr hroles]
    rw [hsame]
    exact parameters_filter hr hps hplace hq
  have htext : Statement.blank g.toExpression.pieces = Statement.blank g'.toExpression.pieces := by
    rw [← Statement.blank_pieces, ← Statement.blank_pieces g'.toExpression, Group.blank_toExpression,
      Group.blank_toExpression, blank_filter hr hps hroles hp hq]
  refine ⟨_, _, hselect g, hselect g', fun d => ?_, hvalues, hvalues', ?_, fun i hi => ?_⟩
  · apply Statement.prepared_eq_of_blank
    rw [Query.pieces, Query.pieces, Statement.blank_cons, Statement.blank_cons, htext]
  · show g.parameters.length = g'.parameters.length
    rw [hvalues, hvalues', List.length_map, List.length_map]
  · show g.parameters[i]? = g'.parameters[i]?
    rw [hvalues, hvalues', List.getElem?_map, List.getElem?_map]
    match horigin : origins[i]? with
    | none => rfl
    | some (.fixed x) => rfl
    | some (.attribute name declared) => exact absurd horigin (hi name declared)

end filter

end Request
end render

/-! ### The board in a database -/

namespace Board

def schema : Schema := ⟨.sqlite, [("task", ⟨"tasks", [("team", "team_name")], []⟩)]⟩

/-- The request of one whose team is named to break a statement. -/
def intruder : Request :=
  ⟨⟨"mallory", ["user", "user"], [("team", .string "' OR '1' = '1")]⟩, "task", "view"⟩

end Board

namespace Request

/-- Whatever their teams are called, two users are given the same statement for their tasks, with their
own team as the second value. -/
theorem prepared_eq_board :
    ∃ g g' query query',
      Board.member.filter Board.registry [Board.openRule, Board.teamRule] Board.schema.language
        ⟨"task", "tasks", []⟩ = .ok ⟨[Board.openRule, Board.teamRule], some g⟩ ∧
      Board.intruder.filter Board.registry [Board.openRule, Board.teamRule] Board.schema.language
        ⟨"task", "tasks", []⟩ = .ok ⟨[Board.openRule, Board.teamRule], some g'⟩ ∧
      Board.schema.select "task" "id" g = .ok query ∧
      Board.schema.select "task" "id" g' = .ok query' ∧
      Statement.prepared .sqlite query.pieces = Statement.prepared .sqlite query'.pieces ∧
      Statement.parameters query.pieces = [.text "OPEN", .text "red"] ∧
      Statement.parameters query'.pieces = [.text "OPEN", .text "' OR '1' = '1"] := by
  have hr : Registry.build (Board.declarations.map (·.provider Board.catalog)) =
      .ok Board.registry := rfl
  have hps : Permissions.load Board.registry Board.definitions =
      .ok [Board.openRule, Board.teamRule] := rfl
  have hroles : ∀ role,
      role ∈ Board.member.principal.roles ↔ role ∈ Board.intruder.principal.roles := by
    intro role
    simp [Board.member, Board.intruder]
  have hplace : Board.schema.place "task" = .ok ⟨"task", "tasks", []⟩ := rfl
  obtain ⟨g, hg⟩ : ∃ g, Board.member.filter Board.registry [Board.openRule, Board.teamRule]
      Board.schema.language ⟨"task", "tasks", []⟩ =
        .ok ⟨[Board.openRule, Board.teamRule], some g⟩ := ⟨_, rfl⟩
  obtain ⟨g', hg'⟩ : ∃ g', Board.intruder.filter Board.registry [Board.openRule, Board.teamRule]
      Board.schema.language ⟨"task", "tasks", []⟩ =
        .ok ⟨[Board.openRule, Board.teamRule], some g'⟩ := ⟨_, rfl⟩
  obtain ⟨query, query', hquery, hquery', htext, hvalues, hvalues', -⟩ :=
    prepared_eq hr hps hroles hplace hg hg' "id"
  exact ⟨g, g', query, query', hg, hg', hquery, hquery', htext .sqlite, hvalues, hvalues'⟩

end Request
end AccessControl
