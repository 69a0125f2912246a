import AccessControl.Proofs.Binding

/-! # References mean the values they stand for

A condition may refer to an attribute of the principal where it could hold a fixed value.  References
are read when a request is decided, fixed values when the rules are loaded, and both are read as the
declared type.  `Condition.substitute` puts the attributes of a principal in the place of the references
of a condition, and the plan of what results means for everyone what the plan of the condition means
for the principal (`Plan.compile_substitute`).

The two meet in the middle: `Plan.settle` binds the comparisons of a plan to a principal.  A plan can be
settled exactly when it can be made a filter (`discard_settle`), a settled plan means what the plan
does (`render_settle`, `evaluate_settle`), and compiling a condition after substitution comes to settling
its plan (`compile_substitute_iff`). -/

namespace AccessControl

/-! ### References -/

/-- A reference to an attribute of the principal, which is to be read as the declared type. -/
structure Reference where
  name : String
  declared : ValueType

/-- The value that a reference stands for, or the failure to bind it. -/
def Reference.value (x : Reference) (p : Principal) : Except Failure Value :=
  Comparison.attributeValue p x.name x.declared

namespace Operand

/-- The references in an operand. -/
def references : Operand → List Reference
  | .literal _ | .list _ => []
  | .principal name declared => [⟨name, declared⟩]

/-- An operand with the attribute itself in the place of a reference to it, if there is one. -/
def substitute (p : Principal) : Operand → Operand
  | .literal l => .literal l
  | .list items => .list items
  | .principal name declared =>
    match p.attribute? name with
    | some raw => .literal ⟨declared, raw⟩
    | none => .principal name declared

end Operand

namespace Condition

mutual

/-- The references in a condition, from left to right. -/
def references : Condition → List Reference
  | .compare _ _ operand => operand.references
  | .all parts => referencesOf parts
  | .any parts => referencesOf parts
  | .not inner => references inner

/-- The references in conditions, from left to right. -/
def referencesOf : List Condition → List Reference
  | [] => []
  | part :: rest => references part ++ referencesOf rest

end

mutual

/-- A condition with the attributes of a principal in the place of the references to them. -/
def substitute (p : Principal) : Condition → Condition
  | .compare field operator operand => .compare field operator (operand.substitute p)
  | .all parts => .all (substituteParts p parts)
  | .any parts => .any (substituteParts p parts)
  | .not inner => .not (substitute p inner)

/-- Conditions with the attributes of a principal in the place of the references to them. -/
def substituteParts (p : Principal) : List Condition → List Condition
  | [] => []
  | part :: rest => substitute p part :: substituteParts p rest

end

end Condition

namespace Comparison

/-- The reference of a comparison, if its right side is one. -/
def references (c : Comparison) : List Reference :=
  match c.operand with
  | .value _ => []
  | .attribute name => [⟨name, c.declared⟩]

/-- A comparison with what it expects of a principal for its right side. -/
def settle (p : Principal) (c : Comparison) : Except Failure Comparison := do
  return ⟨c.path, c.operator, .value (← c.expected p), c.declared⟩

end Comparison

namespace Plan

mutual

/-- A plan with its comparisons bound to a principal. -/
def settle (p : Principal) : Plan → Except Failure Plan
  | .compare c => do return .compare (← c.settle p)
  | .all parts => do return .all (← settleParts p parts)
  | .any parts => do return .any (← settleParts p parts)
  | .not inner => do return .not (← settle p inner)

/-- Plans with their comparisons bound to a principal. -/
def settleParts (p : Principal) : List Plan → Except Failure (List Plan)
  | [] => .ok []
  | part :: rest => do return (← settle p part) :: (← settleParts p rest)

end

end Plan

section settle
variable {p : Principal}

/-! ### Binding the references one after another -/

/-- Comparisons without a reference can be bound anyway. -/
theorem Principal.bindAll_eq_forM (p : Principal) (cs : List Comparison) :
    p.bindAll cs = (cs.flatMap Comparison.references).forM fun x => discard (x.value p) := by
  induction cs with
  | nil => rfl
  | cons c cs ih =>
      rw [bindAll, ih, List.flatMap_cons, Comparison.references, Comparison.expected]
      cases c.operand <;> rfl

/-- A comparison can be bound exactly when its reference can, if it has one. -/
theorem Comparison.exists_expected_iff {c : Comparison} :
    (∃ v, c.expected p = .ok v) ↔ ∀ x ∈ c.references, ∃ v, x.value p = .ok v := by
  unfold expected references
  match c.operand with
  | .value v => exact ⟨fun _ _ hx => (nomatch hx), fun _ => ⟨v, rfl⟩⟩
  | .attribute name =>
      dsimp only
      rw [List.forall_mem_singleton]
      rfl

theorem Principal.bindAll_eq_ok_iff_references {cs : List Comparison} :
    p.bindAll cs = .ok () ↔ ∀ x ∈ cs.flatMap Comparison.references, ∃ v, x.value p = .ok v := by
  rw [bindAll_eq_ok]
  simp only [Comparison.exists_expected_iff, List.mem_flatMap]
  exact ⟨fun h x ⟨c, hc, hx⟩ => h c hc x hx, fun h c hc x hx => h x ⟨c, hc, hx⟩⟩

/-- Binding comparisons fails as the first reference does that cannot be bound. -/
theorem Principal.bindAll_eq_error {cs : List Comparison} {e : Failure} :
    p.bindAll cs = .error e ↔ ∃ before x after,
      cs.flatMap Comparison.references = before ++ x :: after ∧
      (∀ y ∈ before, ∃ v, y.value p = .ok v) ∧ x.value p = .error e := by
  rw [bindAll_eq_forM, forM_eq_error]
  simp only [discard_eq_ok, discard_eq_error]

/-! ### Settled comparisons -/

namespace Comparison
variable {c c' : Comparison}

theorem settle_eq_ok : c.settle p = .ok c' ↔
    ∃ v, c.expected p = .ok v ∧ c' = ⟨c.path, c.operator, .value v, c.declared⟩ := by
  rw [settle, bind_eq_ok]
  refine exists_congr fun v => and_congr_right fun _ => ?_
  exact ⟨fun h => by cases h; rfl, fun h => by rw [h]; rfl⟩

theorem render_settle (h : c.settle p = .ok c') {Place Fragment : Type}
    (l : FilterLanguage Place Fragment) (place : Place) (q : Principal) :
    c'.render l place q = c.render l place p := by
  obtain ⟨v, hv, rfl⟩ := settle_eq_ok.mp h
  rw [render, render, hv]
  rfl

theorem evaluate_settle (h : c.settle p = .ok c') (r : Registry) (q : Principal) (type : String)
    (context : Context) (subject : Resource) :
    c'.evaluate r ⟨q, type, context⟩ subject = c.evaluate r ⟨p, type, context⟩ subject := by
  obtain ⟨v, hv, rfl⟩ := settle_eq_ok.mp h
  rw [evaluate, evaluate, hv]
  rfl

end Comparison

/-! ### Settled plans -/

namespace Plan

mutual

/-- Settling a plan binds its comparisons in their order. -/
theorem discard_settle : ∀ plan : Plan, discard (plan.settle p) = p.bindAll plan.comparisons
  | .compare c => by
      rw [settle, discard_return, Comparison.settle, discard_return, comparisons, Principal.bindAll]
      cases c.expected p <;> rfl
  | .all parts => by rw [settle, discard_return, discard_settleParts parts, comparisons]
  | .any parts => by rw [settle, discard_return, discard_settleParts parts, comparisons]
  | .not inner => by rw [settle, discard_return, discard_settle inner, comparisons]

theorem discard_settleParts : ∀ parts : List Plan,
    discard (settleParts p parts) = p.bindAll (comparisonsOf parts)
  | [] => rfl
  | part :: rest => by
      rw [settleParts, discard_both, discard_settle part, discard_settleParts rest, comparisonsOf,
        Principal.bindAll_append]

end

section render
variable {Place Fragment : Type} (l : FilterLanguage Place Fragment) (place : Place) (q : Principal)

mutual

/-- A settled plan makes for everyone the filter that the plan makes for the principal. -/
theorem render_settle : ∀ {plan plan' : Plan}, plan.settle p = .ok plan' →
    plan'.render l place q = plan.render l place p
  | .compare c, _, h => by
      obtain ⟨c', hc, h⟩ := bind_eq_ok.mp h
      cases h
      exact Comparison.render_settle hc l place q
  | .all parts, _, h => by
      obtain ⟨parts', hparts, h⟩ := bind_eq_ok.mp h
      cases h
      rw [render, render, renderParts_settle hparts]
  | .any parts, _, h => by
      obtain ⟨parts', hparts, h⟩ := bind_eq_ok.mp h
      cases h
      rw [render, render, renderParts_settle hparts]
  | .not inner, _, h => by
      obtain ⟨inner', hinner, h⟩ := bind_eq_ok.mp h
      cases h
      rw [render, render, render_settle hinner]

theorem renderParts_settle : ∀ {parts parts' : List Plan}, settleParts p parts = .ok parts' →
    renderParts l place q parts' = renderParts l place p parts
  | [], _, h => by
      cases h
      rfl
  | part :: rest, _, h => by
      obtain ⟨part', hpart, h⟩ := bind_eq_ok.mp h
      obtain ⟨rest', hrest, h⟩ := bind_eq_ok.mp h
      cases h
      rw [renderParts, renderParts, render_settle hpart, renderParts_settle hrest]

end

end render

section evaluate
variable (r : Registry) (q : Principal) (type : String) (context : Context) (subject : Resource)

mutual

/-- A settled plan is decided for everyone as the plan is for the principal. -/
theorem evaluate_settle : ∀ {plan plan' : Plan}, plan.settle p = .ok plan' →
    plan'.evaluate r ⟨q, type, context⟩ subject = plan.evaluate r ⟨p, type, context⟩ subject
  | .compare c, _, h => by
      obtain ⟨c', hc, h⟩ := bind_eq_ok.mp h
      cases h
      exact Comparison.evaluate_settle hc r q type context subject
  | .all parts, _, h => by
      obtain ⟨parts', hparts, h⟩ := bind_eq_ok.mp h
      cases h
      exact evaluateAll_settle hparts
  | .any parts, _, h => by
      obtain ⟨parts', hparts, h⟩ := bind_eq_ok.mp h
      cases h
      exact evaluateAny_settle hparts
  | .not inner, _, h => by
      obtain ⟨inner', hinner, h⟩ := bind_eq_ok.mp h
      cases h
      rw [evaluate, evaluate, evaluate_settle hinner]

theorem evaluateAll_settle : ∀ {parts parts' : List Plan}, settleParts p parts = .ok parts' →
    evaluateAll r ⟨q, type, context⟩ subject parts' = evaluateAll r ⟨p, type, context⟩ subject parts
  | [], _, h => by
      cases h
      rfl
  | part :: rest, _, h => by
      obtain ⟨part', hpart, h⟩ := bind_eq_ok.mp h
      obtain ⟨rest', hrest, h⟩ := bind_eq_ok.mp h
      cases h
      rw [evaluateAll, evaluateAll, evaluate_settle hpart, evaluateAll_settle hrest]

theorem evaluateAny_settle : ∀ {parts parts' : List Plan}, settleParts p parts = .ok parts' →
    evaluateAny r ⟨q, type, context⟩ subject parts' = evaluateAny r ⟨p, type, context⟩ subject parts
  | [], _, h => by
      cases h
      rfl
  | part :: rest, _, h => by
      obtain ⟨part', hpart, h⟩ := bind_eq_ok.mp h
      obtain ⟨rest', hrest, h⟩ := bind_eq_ok.mp h
      cases h
      rw [evaluateAny, evaluateAny, evaluate_settle hpart, evaluateAny_settle hrest]

end

end evaluate

/-! ### Compiling after substitution -/

variable {r : Registry} {type : String}

/-- A compiled comparison has the references of the operand it was made of. -/
theorem references_of_compileOperand {field : String} {operator : Operator} {operand : Operand}
    {c : Comparison} (h : compileOperand field operator operand = .ok (c.operand, c.declared)) :
    c.references = operand.references := by
  unfold Comparison.references
  cases operand with
  | literal l =>
      obtain ⟨-, -, v, -, hv⟩ := compileOperand_literal_eq_ok.mp h
      rw [hv]
      rfl
  | list items =>
      obtain ⟨-, -, vs, -, hvs⟩ := compileOperand_list_eq_ok.mp h
      rw [hvs]
      rfl
  | principal name t =>
      obtain ⟨-, ht, hname⟩ := compileOperand_principal_eq_ok.mp h
      rw [hname, ht]
      rfl

mutual

/-- A plan has the references of the condition it was made of, in their order. -/
theorem references_of_compile : ∀ {condition : Condition} {plan : Plan},
    compile r type condition = .ok plan →
    plan.comparisons.flatMap Comparison.references = condition.references
  | .compare field operator operand, _, h => by
      obtain ⟨c, hc, h⟩ := bind_eq_ok.mp h
      cases h
      obtain ⟨-, -, hoperand, -⟩ := compileComparison_eq_ok.mp hc
      rw [comparisons, List.flatMap_singleton, references_of_compileOperand hoperand]
      rfl
  | .all parts, _, h => by
      obtain ⟨plans, hplans, h⟩ := bind_eq_ok.mp h
      cases h
      exact references_of_compileParts hplans
  | .any parts, _, h => by
      obtain ⟨plans, hplans, h⟩ := bind_eq_ok.mp h
      cases h
      exact references_of_compileParts hplans
  | .not inner, _, h => by
      obtain ⟨plan, hplan, h⟩ := bind_eq_ok.mp h
      cases h
      rw [comparisons, references_of_compile hplan]
      rfl

theorem references_of_compileParts : ∀ {parts : List Condition} {plans : List Plan},
    compileParts r type parts = .ok plans →
    (comparisonsOf plans).flatMap Comparison.references = Condition.referencesOf parts
  | [], _, h => by
      cases h
      rfl
  | part :: rest, _, h => by
      obtain ⟨plan, hplan, h⟩ := bind_eq_ok.mp h
      obtain ⟨more, hmore, h⟩ := bind_eq_ok.mp h
      cases h
      rw [comparisonsOf, List.flatMap_append, references_of_compile hplan,
        references_of_compileParts hmore]
      rfl

end

/-- An attribute in the place of a reference is read as the reference is. -/
theorem compileOperand_substitute {field : String} {operator : Operator} {operand : Operand}
    {c : Comparison} (h : compileOperand field operator operand = .ok (c.operand, c.declared))
    (hp : ∀ x ∈ operand.references, ∃ raw, p.attribute? x.name = some raw)
    {bound : BoundOperand} {declared : ValueType} :
    compileOperand field operator (operand.substitute p) = .ok (bound, declared) ↔
      ∃ v, c.expected p = .ok v ∧ bound = .value v ∧ declared = c.declared := by
  -- a fixed value stays what it was compiled to
  have fixed : ∀ v, c.operand = .value v →
      (compileOperand field operator operand = .ok (bound, declared) ↔
        ∃ w, c.expected p = .ok w ∧ bound = .value w ∧ declared = c.declared) := by
    intro v hv
    rw [h, Comparison.expected, hv, Except.ok.injEq, Prod.mk.injEq]
    constructor
    · rintro ⟨rfl, rfl⟩
      exact ⟨v, rfl, rfl, rfl⟩
    · rintro ⟨w, hw, rfl, rfl⟩
      cases hw
      exact ⟨rfl, rfl⟩
  cases operand with
  | literal l =>
      obtain ⟨-, -, v, -, hv⟩ := compileOperand_literal_eq_ok.mp h
      exact fixed v hv
  | list items =>
      obtain ⟨-, -, vs, -, hvs⟩ := compileOperand_list_eq_ok.mp h
      exact fixed (.list vs) hvs
  | principal name t =>
      obtain ⟨hop, ht, hname⟩ := compileOperand_principal_eq_ok.mp h
      obtain ⟨raw, hraw⟩ := hp ⟨name, t⟩ (List.mem_singleton.mpr rfl)
      rw [Operand.substitute]
      simp only [hraw, compileOperand_literal_eq_ok, compileLiteral_eq_ok, Comparison.expected, hname,
        Comparison.attributeValue_eq_ok, ht, Option.some.injEq, exists_eq_left']
      constructor
      · rintro ⟨-, hdeclared, v, hv, hbound⟩
        exact ⟨v, hv, hbound, hdeclared⟩
      · rintro ⟨v, hv, hbound, hdeclared⟩
        exact ⟨hop, hdeclared, v, hv, hbound⟩

theorem compileComparison_substitute {field : String} {operator : Operator} {operand : Operand}
    {c c' : Comparison} (h : compileComparison r type field operator operand = .ok c)
    (hp : ∀ x ∈ operand.references, ∃ raw, p.attribute? x.name = some raw) :
    compileComparison r type field operator (operand.substitute p) = .ok c' ↔
      c.settle p = .ok c' := by
  obtain ⟨hpath, hop, hoperand, hrefused⟩ := compileComparison_eq_ok.mp h
  rw [compileComparison_eq_ok, compileOperand_substitute hoperand hp, Comparison.settle_eq_ok, hpath]
  constructor
  · rintro ⟨hpath', hop', ⟨v, hv, hbound, hdeclared⟩, -⟩
    refine ⟨v, hv, ?_⟩
    rw [Except.ok.inj hpath', hop, ← hop', ← hbound, ← hdeclared]
  · rintro ⟨v, hv, rfl⟩
    exact ⟨rfl, hop, ⟨v, hv, rfl, rfl⟩, hrefused⟩

mutual

/-- Compiling a condition after substitution comes to settling its plan. -/
theorem compile_substitute_iff : ∀ {condition : Condition} {plan plan' : Plan},
    compile r type condition = .ok plan →
    (∀ x ∈ condition.references, ∃ raw, p.attribute? x.name = some raw) →
    (compile r type (condition.substitute p) = .ok plan' ↔ plan.settle p = .ok plan')
  | .compare field operator operand, _, _, h, hp => by
      obtain ⟨c, hc, h⟩ := bind_eq_ok.mp h
      cases h
      rw [Condition.substitute, compile, settle, bind_eq_ok, bind_eq_ok]
      simp only [compileComparison_substitute hc hp]
  | .all parts, _, _, h, hp => by
      obtain ⟨plans, hplans, h⟩ := bind_eq_ok.mp h
      cases h
      rw [Condition.substitute, compile, settle, bind_eq_ok, bind_eq_ok]
      simp only [compileParts_substitute_iff hplans hp]
  | .any parts, _, _, h, hp => by
      obtain ⟨plans, hplans, h⟩ := bind_eq_ok.mp h
      cases h
      rw [Condition.substitute, compile, settle, bind_eq_ok, bind_eq_ok]
      simp only [compileParts_substitute_iff hplans hp]
  | .not inner, _, _, h, hp => by
      obtain ⟨plan, hplan, h⟩ := bind_eq_ok.mp h
      cases h
      rw [Condition.substitute, compile, settle, bind_eq_ok, bind_eq_ok]
      simp only [compile_substitute_iff hplan hp]

theorem compileParts_substitute_iff : ∀ {parts : List Condition} {plans plans' : List Plan},
    compileParts r type parts = .ok plans →
    (∀ x ∈ Condition.referencesOf parts, ∃ raw, p.attribute? x.name = some raw) →
    (compileParts r type (Condition.substituteParts p parts) = .ok plans' ↔
      settleParts p plans = .ok plans')
  | [], _, _, h, _ => by
      cases h
      rfl
  | part :: rest, _, _, h, hp => by
      obtain ⟨plan, hplan, h⟩ := bind_eq_ok.mp h
      obtain ⟨more, hmore, h⟩ := bind_eq_ok.mp h
      cases h
      obtain ⟨hpart, hrest⟩ := List.forall_mem_append.mp hp
      rw [Condition.substituteParts, compileParts, settleParts, bind_eq_ok, bind_eq_ok]
      simp only [bind_eq_ok, compile_substitute_iff hplan hpart, compileParts_substitute_iff hmore hrest]

end

/-! ### What the plan of a condition means after substitution -/

/-- Whether a plan means for everyone what another means for a principal: the same filters in every
language, and the same decisions on every resource. -/
def StandsFor (plan' plan : Plan) (p : Principal) : Prop :=
  ∀ q : Principal,
    (∀ {Place Fragment : Type} (l : FilterLanguage Place Fragment) (place : Place),
      plan'.render l place q = plan.render l place p) ∧
    ∀ (r : Registry) (type : String) (context : Context) (subject : Resource),
      plan'.evaluate r ⟨q, type, context⟩ subject = plan.evaluate r ⟨p, type, context⟩ subject

/-- Making a filter of records of a compiled plan comes to binding its comparisons. -/
theorem discard_render_of_compile {condition : Condition} {plan : Plan}
    (h : compile r type condition = .ok plan) :
    discard (plan.render (RecordFilter.language r) (RecordFilter.rootOf type) p) =
      p.bindAll plan.comparisons := by
  refine discard_render plan fun c hc => ?_
  obtain ⟨target, htarget⟩ := (compile_wellTyped h c hc).path
  exact Comparison.bindsOnly_of_follow htarget

end Plan

end settle

/-! ### References on the board -/

namespace Board

def aboveClearance : Condition := .compare "level" .greater (.principal "clearance" .number)

/-- The tasks of a principal's team above the principal's clearance. -/
def ofTeamAbove : Condition := .all [aboveClearance, ofTeam]

def ofTeamAbovePlan : Plan :=
  .all [.compare ⟨⟨[], "level"⟩, .greater, .attribute "clearance", .number⟩,
    .compare ⟨⟨[], "team"⟩, .equals, .attribute "team", .string⟩]

/-- A principal with a clearance and, for some, a team. -/
def cleared (clearance : String) (team? : List (String × Value)) : Principal :=
  ⟨"alice", ["user"], ("clearance", .string clearance) :: team?⟩

theorem exists_clearance (team? : List (String × Value)) :
    ∃ v, Reference.value ⟨"clearance", .number⟩ (cleared "5" team?) = .ok v := by
  have hfive : ∃ v, Value.coerce? (.string "5") .number = some v :=
    Option.isSome_iff_exists.mp (by decide +kernel)
  obtain ⟨v, hv⟩ := hfive
  exact ⟨v, Comparison.attributeValue_eq_ok.mpr ⟨.string "5", rfl, hv⟩⟩

end Board

namespace Plan

/-- References mean the values they stand for.  If the principal has the attributes that a condition
refers to, then the condition with their values in the place of the references can be compiled
exactly when the plan of the condition can be made a filter for the principal, and its plan means for
everyone what the plan of the condition means for the principal.  Whatever the principal has, a
filter can be made exactly when all references can be bound, and else it fails as the leftmost of
them does that cannot. -/
theorem compile_substitute {r : Registry} {type : String} {condition : Condition} {plan : Plan}
    (h : compile r type condition = .ok plan) (p : Principal) :
    ((∀ x ∈ condition.references, ∃ raw, p.attribute? x.name = some raw) →
      ((∃ plan', compile r type (condition.substitute p) = .ok plan') ↔
        ∃ f, plan.render (RecordFilter.language r) (RecordFilter.rootOf type) p = .ok f) ∧
      ∀ plan', compile r type (condition.substitute p) = .ok plan' → plan'.StandsFor plan p) ∧
    ((∃ f, plan.render (RecordFilter.language r) (RecordFilter.rootOf type) p = .ok f) ↔
      ∀ x ∈ condition.references, ∃ v, x.value p = .ok v) ∧
    ∀ e, plan.render (RecordFilter.language r) (RecordFilter.rootOf type) p = .error e ↔
      ∃ before x after, condition.references = before ++ x :: after ∧
        (∀ y ∈ before, ∃ v, y.value p = .ok v) ∧ x.value p = .error e := by
  have hrender := discard_render_of_compile (p := p) h
  refine ⟨fun hp => ⟨?_, fun plan' hplan' q => ?_⟩, ?_, fun e => ?_⟩
  · simp only [compile_substitute_iff h hp]
    rw [← discard_eq_ok, ← discard_eq_ok, discard_settle, hrender]
  · have hsettle : plan.settle p = .ok plan' := (compile_substitute_iff h hp).mp hplan'
    exact ⟨fun l place => render_settle l place q hsettle,
      fun r type context subject => evaluate_settle r q type context subject hsettle⟩
  · rw [← discard_eq_ok, hrender, Principal.bindAll_eq_ok_iff_references, references_of_compile h]
  · rw [← discard_eq_error, hrender, Principal.bindAll_eq_error, references_of_compile h]

/-- A clearance that is a text is read as a number in either form.  One that is no number fails as it
stands to the left of a team that is missing, and a number leaves the missing team to fail. -/
theorem compile_substitute_board :
    (∃ plan', compile Board.registry "task"
        (Board.ofTeamAbove.substitute (Board.cleared "5" [("team", .string "red")])) = .ok plan' ∧
      plan'.StandsFor Board.ofTeamAbovePlan (Board.cleared "5" [("team", .string "red")])) ∧
    Board.ofTeamAbovePlan.render (RecordFilter.language Board.registry) (RecordFilter.rootOf "task")
      (Board.cleared "high" []) =
        .error (.typeMismatch "principal.clearance" "string cannot be read as number") ∧
    Board.ofTeamAbovePlan.render (RecordFilter.language Board.registry) (RecordFilter.rootOf "task")
      (Board.cleared "5" []) = .error (.missingAttribute "team") := by
  have h : compile Board.registry "task" Board.ofTeamAbove = .ok Board.ofTeamAbovePlan := rfl
  refine ⟨?_, ?_, ?_⟩
  · obtain ⟨hsame, hbound, -⟩ := compile_substitute h (Board.cleared "5" [("team", .string "red")])
    obtain ⟨hcompiles, hstands⟩ := hsame fun x hx => by
      rcases List.mem_cons.mp hx with rfl | hx
      · exact ⟨.string "5", rfl⟩
      · rw [List.mem_singleton.mp hx]
        exact ⟨.string "red", rfl⟩
    obtain ⟨plan', hplan'⟩ := hcompiles.mpr <| hbound.mpr fun x hx => by
      rcases List.mem_cons.mp hx with rfl | hx
      · exact Board.exists_clearance _
      · rw [List.mem_singleton.mp hx]
        exact ⟨.string "red", rfl⟩
    exact ⟨plan', hplan', hstands plan' hplan'⟩
  · exact ((compile_substitute h _).2.2 _).mpr ⟨[], _, _, rfl, fun _ hy => (nomatch hy), rfl⟩
  · refine ((compile_substitute h _).2.2 _).mpr ⟨[_], _, [], rfl, ?_, rfl⟩
    exact List.forall_mem_singleton.mpr (Board.exists_clearance [])

end Plan
end AccessControl
