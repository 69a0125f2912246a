import AccessControl.Proofs.Acceptance
import AccessControl.Proofs.Comparison
import Mathlib.Data.List.Forall2

/-! # Comparisons keep what their clauses declare

A plan has one comparison for each clause of its condition, in the same order, and each is compiled
from its clause alone (`Plan.forall₂_clauses`).  It still names the field as it was written, and its
operator, declared type and operand suit one another (`Comparison.Keeps`).

A comparison is decided with nothing but its operator and its right side: the declared type is found
out again from the value that is compared with.  That gives the type that the clause declares, because
binding an attribute of the principal keeps a comparison well typed
(`Comparison.WellTyped.bound`); so the value of a field is always read as the declared type
(`Plan.compile_keeps`). -/

namespace AccessControl

/-- A comparison as it is written in a condition. -/
structure Clause where
  field : String
  operator : Operator
  operand : Operand

/-- Whether an operand declares a type; a list declares it for each of its items. -/
def Operand.Declares : Operand → ValueType → Prop
  | .literal l, type => l.declared = type
  | .list items, type => ∀ l ∈ items, l.declared = type
  | .principal _ declared, type => declared = type

namespace Condition

mutual

/-- The comparisons of a condition as they are written, in their order. -/
def clauses : Condition → List Clause
  | .compare field operator operand => [⟨field, operator, operand⟩]
  | .all parts => clausesOf parts
  | .any parts => clausesOf parts
  | .not inner => clauses inner

/-- The comparisons of several conditions. -/
def clausesOf : List Condition → List Clause
  | [] => []
  | part :: rest => clauses part ++ clausesOf rest

end

end Condition

/-- Whether a comparison keeps what a clause declares.  Its path is the field of the clause and leads
along relations of the registry, and it has the operator and the declared type of the clause.  `in` and
no other operator goes with a list, which is not empty and has items of the declared type.  Any
other value has the declared type itself, and only numbers and dates are compared by order. -/
structure Comparison.Keeps (r : Registry) (type : String) (clause : Clause) (c : Comparison) :
    Prop where
  field : c.path.write = clause.field
  relations : ∃ target, Plan.follow r type c.path.relations = .ok target
  operator : c.operator = clause.operator
  declared : clause.operand.Declares c.declared
  list : c.operator = .isIn ↔ ∃ items, c.operand = .value (.list items)
  items : ∀ items, c.operand = .value (.list items) →
    items ≠ [] ∧ ∀ x ∈ items, Literal.naturalType? x = some c.declared
  single : ∀ v, c.operand = .value v → (∀ items, v ≠ .list items) →
    Literal.naturalType? v = some c.declared
  ordered : c.operator = .greater ∨ c.operator = .less → c.declared = .number ∨ c.declared = .date

namespace Value

variable {v : Value} {operator : Operator} {declared : ValueType}

/-- Only `in` is suited by lists. -/
theorem Suits.isIn_iff (h : v.Suits operator declared) :
    operator = .isIn ↔ ∃ items, v = .list items := by
  constructor
  · rintro rfl
    obtain ⟨first, rest, hlist, -⟩ := h
    exact ⟨first :: rest, hlist⟩
  · rintro ⟨items, rfl⟩
    by_contra hop
    cases (suits_of_ne hop).mp h

theorem Suits.items {items : List Value} (h : (Value.list items).Suits operator declared) :
    items ≠ [] ∧ ∀ x ∈ items, Literal.naturalType? x = some declared := by
  have hop := h.isIn_iff.mpr ⟨items, rfl⟩
  subst hop
  obtain ⟨first, rest, hlist, htypes⟩ := h
  cases hlist
  exact ⟨List.cons_ne_nil _ _, htypes⟩

theorem Suits.single (h : v.Suits operator declared) (hlist : ∀ items, v ≠ .list items) :
    Literal.naturalType? v = some declared := by
  refine (suits_of_ne ?_).mp h
  intro hop
  obtain ⟨items, hv⟩ := h.isIn_iff.mp hop
  exact hlist items hv

end Value

namespace Comparison

variable {r : Registry} {type : String} {clause : Clause} {c : Comparison} {p : Principal} {v : Value}

/-- A comparison with the value that it expects of a principal in the place of its right side. -/
def withValue (c : Comparison) (v : Value) : Comparison := { c with operand := .value v }

/-- Binding the right side of a comparison keeps it well typed. -/
theorem WellTyped.bound (h : c.WellTyped r type) (hv : c.expected p = .ok v) :
    (c.withValue v).WellTyped r type where
  path := h.path
  value := by
    intro w hw
    cases hw
    exact h.expected_suits hv
  reference := by
    intro name hname
    cases hname
  ordered := h.ordered

/-- A well-typed comparison with the field, the operator and the declared type of a clause keeps all
that the clause declares. -/
theorem WellTyped.keeps (h : c.WellTyped r type) (hfield : c.path.write = clause.field)
    (hoperator : c.operator = clause.operator) (hdeclared : clause.operand.Declares c.declared) :
    c.Keeps r type clause where
  field := hfield
  relations := h.path
  operator := hoperator
  declared := hdeclared
  list := by
    match hoperand : c.operand with
    | .value w => simpa using (h.value w hoperand).isIn_iff
    | .attribute name => simpa using h.reference name hoperand
  items := fun items hitems => (h.value _ hitems).items
  single := fun w hw hlist => (h.value w hw).single hlist
  ordered := by
    intro hop
    have hneeds : c.operator.needsOrder = true := by rcases hop with hop | hop <;> rw [hop] <;> rfl
    have hordered := h.ordered hneeds
    cases hdeclared : c.declared <;> rw [hdeclared] at hordered <;> simp_all [ValueType.isOrdered]

/-- A field is compared with what a well-typed comparison expects by reading its value as the declared
type. -/
theorem WellTyped.compareField_eq (h : c.WellTyped r type) (hv : c.expected p = .ok v)
    (field : String) (actual? : Option Value) : compareField field actual? c.operator v =
      if (actual?.getD .null).isNull then .ok (c.operator == .notEquals)
      else comparePresent field c.declared c.operator (actual?.getD .null) v := by
  cases hnull : (actual?.getD .null).isNull with
  | true => rw [compareField_of_null hnull, if_pos rfl]
  | false =>
      rw [compareField_of_present hnull (h.expected_suits hv).type?, if_neg Bool.false_ne_true]

end Comparison

namespace Plan

section compile
variable {r : Registry} {type : String}

/-- A compiled path is written as the text that it was compiled from. -/
theorem compilePath_write {field : String} {path : FieldPath}
    (h : compilePath r type field = .ok path) : path.write = field := by
  unfold compilePath at h
  by_cases hempty : (segments field).contains "" = true
  · rw [if_pos hempty] at h
    cases h
  · rw [if_neg hempty] at h
    obtain ⟨_, -, h⟩ := bind_eq_ok.mp h
    cases h
    have hlast : (segments field).getLast?.getD "" =
        (segments field).getLast (segments_ne_nil field) := by
      rw [List.getLast?_eq_getLast_of_ne_nil (segments_ne_nil field), Option.getD_some]
    rw [FieldPath.write]
    dsimp only
    rw [hlast, List.dropLast_concat_getLast, joinWith_segments]

theorem compileItems_declared {field : String} {declared : ValueType} :
    ∀ {items : List Literal} {vs : List Value}, compileItems field declared items = .ok vs →
      ∀ l ∈ items, l.declared = declared
  | [], _, _ => List.forall_mem_nil _
  | _ :: _, _, h => by
      obtain ⟨hdeclared, _, _, _, hmore, -⟩ := compileItems_cons_eq_ok.mp h
      exact List.forall_mem_cons.mpr ⟨hdeclared, compileItems_declared hmore⟩

/-- A compiled operand has the type that is declared for it. -/
theorem compileOperand_declares {field : String} {operator : Operator} {operand : Operand}
    {bound : BoundOperand} {declared : ValueType}
    (h : compileOperand field operator operand = .ok (bound, declared)) : operand.Declares declared := by
  cases operand with
  | literal l =>
      obtain ⟨-, hdeclared, -⟩ := compileOperand_literal_eq_ok.mp h
      exact hdeclared.symm
  | list items =>
      obtain ⟨-, -, vs, hvs, -⟩ := compileOperand_list_eq_ok.mp h
      exact compileItems_declared hvs
  | principal name t =>
      obtain ⟨-, hdeclared, -⟩ := compileOperand_principal_eq_ok.mp h
      exact hdeclared.symm

theorem compileComparison_keeps {clause : Clause} {c : Comparison}
    (h : compileComparison r type clause.field clause.operator clause.operand = .ok c) :
    c.Keeps r type clause := by
  obtain ⟨hpath, hoperator, hoperand, -⟩ := compileComparison_eq_ok.mp h
  exact (compileComparison_wellTyped h).keeps (compilePath_write hpath) hoperator
    (compileOperand_declares hoperand)

mutual

/-- The comparisons of a plan are those that the clauses of its condition are compiled to, one by one
and in their order. -/
theorem forall₂_clauses : ∀ {condition : Condition} {plan : Plan},
    compile r type condition = .ok plan →
    List.Forall₂ (fun clause c =>
        compileComparison r type clause.field clause.operator clause.operand = .ok c)
      condition.clauses plan.comparisons
  | .compare _ _ _, _, h => by
      obtain ⟨c, hc, h⟩ := bind_eq_ok.mp h
      cases h
      exact .cons hc .nil
  | .all _, _, h => by
      obtain ⟨plans, hplans, h⟩ := bind_eq_ok.mp h
      cases h
      exact forall₂_clausesOf hplans
  | .any _, _, h => by
      obtain ⟨plans, hplans, h⟩ := bind_eq_ok.mp h
      cases h
      exact forall₂_clausesOf hplans
  | .not _, _, h => by
      obtain ⟨inner, hinner, h⟩ := bind_eq_ok.mp h
      cases h
      rw [Condition.clauses, comparisons]
      exact forall₂_clauses hinner

theorem forall₂_clausesOf : ∀ {parts : List Condition} {plans : List Plan},
    compileParts r type parts = .ok plans →
    List.Forall₂ (fun clause c =>
        compileComparison r type clause.field clause.operator clause.operand = .ok c)
      (Condition.clausesOf parts) (comparisonsOf plans)
  | [], _, h => by
      cases h
      exact .nil
  | _ :: _, _, h => by
      obtain ⟨plan, hplan, h⟩ := bind_eq_ok.mp h
      obtain ⟨more, hmore, h⟩ := bind_eq_ok.mp h
      cases h
      exact List.rel_append (forall₂_clauses hplan) (forall₂_clausesOf hmore)

end

/-- The comparisons of a compiled plan keep what the clauses of its condition declare, one by one and in
their order, and go on to keep it when their right sides are bound.  The type of what is compared with
is then the declared type, and it is the declared type that the value of a field is read as. -/
theorem compile_keeps {condition : Condition} {plan : Plan}
    (h : compile r type condition = .ok plan) :
    List.Forall₂ (fun clause c => c.Keeps r type clause ∧
        ∀ p v, c.expected p = .ok v →
          (c.withValue v).Keeps r type clause ∧ v.type? = some c.declared ∧
          ∀ field actual?, compareField field actual? c.operator v =
            if (actual?.getD .null).isNull then .ok (c.operator == .notEquals)
            else comparePresent field c.declared c.operator (actual?.getD .null) v)
      condition.clauses plan.comparisons := by
  refine (forall₂_clauses h).imp ?_
  intro clause c hc
  have hkeeps := compileComparison_keeps hc
  have htyped := compileComparison_wellTyped hc
  refine ⟨hkeeps, fun p v hv => ⟨?bound, (htyped.expected_suits hv).type?, ?compare⟩⟩
  case bound => exact (htyped.bound hv).keeps hkeeps.field hkeeps.operator hkeeps.declared
  case compare => exact htyped.compareField_eq hv

end compile

end Plan

/-! ### Officers on duty -/

namespace Office

def dutyClause : Clause := ⟨"relatedCase.urgent", .equals, .principal "onDuty" .boolean⟩

def listedClause : Clause := ⟨"id", .isIn, .list [.infer (.string "t1"), .infer (.string "t3")]⟩

/-- Two tasks, of cases that are as urgent as the principal is on duty. -/
def dutyRule : Condition :=
  .all [.compare dutyClause.field dutyClause.operator dutyClause.operand,
    .not (.compare listedClause.field listedClause.operator listedClause.operand)]

def dutyComparison : Comparison := ⟨⟨["relatedCase"], "urgent"⟩, .equals, .attribute "onDuty", .boolean⟩

def listedComparison : Comparison :=
  ⟨⟨[], "id"⟩, .isIn, .value (.list [.string "t1", .string "t3"]), .string⟩

def officer : Principal := ⟨"alice", ["user"], [("onDuty", .string "true")]⟩

end Office

namespace Plan

/-- An attribute that is a text is bound as the truth value that is declared, so that a field with
another text fails as no truth value. -/
theorem compile_keeps_duty :
    compile Office.registry "task" Office.dutyRule =
      .ok (.all [.compare Office.dutyComparison, .not (.compare Office.listedComparison)]) ∧
    Office.listedComparison.Keeps Office.registry "task" Office.listedClause ∧
    (Office.dutyComparison.withValue (.boolean true)).Keeps Office.registry "task" Office.dutyClause ∧
    compareField "urgent" (some (.string "very")) .equals (.boolean true) =
      .error (.fieldType "urgent" "bool" "string") := by
  have hcompile : compile Office.registry "task" Office.dutyRule =
      .ok (.all [.compare Office.dutyComparison, .not (.compare Office.listedComparison)]) := rfl
  have hexpected : Office.dutyComparison.expected Office.officer = .ok (.boolean true) := rfl
  obtain ⟨⟨-, hduty⟩, hrest⟩ := List.forall₂_cons.mp (compile_keeps hcompile)
  obtain ⟨⟨hlisted, -⟩, -⟩ := List.forall₂_cons.mp hrest
  obtain ⟨hbound, -, hcompare⟩ := hduty _ _ hexpected
  exact ⟨hcompile, hlisted, hbound, hcompare "urgent" (some (.string "very"))⟩

end Plan
end AccessControl
