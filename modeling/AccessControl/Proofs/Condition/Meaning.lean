import AccessControl.Plan
import AccessControl.Proofs.Condition.Text

/-! # Texts keep the meaning of conditions

A condition and what its text denotes mean the same (`Condition.exists_read_write_alike`): for every
type they are refused with the same failure, or their plans decide alike for every resource, at the
same lookups.

They are not equal, since the normal form has no groups of one part and no dates but in strings.  A
group of one part decides as the part does, and a date that is written down is compiled to itself. -/

namespace AccessControl

/-! ### Alike outcomes -/

/-- Two outcomes that are the same failure or related answers. -/
inductive Alike {ε α β : Type} (R : α → β → Prop) : Except ε α → Except ε β → Prop
  | error (e : ε) : Alike R (.error e) (.error e)
  | ok {a : α} {b : β} (h : R a b) : Alike R (.ok a) (.ok b)

namespace Alike

variable {ε α β γ δ : Type}

theorem refl {R : α → α → Prop} (h : ∀ a, R a a) : ∀ x : Except ε α, Alike R x x
  | .error e => .error e
  | .ok a => .ok (h a)

theorem trans {R : α → α → Prop} (h : ∀ a b c, R a b → R b c → R a c) {x y z : Except ε α}
    (hxy : Alike R x y) (hyz : Alike R y z) : Alike R x z := by
  cases hxy with
  | error e => exact hyz
  | ok hab =>
      cases hyz with
      | ok hbc => exact .ok (h _ _ _ hab hbc)

theorem of_ok_right {R : α → β → Prop} {x : Except ε α} {y : Except ε β} {b : β} (h : Alike R x y)
    (hy : y = .ok b) : ∃ a, x = .ok a ∧ R a b := by
  cases h with
  | error e => cases hy
  | ok hab =>
      cases hy
      exact ⟨_, rfl, hab⟩

theorem bind {R : α → β → Prop} {S : γ → δ → Prop} {x : Except ε α} {y : Except ε β}
    {f : α → Except ε γ} {g : β → Except ε δ} (h : Alike R x y)
    (hfg : ∀ a b, R a b → Alike S (f a) (g b)) : Alike S (x >>= f) (y >>= g) := by
  cases h with
  | error e => exact .error e
  | ok hab => exact hfg _ _ hab

end Alike

/-! ### Alike plans -/

namespace Plan

/-- Whether two plans decide alike for every resource. -/
def Agrees (p q : Plan) : Prop :=
  ∀ (r : Registry) (s : Scope) (subject : Resource), p.evaluate r s subject = q.evaluate r s subject

theorem Agrees.refl (p : Plan) : p.Agrees p := fun _ _ _ => rfl

theorem Agrees.trans (p q o : Plan) (h : p.Agrees q) (h' : q.Agrees o) : p.Agrees o :=
  fun r s subject => (h r s subject).trans (h' r s subject)

theorem Agrees.not {p q : Plan} (h : p.Agrees q) : (Plan.not p).Agrees (Plan.not q) := by
  intro r s subject
  unfold evaluate
  rw [h r s subject]

/-- The plan of a group, given the plans of its parts. -/
def ofGroup : Condition.Junction → List Plan → Plan
  | .and => all
  | .or => any

theorem agrees_ofGroup (j : Condition.Junction) {ps qs : List Plan} (h : List.Forall₂ Agrees ps qs) :
    (ofGroup j ps).Agrees (ofGroup j qs) := by
  intro r s subject
  cases j with
  | and =>
      show evaluateAll r s subject ps = evaluateAll r s subject qs
      induction h with
      | nil => rfl
      | cons hpart _ ih =>
          unfold evaluateAll
          rw [hpart r s subject, ih]
  | or =>
      show evaluateAny r s subject ps = evaluateAny r s subject qs
      induction h with
      | nil => rfl
      | cons hpart _ ih =>
          unfold evaluateAny
          rw [hpart r s subject, ih]

/-- A group of one part decides as the part does. -/
theorem agrees_singleton (j : Condition.Junction) (p : Plan) : p.Agrees (ofGroup j [p]) := by
  intro r s subject
  have hsame : (fun t : Bool => if t then pure true else pure false) = (pure : Bool → Inquiry Bool) := by
    funext t
    cases t <;> rfl
  have hone : (p.evaluate r s subject >>= fun t => if t then pure true else pure false) =
      p.evaluate r s subject := by
    rw [hsame, bind_pure]
  cases j <;> exact hone.symm

/-! ### Compiling normal forms -/

variable (r : Registry) (type : String)

/-- A date that was written down is read as the date. -/
theorem compileLiteral_normal (field : String) {l : Literal} (h : l.IsPrintable) :
    compileLiteral field l.normal = compileLiteral field l ∧ l.normal.declared = l.declared := by
  cases h with
  | string | number | boolean => exact ⟨rfl, rfl⟩
  | @date t hplain =>
      have hback : Value.coerce? (.string t.write) .date = some (.date t) := by
        simp [Value.coerce?, Timestamp.read?_write hplain]
      refine ⟨?_, rfl⟩
      show compileLiteral field ⟨.date, .string t.write⟩ = .ok (.date t)
      simp [compileLiteral, hback]

theorem compileItems_normal (field : String) (declared : ValueType) : ∀ {items : List Literal},
    (∀ l ∈ items, l.IsPrintable) →
      compileItems field declared (items.map .normal) = compileItems field declared items
  | [], _ => rfl
  | l :: items, h => by
      obtain ⟨hl, hrest⟩ := List.forall_mem_cons.mp h
      obtain ⟨hliteral, hdeclared⟩ := compileLiteral_normal field hl
      rw [List.map_cons]
      unfold compileItems
      rw [hliteral, hdeclared, compileItems_normal field declared hrest]

theorem compileOperand_normal (field : String) (operator : Operator) {operand : Operand}
    (h : operand.IsPrintable) :
    compileOperand field operator operand.normal = compileOperand field operator operand := by
  cases h with
  | literal hl =>
      obtain ⟨hliteral, hdeclared⟩ := compileLiteral_normal field hl
      cases operator <;> simp [Operand.normal, compileOperand, hliteral, hdeclared]
  | @list items hne hitems =>
      cases items with
      | nil => exact absurd rfl hne
      | cons first rest =>
          have hlist := compileItems_normal field first.declared hitems
          obtain ⟨-, hdeclared⟩ := compileLiteral_normal field (hitems first List.mem_cons_self)
          rw [List.map_cons] at hlist
          cases operator <;> simp [Operand.normal, compileOperand, hlist, hdeclared]
  | principal hname declared => rfl

theorem compile_join (j : Condition.Junction) (parts : List Condition) :
    compile r type (j.join parts) = do return ofGroup j (← compileParts r type parts) := by
  cases j <;> rfl

theorem alike_join (j : Condition.Junction) {cs ds : List Condition}
    (h : Alike (List.Forall₂ Agrees) (compileParts r type cs) (compileParts r type ds)) :
    Alike Agrees (compile r type (j.join cs)) (compile r type (j.join ds)) := by
  rw [compile_join, compile_join]
  exact h.bind fun ps qs hparts => .ok (agrees_ofGroup j hparts)

/-- A single part is compiled as it is in a group. -/
theorem alike_group (j : Condition.Junction) (c : Condition) (cs : List Condition) :
    Alike Agrees (compile r type (Condition.group j.join c cs)) (compile r type (j.join (c :: cs))) := by
  cases cs with
  | nil =>
      rw [compile_join]
      show Alike Agrees (compile r type c) _
      simp only [compileParts]
      cases compile r type c with
      | error e => exact .error e
      | ok p => exact .ok (agrees_singleton j p)
  | cons d cs => exact .refl Agrees.refl _

mutual

/-- What the text of a printable condition denotes is compiled as the condition is. -/
theorem alike_normal : ∀ c : Condition, c.IsPrintable →
    Alike Agrees (compile r type c.normal) (compile r type c)
  | .compare field operator operand, h => by
      have hsame : compile r type (Condition.normal (.compare field operator operand)) =
          compile r type (.compare field operator operand) := by
        unfold Condition.normal compile compileComparison
        rw [compileOperand_normal field operator h.2]
      rw [hsame]
      exact .refl Agrees.refl _
  | .all [], h => absurd rfl h.1
  | .any [], h => absurd rfl h.1
  | .all (first :: rest), h =>
      .trans Agrees.trans (alike_group r type .and first.normal _)
        (alike_join r type .and (alike_normalParts (first :: rest) h.2))
  | .any (first :: rest), h =>
      .trans Agrees.trans (alike_group r type .or first.normal _)
        (alike_join r type .or (alike_normalParts (first :: rest) h.2))
  | .not inner, h => (alike_normal inner h).bind fun _ _ hinner => .ok hinner.not

theorem alike_normalParts : ∀ parts : List Condition, Condition.ArePrintable parts →
    Alike (List.Forall₂ Agrees) (compileParts r type (Condition.normalParts parts))
      (compileParts r type parts)
  | [], _ => .ok .nil
  | part :: rest, h => (alike_normal part h.1).bind fun _ _ hpart =>
      (alike_normalParts rest h.2).bind fun _ _ hrest => .ok (.cons hpart hrest)

end

end Plan

namespace Condition

/-- The text of a printable condition denotes a condition that, for every type of every registry, is
refused for the same reason, or compiled to a plan that decides alike. -/
theorem exists_read_write_alike {c : Condition} (h : c.IsPrintable) :
    ∃ d, read c.write = .ok d ∧ ∀ (r : Registry) (type : String),
      Alike Plan.Agrees (Plan.compile r type d) (Plan.compile r type c) :=
  ⟨c.normal, read_write_normal h, fun r type => Plan.alike_normal r type c h⟩

/-- The condition compiles for every type of every registry, since its fields are at the end of no
relations, and so does what its text denotes. -/
theorem exists_read_write_alike_owedOrDue :
    ∃ d, read owedOrDue.write = .ok d ∧ ∀ (r : Registry) (type : String),
      ∃ p q, Plan.compile r type d = .ok p ∧ Plan.compile r type owedOrDue = .ok q ∧ p.Agrees q := by
  obtain ⟨d, hread, halike⟩ := exists_read_write_alike isPrintable_owedOrDue
  refine ⟨d, hread, fun r type => ?_⟩
  obtain ⟨q, hq⟩ : ∃ q, Plan.compile r type owedOrDue = .ok q := ⟨_, rfl⟩
  obtain ⟨p, hp, hagrees⟩ := (halike r type).of_ok_right hq
  exact ⟨p, q, hp, hq, hagrees⟩

end Condition
end AccessControl
