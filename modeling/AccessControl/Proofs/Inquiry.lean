import AccessControl.Registry

/-! # The laws of inquiries

Inquiries are a lawful monad: the outcome of one inquiry after another is that of their outcomes
(`outcome_bind`), and lookups add up.  `FailsOnly` says of an outcome in which ways it can fail; it is
kept when one computation follows another.

An `Agreement` is a relation between inquiries that is kept when one inquiry follows another.  Two
ways to decide the same thing are compared by one induction over their common shape, whatever the
agreement is; `same`, `sameOutcome` and `refines` are the agreements that decisions and filters are
compared by. -/

namespace AccessControl

/-! ### Outcomes -/

section outcomes
variable {ε α β : Type}

/-- One computation after another succeeds when both do. -/
theorem bind_eq_ok {x : Except ε α} {f : α → Except ε β} {b : β} :
    (x >>= f) = .ok b ↔ ∃ a, x = .ok a ∧ f a = .ok b := by
  cases x <;> simp [bind, Except.bind]

@[simp] theorem ok_bind (a : α) (f : α → Except ε β) : (Except.ok a >>= f) = f a := rfl

@[simp] theorem error_bind (e : ε) (f : α → Except ε β) :
    ((Except.error e : Except ε α) >>= f) = .error e := rfl

/-- A computation for each item of a list fails as the first of them does that fails. -/
theorem forM_eq_error {f : α → Except ε Unit} {e : ε} : ∀ {xs : List α},
    xs.forM f = .error e ↔ ∃ before x after, xs = before ++ x :: after ∧
      (∀ y ∈ before, f y = .ok ()) ∧ f x = .error e
  | [] => by simp [List.forM, pure, Except.pure]
  | x :: xs => by
      show (f x >>= fun _ => xs.forM f) = _ ↔ _
      cases hx : f x with
      | error e' =>
          constructor
          · intro h
            cases h
            exact ⟨[], x, xs, rfl, fun _ hy => (nomatch hy), hx⟩
          · rintro ⟨before, y, after, hxs, hbefore, hy⟩
            cases before with
            | nil =>
                cases hxs
                cases hx.symm.trans hy
                rfl
            | cons z before =>
                cases hxs
                rw [hbefore x List.mem_cons_self] at hx
                cases hx
      | ok u =>
          rw [ok_bind, forM_eq_error]
          constructor
          · rintro ⟨before, y, after, rfl, hbefore, hy⟩
            exact ⟨x :: before, y, after, rfl, List.forall_mem_cons.mpr ⟨hx, hbefore⟩, hy⟩
          · rintro ⟨before, y, after, hxs, hbefore, hy⟩
            cases before with
            | nil =>
                cases hxs
                rw [hx] at hy
                cases hy
            | cons z before =>
                cases hxs
                exact ⟨before, y, after, rfl, (List.forall_mem_cons.mp hbefore).2, hy⟩

/-- A search among items that are tested without a failure. -/
theorem anyM_of_ok {f : α → Except ε Bool} {g : α → Bool} : ∀ {xs : List α},
    (∀ x ∈ xs, f x = .ok (g x)) → xs.anyM f = .ok (xs.any g)
  | [], _ => rfl
  | x :: xs, h => by
      obtain ⟨hx, hxs⟩ := List.forall_mem_cons.mp h
      rw [List.anyM_cons, hx, ok_bind, anyM_of_ok hxs, List.any_cons]
      cases g x <;> rfl

end outcomes

/-! ### Computations that fail in known ways -/

/-- A computation whose failure, if it fails, is one that `P` allows. -/
def FailsOnly {α : Type} (P : Failure → Prop) (x : Except Failure α) : Prop :=
  ∀ e, x = .error e → P e

namespace FailsOnly

variable {α β : Type} {P Q : Failure → Prop}

theorem ok (a : α) : FailsOnly P (.ok a) := by
  intro e h
  cases h

theorem error {e : Failure} (h : P e) : FailsOnly P (.error e : Except Failure α) := by
  intro e' he
  cases he
  exact h

theorem bind {x : Except Failure α} {f : α → Except Failure β} (hx : FailsOnly P x)
    (hf : ∀ a, x = .ok a → FailsOnly P (f a)) : FailsOnly P (x >>= f) := by
  intro e h
  cases hx' : x with
  | error e' =>
      rw [hx', error_bind] at h
      cases h
      exact hx e hx'
  | ok a =>
      rw [hx', ok_bind] at h
      exact hf a hx' e h

theorem map {x : Except Failure α} (hx : FailsOnly P x) (f : α → β) : FailsOnly P (x.map f) :=
  hx.bind fun _ _ => ok _

theorem mono {x : Except Failure α} (hx : FailsOnly P x) (hPQ : ∀ e, P e → Q e) : FailsOnly Q x :=
  fun e h => hPQ e (hx e h)

/-- A test with a choice between two ways to go on. -/
theorem branch {x : Except Failure Bool} {a b : Except Failure α} (hx : FailsOnly P x)
    (ha : FailsOnly P a) (hb : FailsOnly P b) :
    FailsOnly P (x >>= fun t => if t then a else b) := by
  refine hx.bind fun t _ => ?_
  cases t with
  | true => exact ha
  | false => exact hb

end FailsOnly

namespace Inquiry

variable {α β : Type}

theorem ext' {x y : Inquiry α} (ho : x.outcome = y.outcome) (hl : x.lookups = y.lookups) :
    x = y := by
  cases x
  cases y
  simp only at ho hl
  rw [ho, hl]

@[simp] theorem outcome_pure (a : α) : (pure a : Inquiry α).outcome = .ok a := rfl

@[simp] theorem lookups_pure (a : α) : (pure a : Inquiry α).lookups = 0 := rfl

@[simp] theorem outcome_lift (x : Except Failure α) : (liftM x : Inquiry α).outcome = x := rfl

@[simp] theorem lift_ok (a : α) : (liftM (Except.ok a : Except Failure α) : Inquiry α) = pure a := rfl

theorem lift_bind (x : Except Failure α) (f : α → Except Failure β) :
    (liftM (x >>= f) : Inquiry β) = liftM x >>= fun a => liftM (f a) := by
  cases x <;> rfl

@[simp] theorem outcome_asked (x : Except Failure α) : (asked x).outcome = x := rfl

@[simp] theorem outcome_bind (x : Inquiry α) (f : α → Inquiry β) :
    (x >>= f).outcome = x.outcome >>= fun a => (f a).outcome := by
  show (andThen x f).outcome = _
  unfold andThen
  cases h : x.outcome <;> rfl

/-- An inquiry with a choice between two ways to go on fails as it or one of these does. -/
theorem failsOnly_branch {P : Failure → Prop} {x : Inquiry Bool} {a b : Inquiry α}
    (hx : FailsOnly P x.outcome) (ha : FailsOnly P a.outcome) (hb : FailsOnly P b.outcome) :
    FailsOnly P (x >>= fun t => if t then a else b).outcome := by
  simp only [outcome_bind, apply_ite outcome]
  exact hx.branch ha hb

theorem lookups_bind_ok {x : Inquiry α} {a : α} (h : x.outcome = .ok a) (f : α → Inquiry β) :
    (x >>= f).lookups = x.lookups + (f a).lookups := by
  show (andThen x f).lookups = _
  simp [andThen, h]

theorem lookups_bind_error {x : Inquiry α} {e : Failure} (h : x.outcome = .error e)
    (f : α → Inquiry β) : (x >>= f).lookups = x.lookups := by
  show (andThen x f).lookups = _
  simp [andThen, h]

theorem id_map_eq (x : Inquiry α) : id <$> x = x := by
  cases hx : x.outcome with
  | ok a =>
      exact ext' (by simp [Functor.map, andThen, hx]; rfl) (by simp [Functor.map, andThen, hx]; rfl)
  | error e => exact ext' (by simp [Functor.map, andThen, hx]) (by simp [Functor.map, andThen, hx])

theorem pure_bind_eq (a : α) (f : α → Inquiry β) : pure a >>= f = f a :=
  ext' (by simp) (by rw [lookups_bind_ok (outcome_pure a)]; simp)

/-- The lookups of three inquiries one after another add up in any grouping. -/
theorem bind_bind_eq {γ : Type} (x : Inquiry α) (f : α → Inquiry β) (g : β → Inquiry γ) :
    x >>= f >>= g = x >>= fun a => f a >>= g := by
  cases hx : x.outcome with
  | error e =>
      have hxf : (x >>= f).outcome = .error e := by simp [hx]
      exact ext' (by simp [hx])
        (by rw [lookups_bind_error hxf, lookups_bind_error hx, lookups_bind_error hx])
  | ok a =>
      refine ext' (by simp [hx]) ?_
      rw [lookups_bind_ok hx]
      cases hf : (f a).outcome with
      | error e =>
          have hxf : (x >>= f).outcome = .error e := by simp [hx, hf]
          rw [lookups_bind_error hxf, lookups_bind_ok hx, lookups_bind_error hf]
      | ok b =>
          have hxf : (x >>= f).outcome = .ok b := by simp [hx, hf]
          rw [lookups_bind_ok hxf, lookups_bind_ok hx, lookups_bind_ok hf, Nat.add_assoc]

/-- Inquiries that start alike, and go on alike from what they found, are the same. -/
theorem bind_congr_ok {x y : Inquiry α} {f g : α → Inquiry β} (hxy : x = y)
    (hfg : ∀ a, x.outcome = .ok a → f a = g a) : x >>= f = y >>= g := by
  subst hxy
  cases hx : x.outcome with
  | error e =>
      exact ext' (by simp [hx]) (by rw [lookups_bind_error hx, lookups_bind_error hx])
  | ok a =>
      exact ext' (by simp [hx, hfg a hx])
        (by rw [lookups_bind_ok hx, lookups_bind_ok hx, hfg a hx])

instance : LawfulMonad Inquiry := LawfulMonad.mk' Inquiry id_map_eq pure_bind_eq bind_bind_eq

end Inquiry

/-! ### Agreement -/

/-- A relation between inquiries that is kept when one inquiry follows another. -/
structure Agreement where
  rel : {α : Type} → Inquiry α → Inquiry α → Prop
  refl : ∀ {α : Type} (x : Inquiry α), rel x x
  bind : ∀ {α β : Type} {x y : Inquiry α} {f g : α → Inquiry β},
    rel x y → (∀ a, rel (f a) (g a)) → rel (x >>= f) (y >>= g)

namespace Agreement

/-- Agreement on everything, lookups included. -/
def same : Agreement where
  rel x y := x = y
  refl _ := rfl
  bind := by
    intro α β x y f g hxy hfg
    rw [hxy, funext hfg]

/-- Agreement on answers and failures, whatever was looked up. -/
def sameOutcome : Agreement where
  rel x y := x.outcome = y.outcome
  refl _ := rfl
  bind := by
    intro α β x y f g hxy hfg
    simp only [Inquiry.outcome_bind, hxy, hfg]

/-- Agreement on the answers of the first inquiry: where it fails, the second may do anything. -/
def refines : Agreement where
  rel x y := ∀ a, x.outcome = .ok a → y.outcome = .ok a
  refl _ _ h := h
  bind := by
    intro α β x y f g hxy hfg b hb
    rw [Inquiry.outcome_bind, bind_eq_ok] at hb ⊢
    obtain ⟨a, ha, hfa⟩ := hb
    exact ⟨a, hxy a ha, hfg a b hfa⟩

variable (A : Agreement) {α : Type}

/-- Two tests that agree, followed by the same choice between agreeing ways to go on. -/
theorem branch {x y : Inquiry Bool} {a b c d : Inquiry α} (h : A.rel x y) (ht : A.rel a c)
    (hf : A.rel b d) :
    A.rel (x >>= fun t => if t then a else b) (y >>= fun t => if t then c else d) := by
  refine A.bind h fun t => ?_
  cases t with
  | true => exact ht
  | false => exact hf

end Agreement
end AccessControl
