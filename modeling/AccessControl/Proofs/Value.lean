import AccessControl.Comparison
import AccessControl.Proofs.Timestamp

/-! # The laws of values

Equality of values is symmetric, and reflexive but for `nan`.  Values of one type are ordered on a
line, unless one of them is `nan` (`Value.exists_order?`), and whether they are the same or one is
below the other is read off their order. -/

namespace AccessControl

/-! ### Orders as tests -/

theorem beq_eq_compare {α : Type} [Ord α] [Std.LawfulEqOrd α] [BEq α] [LawfulBEq α] (a b : α) :
    (a == b) = (compare a b == .eq) := by
  rw [Bool.eq_iff_iff, beq_iff_eq, beq_iff_eq, Std.LawfulEqOrd.compare_eq_iff_eq]

theorem decide_lt_eq_compare (a b : Int) : decide (a < b) = (compare a b == .lt) := by
  rw [Bool.eq_iff_iff, decide_eq_true_eq, beq_iff_eq, Int.compare_eq_lt]

theorem decide_gt_eq_compare (a b : Int) : decide (b < a) = (compare a b == .gt) := by
  rw [Bool.eq_iff_iff, decide_eq_true_eq, beq_iff_eq, Int.compare_eq_gt]

theorem Timestamp.beq_eq_compare_position (u v : Timestamp) :
    (u == v) = (compare u.position v.position == .eq) := by
  rw [Bool.eq_iff_iff, beq_iff_eq, beq_iff_eq, Int.compare_eq_eq]
  exact ⟨congrArg Timestamp.position, Timestamp.position_inj⟩

/-! ### Numbers -/

namespace Number
variable {x y : Number}

theorem position?_of_ne_nan (h : x ≠ .nan) : ∃ a, x.position? = some a := by
  match x with
  | .nan => exact absurd rfl h
  | .signed true m => exact ⟨_, rfl⟩
  | .signed false m => exact ⟨_, rfl⟩

theorem equal_iff : x.equal y = true ↔ ∃ a, x.position? = some a ∧ y.position? = some a := by
  unfold equal
  cases x.position? with
  | none => simp
  | some a =>
      cases y.position? with
      | none => simp
      | some b =>
          simp only [beq_iff_eq, Option.some.injEq]
          exact ⟨fun h => ⟨a, rfl, h.symm⟩, fun ⟨c, ha, hb⟩ => ha.trans hb.symm⟩

theorem equal_comm (x y : Number) : x.equal y = y.equal x := by
  rw [Bool.eq_iff_iff, equal_iff, equal_iff]
  exact exists_congr fun a => and_comm

theorem equal_trans {z : Number} (hxy : x.equal y = true) (hyz : y.equal z = true) :
    x.equal z = true := by
  obtain ⟨a, hx, hy⟩ := equal_iff.mp hxy
  obtain ⟨b, hy', hz⟩ := equal_iff.mp hyz
  cases hy.symm.trans hy'
  exact equal_iff.mpr ⟨a, hx, hz⟩

end Number

/-! ### Equality -/

namespace Value

mutual

theorem same_comm : ∀ x y : Value, x.same y = y.same x
  | .null, y => by cases y <;> rfl
  | .string s, y => by cases y <;> first | rfl | exact Bool.beq_comm
  | .number m, y => by cases y <;> first | rfl | exact Number.equal_comm _ _
  | .boolean a, y => by cases y <;> first | rfl | exact Bool.beq_comm
  | .date t, y => by cases y <;> first | rfl | exact Bool.beq_comm
  | .list xs, y => by
      cases y with
      | list ys => rw [same, same, sameItems_comm xs ys]
      | _ => rfl

theorem sameItems_comm : ∀ xs ys : List Value, sameItems xs ys = sameItems ys xs
  | [], [] => rfl
  | [], _ :: _ => rfl
  | _ :: _, [] => rfl
  | x :: xs, y :: ys => by rw [sameItems, sameItems, same_comm x y, sameItems_comm xs ys]

end

mutual

theorem same_trans : ∀ {x y z : Value}, x.same y = true → y.same z = true → x.same z = true
  | .null, y, z, hxy, hyz => by
      cases y with
      | null => exact hyz
      | _ => cases hxy
  | .string s, y, z, hxy, hyz => by
      cases y with
      | string t =>
          have hst : s = t := eq_of_beq hxy
          rw [hst, hyz]
      | _ => cases hxy
  | .number m, y, z, hxy, hyz => by
      cases y with
      | number n =>
          cases z with
          | number k => exact Number.equal_trans hxy hyz
          | _ => cases hyz
      | _ => cases hxy
  | .boolean a, y, z, hxy, hyz => by
      cases y with
      | boolean b =>
          have hab : a = b := eq_of_beq hxy
          rw [hab, hyz]
      | _ => cases hxy
  | .date u, y, z, hxy, hyz => by
      cases y with
      | date v =>
          have huv : u = v := eq_of_beq hxy
          rw [huv, hyz]
      | _ => cases hxy
  | .list xs, y, z, hxy, hyz => by
      cases y with
      | list ys =>
          cases z with
          | list zs =>
              rw [same] at hxy hyz ⊢
              exact sameItems_trans hxy hyz
          | _ => cases hyz
      | _ => cases hxy

theorem sameItems_trans : ∀ {xs ys zs : List Value},
    sameItems xs ys = true → sameItems ys zs = true → sameItems xs zs = true
  | [], [], _, _, hyz => hyz
  | x :: xs, y :: ys, z :: zs, hxy, hyz => by
      rw [sameItems, Bool.and_eq_true] at hxy hyz ⊢
      exact ⟨same_trans hxy.1 hyz.1, sameItems_trans hxy.2 hyz.2⟩
  | [], _ :: _, _, hxy, _ => by cases hxy
  | _ :: _, [], _, hxy, _ => by cases hxy
  | _ :: _, _ :: _, [], _, hyz => by cases hyz

end

/-- Only null is the same as null. -/
theorem isNull_eq_of_same {x y : Value} (h : x.same y = true) : x.isNull = y.isNull := by
  cases x <;> cases y <;> first | rfl | cases h

variable {x y z : Value} {t : ValueType}

theorem same_self (hx : Literal.naturalType? x = some t) (hnan : x ≠ .number .nan) :
    x.same x = true := by
  cases x with
  | null => cases hx
  | list items => cases hx
  | string s => exact beq_self_eq_true s
  | boolean b => exact beq_self_eq_true b
  | date u => exact beq_self_eq_true u
  | number m =>
      have hm : m ≠ .nan := fun h => hnan (congrArg Value.number h)
      obtain ⟨a, ha⟩ := Number.position?_of_ne_nan hm
      exact Number.equal_iff.mpr ⟨a, ha, ha⟩

/-! ### Order -/

/-- The order of two values of one type; `nan` has no place in it. -/
def order? : Value → Value → Option Ordering
  | string u, string v => some (compare u v)
  | number m, number n => do return compare (← m.position?) (← n.position?)
  | boolean a, boolean b => some (compare a b)
  | date u, date v => some (compare u.position v.position)
  | _, _ => none

theorem order?_number {m n : Number} {o : Ordering} (h : (number m).order? (number n) = some o) :
    ∃ a b, m.position? = some a ∧ n.position? = some b ∧ o = compare a b := by
  simp only [order?] at h
  cases hm : m.position? with
  | none =>
      rw [hm] at h
      cases h
  | some a =>
      cases hn : n.position? with
      | none =>
          rw [hm, hn] at h
          cases h
      | some b =>
          rw [hm, hn] at h
          cases h
          exact ⟨a, b, rfl, rfl, rfl⟩

theorem exists_order? (hx : Literal.naturalType? x = some t) (hy : Literal.naturalType? y = some t)
    (hxnan : x ≠ .number .nan) (hynan : y ≠ .number .nan) : ∃ o, x.order? y = some o := by
  match x, y with
  | .string _, .string _ | .boolean _, .boolean _ | .date _, .date _ => exact ⟨_, rfl⟩
  | .number m, .number n =>
      obtain ⟨a, ha⟩ := Number.position?_of_ne_nan fun h => hxnan (congrArg Value.number h)
      obtain ⟨b, hb⟩ := Number.position?_of_ne_nan fun h => hynan (congrArg Value.number h)
      refine ⟨compare a b, ?_⟩
      rw [order?, ha, hb]
      rfl

theorem same_of_order? {o : Ordering} (h : x.order? y = some o) : x.same y = (o == .eq) := by
  match x, y with
  | .string u, .string v =>
      cases h
      exact beq_eq_compare u v
  | .boolean a, .boolean b =>
      cases h
      exact beq_eq_compare a b
  | .date u, .date v =>
      cases h
      exact Timestamp.beq_eq_compare_position u v
  | .number m, .number n =>
      obtain ⟨a, b, ha, hb, rfl⟩ := order?_number h
      simp only [same, Number.equal, ha, hb, beq_eq_compare a b]

/-- Numbers and dates are below one another as they are ordered. -/
theorem isBelow_of_order? {o : Ordering} (hx : Literal.naturalType? x = some t)
    (ht : t.isOrdered = true) (h : x.order? y = some o) :
    x.isBelow y = (o == .lt) ∧ y.isBelow x = (o == .gt) := by
  match x, y with
  | .string _, .string _ | .boolean _, .boolean _ =>
      cases hx
      cases ht
  | .date u, .date v =>
      cases h
      exact ⟨decide_lt_eq_compare u.position v.position, decide_gt_eq_compare u.position v.position⟩
  | .number m, .number n =>
      obtain ⟨a, b, ha, hb, rfl⟩ := order?_number h
      simp only [isBelow, Number.less, ha, hb]
      exact ⟨decide_lt_eq_compare a b, decide_gt_eq_compare a b⟩

theorem order?_of_isBelow (h : x.isBelow y = true) :
    x.order? y = some .lt ∧ y.order? x = some .gt := by
  match x, y with
  | .date u, .date v =>
      have hlt : u.position < v.position := of_decide_eq_true h
      exact ⟨congrArg some (Int.compare_eq_lt.mpr hlt), congrArg some (Int.compare_eq_gt.mpr hlt)⟩
  | .number m, .number n =>
      simp only [isBelow, Number.less] at h
      cases hm : m.position? with
      | none => simp [hm] at h
      | some a =>
          cases hn : n.position? with
          | none => simp [hm, hn] at h
          | some b =>
              simp only [hm, hn, decide_eq_true_eq] at h
              simp only [order?, hm, hn]
              exact ⟨congrArg some (Int.compare_eq_lt.mpr h), congrArg some (Int.compare_eq_gt.mpr h)⟩

end Value
end AccessControl
