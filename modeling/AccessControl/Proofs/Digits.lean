import AccessControl.Text

/-! # Digits in order, and read back

Numbers written with a fixed number of digits sort as text the way they sort as numbers
(`compare_paddedDecimal`), and texts made of parts of fixed lengths are compared part by part
(`compare_append`), as numbers in positional notation are compared place by place
(`compare_mul_add`).  A number is read back from its digits in any base (`ofDigits_digitsOf`), and
from digits with zeros in front of them (`ofDigits_paddedDecimal`). -/

namespace AccessControl.Text

/-! ### Comparing part by part -/

theorem compareOfLessAndEq_cons (x y : Char) (xs ys : List Char) :
    compareOfLessAndEq (x :: xs) (y :: ys) =
      (compareOfLessAndEq x y).then (compareOfLessAndEq xs ys) := by
  simp only [compareOfLessAndEq, List.cons_lt_cons_iff, List.cons.injEq]
  by_cases hlt : x < y
  · simp [hlt]
  · by_cases heq : x = y
    · simp [heq]
    · simp [hlt, heq]

/-- Strings are compared as the lists of their characters. -/
theorem compare_ofList (xs ys : List Char) :
    compare (String.ofList xs) (String.ofList ys) = compare xs ys := by
  have hlists : ∀ xs ys : List Char, compareOfLessAndEq xs ys = compare xs ys := by
    intro xs
    induction xs with
    | nil => intro ys; cases ys <;> rfl
    | cons x xs ih =>
        intro ys
        cases ys with
        | nil => rfl
        | cons y ys =>
            rw [compareOfLessAndEq_cons, List.compare_cons_cons, ih]
            rfl
  rw [← hlists]
  show compareOfLessAndEq (String.ofList xs) (String.ofList ys) = _
  have hlt : String.ofList xs < String.ofList ys ↔ xs < ys := by
    show (String.ofList xs).toList < (String.ofList ys).toList ↔ xs < ys
    rw [String.toList_ofList, String.toList_ofList]
  simp only [compareOfLessAndEq, hlt, String.ofList_inj]

/-- Texts whose first parts have the same length are compared by these, and then by what follows. -/
theorem compare_append : ∀ {xs ys : List Char} (us vs : List Char), xs.length = ys.length →
    compare (xs ++ us) (ys ++ vs) = (compare xs ys).then (compare us vs)
  | [], [], us, vs, _ => rfl
  | x :: xs, y :: ys, us, vs, h => by
      simp only [List.cons_append, List.compare_cons_cons]
      rw [compare_append us vs (Nat.succ.inj h), Ordering.then_assoc]

theorem compare_natCast (m n : Nat) : compare (m : Int) (n : Int) = compare m n := by
  rw [Int.compare_eq_ite_lt, Nat.compare_eq_ite_lt]
  simp only [Int.ofNat_lt]

/-- Two numbers of places are compared by the higher place, and then by the lower one. -/
theorem compare_mul_add {a a' b b' base : Int} (hb : 0 ≤ b ∧ b < base) (hb' : 0 ≤ b' ∧ b' < base) :
    compare (a * base + b) (a' * base + b') = (compare a a').then (compare b b') := by
  rcases Int.lt_trichotomy a a' with h | rfl | h
  · have hle := Int.mul_le_mul_of_nonneg_right (c := base) (Int.add_one_le_of_lt h) (by omega)
    rw [Int.add_mul] at hle
    rw [Int.compare_eq_lt.mpr h, Int.compare_eq_lt.mpr (by omega), Ordering.lt_then]
  · rw [Int.compare_eq_eq.mpr (rfl : a = a), Ordering.eq_then]
    rw [Int.compare_eq_ite_lt, Int.compare_eq_ite_lt]
    simp only [Int.add_lt_add_iff_left]
  · have hle := Int.mul_le_mul_of_nonneg_right (c := base) (Int.add_one_le_of_lt h) (by omega)
    rw [Int.add_mul] at hle
    rw [Int.compare_eq_gt.mpr h, Int.compare_eq_gt.mpr (by omega), Ordering.gt_then]

/-! ### Runs -/

/-- Whether no character of a kind stands at the start of a text. -/
def Stops (kind : Char → Bool) (cs : List Char) : Prop := ∀ c ∈ cs.head?, kind c = false

theorem stops_nil (kind : Char → Bool) : Stops kind [] := by
  intro c hc
  cases hc

theorem stops_cons {kind : Char → Bool} {c : Char} (h : kind c = false) (rest : List Char) :
    Stops kind (c :: rest) := by
  intro d hd
  cases hd
  exact h

theorem Stops.append {kind : Char → Bool} {cs rest : List Char} (h : Stops kind cs)
    (hrest : Stops kind rest) : Stops kind (cs ++ rest) := by
  cases cs with
  | nil => exact hrest
  | cons c cs => exact h

/-- A run of characters of a kind ends where a text starts that stops it. -/
theorem takeWhile_run {kind : Char → Bool} {cs rest : List Char} (hcs : ∀ c ∈ cs, kind c = true)
    (hrest : Stops kind rest) :
    (cs ++ rest).takeWhile kind = cs ∧ (cs ++ rest).dropWhile kind = rest := by
  rw [List.takeWhile_append_of_pos hcs, List.dropWhile_append_of_pos hcs]
  cases rest with
  | nil => simp
  | cons c rest => simp [hrest c rfl]

/-! ### Digits -/

theorem compare_digitChar {d e : Nat} (hd : d < 10) (he : e < 10) :
    compare (digitChar d) (digitChar e) = compare d e := by
  have all : ∀ d < 10, ∀ e < 10, compare (digitChar d) (digitChar e) = compare d e := by decide
  exact all d hd e he

theorem decimal_of_lt {n : Nat} (h : n < 10) : decimal n = [digitChar n] := by
  rw [decimal, digitsOf, if_pos (Or.inr h)]

theorem decimal_of_le {n : Nat} (h : 10 ≤ n) :
    decimal n = decimal (n / 10) ++ [digitChar (n % 10)] := by
  rw [decimal, digitsOf, if_neg (by omega)]
  rfl

theorem isDigit_digitChar {d : Nat} (h : d < 10) : isDigit (digitChar d) = true := by
  have all : ∀ d < 10, isDigit (digitChar d) = true := by decide
  exact all d h

theorem isDigit_of_mem_decimal {c : Char} : ∀ {n : Nat}, c ∈ decimal n → isDigit c = true := by
  intro n
  induction n using Nat.strongRecOn with
  | ind n ih =>
      intro hc
      by_cases h : n < 10
      · rw [decimal_of_lt h, List.mem_singleton] at hc
        rw [hc]
        exact isDigit_digitChar h
      · rw [decimal_of_le (Nat.le_of_not_lt h), List.mem_append, List.mem_singleton] at hc
        rcases hc with hc | rfl
        · exact ih (n / 10) (by omega) hc
        · exact isDigit_digitChar (Nat.mod_lt n (by decide))

theorem isDigit_of_mem_paddedDecimal {width n : Nat} {c : Char} (hc : c ∈ paddedDecimal width n) :
    isDigit c = true := by
  unfold paddedDecimal at hc
  rcases List.mem_append.mp hc with hc | hc
  · rw [List.eq_of_mem_replicate hc]
    decide
  · exact isDigit_of_mem_decimal hc

theorem decimal_ne_nil (n : Nat) : decimal n ≠ [] := by
  by_cases h : n < 10
  · simp [decimal_of_lt h]
  · simp [decimal_of_le (Nat.le_of_not_lt h)]

theorem length_decimal_of_le {n : Nat} (h : 10 ≤ n) :
    (decimal n).length = (decimal (n / 10)).length + 1 := by
  rw [decimal_of_le h, List.length_append, List.length_singleton]

/-- A number has at most as many digits as the least power of ten above it has zeros. -/
theorem length_decimal_le : ∀ {n count : Nat}, n < Nat.pow 10 (count + 1) →
    (decimal n).length ≤ count + 1
  | n, 0, h => by
      have h : n < 10 := h
      simp [decimal_of_lt h]
  | n, count + 1, h => by
      have h : n < Nat.pow 10 (count + 1) * 10 := h
      by_cases hsmall : n < 10
      · simp [decimal_of_lt hsmall]
      · have ih := @length_decimal_le (n / 10) count (by omega)
        have hlength := length_decimal_of_le (Nat.le_of_not_lt hsmall)
        omega

/-- A number has more digits than a power of ten below it has zeros. -/
theorem lt_length_decimal : ∀ {n count : Nat}, Nat.pow 10 count ≤ n → count < (decimal n).length
  | n, 0, _ => List.length_pos_iff.mpr (decimal_ne_nil n)
  | n, count + 1, h => by
      have h : Nat.pow 10 count * 10 ≤ n := h
      have hpos : 0 < Nat.pow 10 count := Nat.pow_pos (by decide)
      have ih := @lt_length_decimal (n / 10) count (by omega)
      have hlength := length_decimal_of_le (n := n) (by omega)
      omega

theorem digitValue?_lt {c : Char} (h : isDigit c = true) : (digitValue? c).getD 0 < 10 := by
  simp only [isDigit, Bool.and_eq_true, decide_eq_true_eq] at h
  have hlow : '0'.toNat ≤ c.toNat := h.1
  have hhigh : c.toNat ≤ '9'.toNat := h.2
  have h0 : '0'.toNat = 48 := rfl
  have h9 : '9'.toNat = 57 := rfl
  rw [digitValue?, if_pos h, Option.getD_some]
  omega

theorem ofDigits_append_singleton (base : Nat) (cs : List Char) (c : Char) :
    ofDigits base (cs ++ [c]) = ofDigits base cs * base + (digitValue? c).getD 0 := by
  simp only [ofDigits, List.foldl_append, List.foldl_cons, List.foldl_nil]

/-- Digits denote a number below the power of ten that their count stands for. -/
theorem ofDigits_lt {cs : List Char} (h : ∀ c ∈ cs, isDigit c = true) :
    ofDigits 10 cs < Nat.pow 10 cs.length := by
  have reversed : ∀ cs : List Char, (∀ c ∈ cs, isDigit c = true) →
      ofDigits 10 cs.reverse < Nat.pow 10 cs.length := by
    intro cs
    induction cs with
    | nil => intro _; decide
    | cons c cs ih =>
        intro h
        obtain ⟨hc, hcs⟩ := List.forall_mem_cons.mp h
        have hvalue := digitValue?_lt hc
        have hcs := ih hcs
        rw [List.reverse_cons, ofDigits_append_singleton, List.length_cons]
        show _ < Nat.pow 10 cs.length * 10
        omega
  have hreverse := reversed cs.reverse fun c hc => h c (List.mem_reverse.mp hc)
  rwa [List.reverse_reverse, List.length_reverse] at hreverse

/-- Reading the digits of a number in any base up to sixteen gives the number. -/
theorem ofDigits_digitsOf {base : Nat} (hbase : 2 ≤ base) (hsmall : base ≤ 16) (n : Nat) :
    ofDigits base (digitsOf base n) = n := by
  have value : ∀ d < 16, (digitValue? (digitChar d)).getD 0 = d := by decide
  induction n using Nat.strongRecOn with
  | ind n ih =>
      unfold digitsOf
      by_cases h : n < base
      · rw [if_pos (Or.inr h)]
        simp only [ofDigits, List.foldl_cons, List.foldl_nil, value n (by omega)]
        omega
      · have hdiv : n / base < n := Nat.div_lt_self (by omega) (by omega)
        have hmod : n % base < base := Nat.mod_lt n (by omega)
        rw [if_neg (by omega), ofDigits_append_singleton, ih (n / base) hdiv,
          value (n % base) (by omega)]
        exact Nat.div_add_mod' n base

theorem ofDigits_decimal (n : Nat) : ofDigits 10 (decimal n) = n :=
  ofDigits_digitsOf (by decide) (by decide) n

theorem ofDigits_append_zeros (base : Nat) (cs : List Char) : ∀ count : Nat,
    ofDigits base (cs ++ List.replicate count '0') = ofDigits base cs * Nat.pow base count
  | 0 => by
      simp
  | count + 1 => by
      have hzero : (digitValue? '0').getD 0 = 0 := by decide
      have hpow : Nat.pow base (count + 1) = Nat.pow base count * base := rfl
      rw [List.replicate_succ', ← List.append_assoc, ofDigits_append_singleton,
        ofDigits_append_zeros base cs count, hzero, hpow, Nat.add_zero, Nat.mul_assoc]

theorem ofDigits_zeros_append (base : Nat) (cs : List Char) : ∀ count : Nat,
    ofDigits base (List.replicate count '0' ++ cs) = ofDigits base cs
  | 0 => by
      simp
  | count + 1 => by
      have hzero : 0 * base + (digitValue? '0').getD 0 = 0 := by
        have : (digitValue? '0').getD 0 = 0 := by decide
        omega
      have ih := ofDigits_zeros_append base cs count
      unfold ofDigits at ih ⊢
      rw [List.replicate_succ, List.cons_append, List.foldl_cons, hzero, ih]

theorem ofDigits_paddedDecimal (width n : Nat) : ofDigits 10 (paddedDecimal width n) = n := by
  unfold paddedDecimal
  rw [ofDigits_zeros_append, ofDigits_decimal]

theorem decimal_inj {m n : Nat} (h : decimal m = decimal n) : m = n := by
  rw [← ofDigits_decimal m, h, ofDigits_decimal]

/-! ### Fixed numbers of digits -/

/-- A number in more than one digit is its tenth in one digit less, and its last digit. -/
theorem paddedDecimal_succ {width : Nat} (hwidth : 1 ≤ width) (n : Nat) :
    paddedDecimal (width + 1) n = paddedDecimal width (n / 10) ++ [digitChar (n % 10)] := by
  unfold paddedDecimal
  by_cases h : n < 10
  · have hdiv : n / 10 = 0 := by omega
    have hmod : n % 10 = n := by omega
    have hzero : decimal 0 = ['0'] := decimal_of_lt (by decide)
    simp only [decimal_of_lt h, hdiv, hmod, hzero, List.length_singleton, Nat.add_sub_cancel]
    rw [← List.replicate_succ', Nat.sub_add_cancel hwidth]
  · simp only [decimal_of_le (Nat.le_of_not_lt h), List.length_append, List.length_singleton,
      Nat.add_sub_add_right, List.append_assoc]

theorem div_ten_lt {width n : Nat} (h : n < Nat.pow 10 (width + 1)) : n / 10 < Nat.pow 10 width := by
  have h : n < Nat.pow 10 width * 10 := h
  omega

theorem length_paddedDecimal : ∀ {width n : Nat}, n < Nat.pow 10 (width + 1) →
    (paddedDecimal (width + 1) n).length = width + 1
  | 0, n, h => by
      simp [paddedDecimal, decimal_of_lt h]
  | width + 1, n, h => by
      have hdiv := div_ten_lt h
      rw [paddedDecimal_succ (Nat.succ_pos width), List.length_append, length_paddedDecimal hdiv,
        List.length_singleton]

/-- Numbers in a fixed number of digits are compared as texts the way they are as numbers. -/
theorem compare_paddedDecimal : ∀ {width m n : Nat}, m < Nat.pow 10 (width + 1) →
    n < Nat.pow 10 (width + 1) →
    compare (paddedDecimal (width + 1) m) (paddedDecimal (width + 1) n) = compare m n
  | 0, m, n, hm, hn => by
      simp [paddedDecimal, decimal_of_lt hm, decimal_of_lt hn, compare_digitChar hm hn]
  | width + 1, m, n, hm, hn => by
      have hm' := div_ten_lt hm
      have hn' := div_ten_lt hn
      have hlast := compare_digitChar (Nat.mod_lt m (by decide : 0 < 10))
        (Nat.mod_lt n (by decide : 0 < 10))
      rw [paddedDecimal_succ (Nat.succ_pos width), paddedDecimal_succ (Nat.succ_pos width),
        compare_append _ _ ((length_paddedDecimal hm').trans (length_paddedDecimal hn').symm),
        compare_paddedDecimal hm' hn', List.compare_cons_cons, hlast]
      have hplaces : compare (((m / 10 : Nat) : Int) * 10 + (m % 10 : Nat))
          (((n / 10 : Nat) : Int) * 10 + (n % 10 : Nat)) =
          (compare ((m / 10 : Nat) : Int) (n / 10 : Nat)).then
            (compare ((m % 10 : Nat) : Int) (n % 10 : Nat)) :=
        compare_mul_add (by omega) (by omega)
      have hm10 : ((m / 10 : Nat) : Int) * 10 + (m % 10 : Nat) = m := by omega
      have hn10 : ((n / 10 : Nat) : Int) * 10 + (n % 10 : Nat) = n := by omega
      rw [hm10, hn10, compare_natCast, compare_natCast, compare_natCast] at hplaces
      rw [hplaces]
      cases compare (m % 10) (n % 10) <;> rfl

end AccessControl.Text
