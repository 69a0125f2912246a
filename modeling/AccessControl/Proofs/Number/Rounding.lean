import AccessControl.Proofs.Number
import AccessControl.Proofs.Value

/-! # Rounding keeps order

A larger quotient never has a smaller nearest magnitude (`Magnitude.nearest_mono`).  Integers of no
more than 53 bits are magnitudes themselves (`Magnitude.units_nearest`), so that no other integer is
rounded to one of them (`Number.eq_of_equal_ofInt`).  From `exactLimit` on different
integers can be rounded to the same number. -/

namespace AccessControl

/-! ### Order -/

theorem div_le_roundHalfEven (a b : Nat) : a / b ≤ roundHalfEven a b := by
  simp only [roundHalfEven]
  split
  · exact Nat.le_refl _
  split
  · exact Nat.le_succ _
  · exact Nat.le_add_right _ _

theorem roundHalfEven_le_succ (a b : Nat) : roundHalfEven a b ≤ a / b + 1 := by
  simp only [roundHalfEven]
  split
  · exact Nat.le_succ _
  split
  · exact Nat.le_refl _
  · omega

/-- A larger numerator is not rounded to less. -/
theorem roundHalfEven_mono {a a' : Nat} (h : a ≤ a') (b : Nat) :
    roundHalfEven a b ≤ roundHalfEven a' b := by
  have hle : a / b ≤ a' / b := Nat.div_le_div_right h
  rcases Nat.lt_or_eq_of_le hle with hlt | heq
  · exact Nat.le_trans (roundHalfEven_le_succ a b) (Nat.le_trans hlt (div_le_roundHalfEven a' b))
  · -- between the same neighbours the larger remainder decides
    have hrest : a % b ≤ a' % b := by
      have ha := Nat.div_add_mod a b
      have ha' := Nat.div_add_mod a' b
      rw [heq] at ha
      omega
    simp only [roundHalfEven, heq]
    repeat' split
    all_goals omega

namespace Magnitude

/-- How many bits of a quotient are rounded away: those past the 53rd. -/
def droppedBits (a b : Nat) : Nat := Nat.log2 (a / b) - 52

/-- The rank of a quotient of units, where ranks past that of infinity are not cut off. -/
def fullRank (a b : Nat) : Nat :=
  droppedBits a b * binade + roundHalfEven a (b * Nat.pow 2 (droppedBits a b))

theorem nearest_rank (a b : Nat) :
    (nearest a b).rank = min (fullRank (a * unitsPerOne) b) infiniteRank := rfl

/-- No more than 53 bits remain, unless rounding carries. -/
theorem roundHalfEven_dropped_le (a b : Nat) :
    roundHalfEven a (b * Nat.pow 2 (droppedBits a b)) ≤ 2 * binade := by
  rw [Nat.pow_eq]
  have hbinade : 2 * binade = 2 ^ 53 := rfl
  have hfits : a / b < 2 ^ 53 * 2 ^ droppedBits a b := by
    rw [← Nat.pow_add]
    refine Nat.lt_of_lt_of_le Nat.lt_log2_self (Nat.pow_le_pow_right (by decide) ?_)
    unfold droppedBits
    omega
  have hquotient : a / (b * 2 ^ droppedBits a b) < 2 ^ 53 := by
    rw [← Nat.div_div_eq_div_mul]
    exact (Nat.div_lt_iff_lt_mul (Nat.two_pow_pos _)).mpr hfits
  rw [hbinade]
  exact Nat.le_trans (roundHalfEven_le_succ _ _) hquotient

/-- Where bits are dropped, 53 remain. -/
theorem le_roundHalfEven_dropped {a b : Nat} (h : 0 < droppedBits a b) :
    binade ≤ roundHalfEven a (b * Nat.pow 2 (droppedBits a b)) := by
  rw [Nat.pow_eq]
  have hbinade : binade = 2 ^ 52 := rfl
  have hlog : Nat.log2 (a / b) = 52 + droppedBits a b := by
    unfold droppedBits at h ⊢
    omega
  have hne : a / b ≠ 0 := by
    intro hzero
    rw [hzero, Nat.log2_zero] at hlog
    omega
  have hlow : 2 ^ 52 * 2 ^ droppedBits a b ≤ a / b := by
    rw [← Nat.pow_add, ← hlog]
    exact Nat.log2_self_le hne
  refine Nat.le_trans ?_ (div_le_roundHalfEven _ _)
  rw [← Nat.div_div_eq_div_mul, hbinade]
  exact (Nat.le_div_iff_mul_le (Nat.two_pow_pos _)).mpr hlow

theorem log2_mono {m n : Nat} (h : m ≤ n) : Nat.log2 m ≤ Nat.log2 n := by
  by_cases hzero : m = 0
  · rw [hzero, Nat.log2_zero]
    exact Nat.zero_le _
  · have hne : n ≠ 0 := by omega
    exact (Nat.le_log2 hne).mpr (Nat.le_trans (Nat.log2_self_le hzero) h)

theorem fullRank_mono {a a' : Nat} (h : a ≤ a') (b : Nat) : fullRank a b ≤ fullRank a' b := by
  have hdropped : droppedBits a b ≤ droppedBits a' b :=
    Nat.sub_le_sub_right (log2_mono (Nat.div_le_div_right h)) 52
  rcases Nat.lt_or_eq_of_le hdropped with hlt | heq
  · -- a step to the next binade is worth more than what rounding can add
    have hstep : (droppedBits a b + 1) * binade ≤ droppedBits a' b * binade :=
      Nat.mul_le_mul_right binade hlt
    have hupper := roundHalfEven_dropped_le a b
    have hlower := le_roundHalfEven_dropped (Nat.zero_lt_of_lt hlt)
    rw [Nat.add_mul] at hstep
    unfold fullRank
    omega
  · unfold fullRank
    rw [heq]
    exact Nat.add_le_add_left (roundHalfEven_mono h _) _

/-- A larger quotient has no smaller nearest magnitude. -/
theorem nearest_mono {a b a' b' : Nat} (hb : 0 < b) (hb' : 0 < b') (h : a * b' ≤ a' * b) :
    (nearest a b).rank ≤ (nearest a' b').rank := by
  rw [← nearest_mul_left hb' a b, ← nearest_mul_left hb a' b', nearest_rank, nearest_rank,
    Nat.mul_comm b' b]
  have hscaled : b' * a * unitsPerOne ≤ b * a' * unitsPerOne :=
    Nat.mul_le_mul_right _ (by rwa [Nat.mul_comm b', Nat.mul_comm b])
  have hrank := fullRank_mono hscaled (b * b')
  omega

end Magnitude

/-! ### Exact integers -/

/-- The least integer of more than 53 bits, below which every integer is a number by itself. -/
def exactLimit : Nat := Nat.pow 2 53

namespace Magnitude

/-- Numbers of exactly 53 bits, followed by zeros, are the units of a magnitude. -/
theorem exists_units_normal {shift k : Nat} (hlow : binade ≤ k) (hhigh : k < 2 * binade)
    (hshift : shift < 2046) : ∃ m : Magnitude, m.units = k * Nat.pow 2 shift := by
  have hbinade := binade_pos
  have hrest : k - binade < binade := by omega
  have hsum : binade + (k - binade) = k := by omega
  have hle : shift * binade ≤ 2045 * binade := Nat.mul_le_mul_right _ (by omega)
  have hstep : (shift + 1) * binade = shift * binade + binade := Nat.succ_mul _ _
  have hrank : (shift + 1) * binade + (k - binade) ≤ infiniteRank := by
    unfold infiniteRank
    omega
  have hquotient : ((shift + 1) * binade + (k - binade)) / binade = shift + 1 := by
    rw [Nat.add_comm, Nat.add_mul_div_right _ _ hbinade, Nat.div_eq_of_lt hrest, Nat.zero_add]
  have hremainder : ((shift + 1) * binade + (k - binade)) % binade = k - binade := by
    rw [Nat.add_comm, Nat.add_mul_mod_self_right, Nat.mod_eq_of_lt hrest]
  refine ⟨⟨(shift + 1) * binade + (k - binade), hrank⟩, ?_⟩
  rw [units, if_neg (by dsimp only; omega)]
  dsimp only
  rw [hquotient, hremainder, hsum, Nat.add_sub_cancel]

/-- Numbers of no more than 53 bits, followed by zeros, are the units of a magnitude. -/
theorem exists_units_eq : ∀ (shift k : Nat), k < 2 * binade → shift < 2046 →
    ∃ m : Magnitude, m.units = k * Nat.pow 2 shift
  | 0, k, hk, hshift => by
      by_cases h : binade ≤ k
      · exact exists_units_normal h hk hshift
      · have hrank : k ≤ infiniteRank := by
          unfold infiniteRank
          omega
        refine ⟨⟨k, hrank⟩, ?_⟩
        rw [units, if_pos (Nat.lt_of_not_le h)]
        exact (Nat.mul_one k).symm
  | shift + 1, k, hk, hshift => by
      by_cases h : binade ≤ k
      · exact exists_units_normal h hk hshift
      · -- fewer bits are made up for by one of the zeros
        obtain ⟨m, hm⟩ := exists_units_eq shift (2 * k) (by omega) (by omega)
        refine ⟨m, ?_⟩
        rw [hm, Nat.pow_eq, Nat.pow_eq, Nat.pow_succ, Nat.mul_comm 2, Nat.mul_assoc, Nat.mul_comm 2]

/-- Integers of no more than 53 bits, and the next one, are magnitudes. -/
theorem units_nearest {n : Nat} (h : n ≤ exactLimit) : (nearest n 1).units = n * unitsPerOne := by
  -- the exponent is named, so that nothing tries to work out the power
  obtain ⟨shift, hshift, hone⟩ : ∃ shift, shift < 2045 ∧ unitsPerOne = Nat.pow 2 shift :=
    ⟨1074, by decide, by decide +kernel⟩
  obtain ⟨m, hm⟩ : ∃ m : Magnitude, m.units = n * unitsPerOne := by
    rw [hone]
    rcases Nat.lt_or_eq_of_le h with hlt | rfl
    · exact exists_units_eq shift n hlt (by omega)
    · have hcarry : exactLimit * Nat.pow 2 shift = binade * Nat.pow 2 (shift + 1) := by
        have hlimit : exactLimit = 2 * binade := rfl
        rw [hlimit, Nat.pow_eq, Nat.pow_eq, Nat.pow_succ, Nat.mul_comm 2, Nat.mul_assoc, Nat.mul_comm 2]
      rw [hcarry]
      exact exists_units_eq (shift + 1) binade (by decide) (by omega)
  have hexact : nearest n 1 = m := by
    rw [← nearest_mul_left unitsPerOne_pos, Nat.mul_one, Nat.mul_comm, ← hm, nearest_units]
  rw [hexact, hm]

theorem eq_of_rank {m m' : Magnitude} (h : m.rank = m'.rank) : m = m' := by
  cases m
  cases m'
  cases h
  rfl

theorem rank_nearest_zero : (nearest 0 1).rank = 0 := by decide +kernel

/-- No other integer is rounded to one of fewer than 54 bits. -/
theorem nearest_inj_of_lt {m n : Nat} (h : n < exactLimit) (heq : nearest m 1 = nearest n 1) :
    m = n := by
  have hcancel : ∀ {k : Nat}, k ≤ exactLimit → nearest k 1 = nearest n 1 → k = n := by
    intro k hk hkn
    have hunits := units_nearest hk
    rw [hkn, units_nearest (Nat.le_of_lt h)] at hunits
    exact Nat.eq_of_mul_eq_mul_right unitsPerOne_pos hunits.symm
  by_cases hm : m ≤ exactLimit
  · exact hcancel hm heq
  · -- what is above both `n` and the next integer would be rounded to the same as that one
    have hlow : (nearest n 1).rank ≤ (nearest (n + 1) 1).rank :=
      nearest_mono Nat.one_pos Nat.one_pos (by omega)
    have hhigh : (nearest (n + 1) 1).rank ≤ (nearest m 1).rank :=
      nearest_mono Nat.one_pos Nat.one_pos (by omega)
    rw [heq] at hhigh
    have hnext : nearest (n + 1) 1 = nearest n 1 := eq_of_rank (by omega)
    have := hcancel h hnext
    omega

end Magnitude

namespace Number

/-- Where an integer is on the line of numbers. -/
theorem exists_position_ofInt (n : Int) : ∃ p, (ofInt n).position? = some p ∧
    p.natAbs = (Magnitude.nearest n.natAbs 1).rank ∧ (0 ≤ n → 0 ≤ p) ∧ (n < 0 → p ≤ 0) := by
  by_cases h : n < 0
  · refine ⟨-((Magnitude.nearest n.natAbs 1).rank : Int), ?_, by omega, by omega, by omega⟩
    simp only [ofInt, ofRatio, h, decide_true, position?]
  · refine ⟨((Magnitude.nearest n.natAbs 1).rank : Int), ?_, by omega, by omega, by omega⟩
    simp only [ofInt, ofRatio, h, decide_false, position?]

theorem equal_ofInt_self (n : Int) : (ofInt n).equal (ofInt n) = true := by
  obtain ⟨p, hp, -⟩ := exists_position_ofInt n
  exact equal_iff.mpr ⟨p, hp, hp⟩

/-- No other integer is the same number as one of fewer than 54 bits. -/
theorem eq_of_equal_ofInt {i n : Int} (h : n.natAbs < exactLimit)
    (heq : (ofInt i).equal (ofInt n) = true) : i = n := by
  obtain ⟨p, hi, hn⟩ := equal_iff.mp heq
  obtain ⟨q, hq, hirank, hipos, hineg⟩ := exists_position_ofInt i
  obtain ⟨q', hq', hnrank, hnpos, hnneg⟩ := exists_position_ofInt n
  cases hi.symm.trans hq
  cases hn.symm.trans hq'
  have habs : i.natAbs = n.natAbs :=
    Magnitude.nearest_inj_of_lt h (Magnitude.eq_of_rank (hirank.symm.trans hnrank))
  by_cases hzero : n.natAbs = 0
  · omega
  · -- numbers of both signs would be at zero, where only zero is
    have hp : p ≠ 0 := by
      rintro rfl
      have hnone : Magnitude.nearest n.natAbs 1 = Magnitude.nearest 0 1 :=
        Magnitude.eq_of_rank (hnrank.symm.trans Magnitude.rank_nearest_zero.symm)
      exact hzero (Magnitude.nearest_inj_of_lt (by decide) hnone)
    omega

end Number
end AccessControl
