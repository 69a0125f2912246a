import AccessControl.Proofs.Number.Rounding
import Mathlib.Algebra.Group.Nat.Defs

/-! # What the nearest magnitude is

`Magnitude.IsNearest` says of a magnitude that no other one is nearer to a quotient, and that its rank
is even if another one is as near.  There is one such magnitude for every quotient, and rounding finds
it (`Magnitude.isNearest_iff`).  Infinity takes part with the value that the next binade would start
with, so that quotients from the middle between it and the largest finite magnitude on are infinite.

Ranks are evenly spaced from one power of two to the next (`Magnitude.At`), and the bits that rounding
drops from a quotient are those below the spacing around it.  What is left is a comparison with the
neighbours on both sides. -/

namespace AccessControl

/-- Whether a number of steps `b` is at most half a step away from `a`, and even if it is exactly half a
step away. -/
structure RoundsTo (a b k : Nat) : Prop where
  half : 2 * ((k * b : Nat) - (a : Int)).natAbs ≤ b
  even : 2 * ((k * b : Nat) - (a : Int)).natAbs = b → k % 2 = 0

theorem roundsTo_roundHalfEven {b : Nat} (hb : 0 < b) (a : Nat) : RoundsTo a b (roundHalfEven a b) := by
  have hsum := Nat.div_add_mod' a b
  have hrest := Nat.mod_lt a hb
  have hnext : (a / b + 1) * b = a / b * b + b := Nat.succ_mul _ _
  unfold roundHalfEven
  dsimp only
  split
  · constructor <;> omega
  split
  · constructor <;> rw [hnext] <;> omega
  · -- a half is kept where the quotient is even, and carried where it is odd
    rcases Nat.mod_two_eq_zero_or_one (a / b) with heven | hodd
    · rw [heven, Nat.add_zero]
      constructor <;> omega
    · rw [hodd]
      constructor <;> rw [hnext] <;> omega

namespace Magnitude

/-! ### Spacing -/

/-- Whether a magnitude is `k` steps of `2 ^ shift` above nothing, by its rank.  The first magnitude of
the next spacing is also reached by the last step of this one. -/
structure At (m : Magnitude) (shift k : Nat) : Prop where
  rank_eq : m.rank = shift * binade + k
  le : k ≤ 2 * binade
  normal : 0 < shift → binade ≤ k

theorem units_of_normal {m : Magnitude} {shift rest : Nat} (hrest : rest < binade)
    (h : m.rank = (shift + 1) * binade + rest) : m.units = (binade + rest) * 2 ^ shift := by
  have hpos := binade_pos
  have hquotient : m.rank / binade = shift + 1 := by
    rw [h, Nat.add_comm, Nat.add_mul_div_right _ _ hpos, Nat.div_eq_of_lt hrest, Nat.zero_add]
  have hremainder : m.rank % binade = rest := by
    rw [h, Nat.add_comm, Nat.add_mul_mod_self_right, Nat.mod_eq_of_lt hrest]
  have hnormal : ¬ m.rank < binade := by
    rw [h, Nat.succ_mul]
    omega
  rw [units, if_neg hnormal, hquotient, hremainder, Nat.pow_eq, Nat.add_sub_cancel]

theorem At.units_eq {m : Magnitude} {shift k : Nat} (h : m.At shift k) : m.units = k * 2 ^ shift := by
  have hrank := h.rank_eq
  by_cases hsmall : k < binade
  · have hshift : shift = 0 :=
      Nat.eq_zero_of_not_pos fun hshift => Nat.not_lt.mpr (h.normal hshift) hsmall
    rw [hshift, Nat.zero_mul, Nat.zero_add] at hrank
    rw [units, if_pos (hrank ▸ hsmall), hrank, hshift, Nat.pow_zero, Nat.mul_one]
  · rcases Nat.lt_or_eq_of_le h.le with hlt | rfl
    · have hnormal : m.rank = (shift + 1) * binade + (k - binade) := by
        rw [hrank, Nat.succ_mul]
        omega
      have hsum : binade + (k - binade) = k := by omega
      rw [units_of_normal (by omega) hnormal, hsum]
    · -- the last step leads to the next spacing
      have hnormal : m.rank = (shift + 1 + 1) * binade + 0 := by
        rw [hrank, Nat.add_mul shift 2, Nat.add_zero]
      rw [units_of_normal binade_pos hnormal, Nat.add_zero, Nat.pow_succ, Nat.mul_comm 2, Nat.mul_assoc,
        Nat.mul_comm 2]

theorem At.units_mul {m : Magnitude} {shift k : Nat} (h : m.At shift k) (b : Nat) :
    m.units * b = k * (b * 2 ^ shift) := by
  rw [h.units_eq, Nat.mul_assoc, Nat.mul_comm b]

theorem exists_at (m : Magnitude) : ∃ shift k, m.At shift k ∧ k < 2 * binade := by
  have hpos := binade_pos
  have hrest := Nat.mod_lt m.rank hpos
  by_cases hsmall : m.rank < binade
  · exact ⟨0, m.rank, ⟨by omega, by omega, by omega⟩, by omega⟩
  · obtain ⟨shift, hshift⟩ : ∃ shift, m.rank / binade = shift + 1 :=
      Nat.exists_eq_succ_of_ne_zero
        (Nat.ne_of_gt ((Nat.one_le_div_iff hpos).mpr (Nat.le_of_not_lt hsmall)))
    have hsum := Nat.div_add_mod' m.rank binade
    rw [hshift, Nat.succ_mul] at hsum
    exact ⟨shift, binade + m.rank % binade, ⟨by omega, by omega, by omega⟩, by omega⟩

/-- Magnitudes of higher rank are larger. -/
theorem units_lt_units {m m' : Magnitude} (h : m.rank < m'.rank) : m.units < m'.units := by
  obtain ⟨shift, k, hat, hk⟩ := m.exists_at
  obtain ⟨shift', k', hat', hk'⟩ := m'.exists_at
  have hstep : ∀ shift, 0 < 2 ^ shift := Nat.two_pow_pos
  rw [hat.rank_eq, hat'.rank_eq] at h
  rw [hat.units_eq, hat'.units_eq]
  rcases Nat.lt_trichotomy shift shift' with hlt | rfl | hlt
  · have hnormal := hat'.normal (Nat.zero_lt_of_lt hlt)
    calc k * 2 ^ shift < 2 * binade * 2 ^ shift := (Nat.mul_lt_mul_right (hstep shift)).mpr hk
      _ = binade * 2 ^ (shift + 1) := by rw [Nat.pow_succ, Nat.mul_comm 2, Nat.mul_assoc, Nat.mul_comm 2]
      _ ≤ binade * 2 ^ shift' := Nat.mul_le_mul_left _ (Nat.pow_le_pow_right (by decide) hlt)
      _ ≤ k' * 2 ^ shift' := Nat.mul_le_mul_right _ hnormal
  · exact (Nat.mul_lt_mul_right (hstep shift)).mpr (by omega)
  · -- a wider spacing has only higher ranks
    have hnormal := hat.normal (Nat.zero_lt_of_lt hlt)
    have hmul : (shift' + 1) * binade ≤ shift * binade := Nat.mul_le_mul_right _ hlt
    rw [Nat.succ_mul] at hmul
    omega

theorem units_le_units {m m' : Magnitude} (h : m.rank ≤ m'.rank) : m.units ≤ m'.units := by
  rcases Nat.lt_or_eq_of_le h with hlt | heq
  · exact Nat.le_of_lt (units_lt_units hlt)
  · exact Nat.le_of_eq (congrArg units (eq_of_rank heq))

/-- What is above a magnitude is at least one step above it. -/
theorem At.above {m m' : Magnitude} {shift k : Nat} (h : m.At shift k) (hlt : m.rank < m'.rank) :
    (k + 1) * 2 ^ shift ≤ m'.units := by
  have hrank := h.rank_eq
  obtain ⟨next, hnext⟩ : ∃ next : Magnitude, next.rank = m.rank + 1 :=
    ⟨⟨m.rank + 1, Nat.le_trans hlt m'.rank_le⟩, rfl⟩
  refine Nat.le_trans ?_ (units_le_units (hnext ▸ hlt : next.rank ≤ m'.rank))
  rcases Nat.lt_or_eq_of_le h.le with hk | rfl
  · have hat : next.At shift (k + 1) :=
      ⟨by omega, hk, fun hshift => Nat.le_succ_of_le (h.normal hshift)⟩
    exact Nat.le_of_eq hat.units_eq.symm
  · -- the spacing doubles here
    have hat : next.At (shift + 1) (binade + 1) := by
      have hpos := binade_pos
      refine ⟨?_, by omega, fun _ => Nat.le_succ _⟩
      rw [Nat.succ_mul]
      omega
    rw [hat.units_eq, Nat.pow_succ, Nat.mul_comm (2 ^ shift), ← Nat.mul_assoc]
    exact Nat.mul_le_mul_right _ (by omega)

/-- What is below a magnitude is at least one step below it, unless the spacing halves there. -/
theorem At.below {m m' : Magnitude} {shift k : Nat} (h : m.At shift k) (hk : shift = 0 ∨ binade < k)
    (hlt : m'.rank < m.rank) : m'.units + 2 ^ shift ≤ k * 2 ^ shift := by
  have hrank := h.rank_eq
  have hle := h.le
  have hpositive : 0 < k := by
    rcases hk with rfl | hk
    · omega
    · exact Nat.zero_lt_of_lt hk
  obtain ⟨last, hlast⟩ : ∃ last : Magnitude, last.rank = m.rank - 1 :=
    ⟨⟨m.rank - 1, Nat.le_trans (Nat.sub_le _ _) m.rank_le⟩, rfl⟩
  have hat : last.At shift (k - 1) := ⟨by omega, by omega, by omega⟩
  calc m'.units + 2 ^ shift ≤ last.units + 2 ^ shift :=
        Nat.add_le_add_right (units_le_units (by omega)) _
    _ = (k - 1 + 1) * 2 ^ shift := by rw [hat.units_eq, Nat.succ_mul]
    _ = k * 2 ^ shift := by rw [Nat.sub_add_cancel hpositive]

/-! ### Nearness -/

/-- How far a magnitude is from the quotient of `a` and `b`, in units and times `b`. -/
def distance (m : Magnitude) (a b : Nat) : Nat :=
  ((m.units * b : Nat) - (a * unitsPerOne : Nat) : Int).natAbs

/-- Whether a magnitude is the nearest one to a quotient, and of two that are equally near the one with
the even rank. -/
structure IsNearest (m : Magnitude) (a b : Nat) : Prop where
  le : ∀ m' : Magnitude, m.distance a b ≤ m'.distance a b
  even : ∀ m' : Magnitude, m' ≠ m → m'.distance a b = m.distance a b → m.rank % 2 = 0

/-- Between two magnitudes of even ranks there is another one, so that not both are nearest. -/
theorem IsNearest.rank_le {m m' : Magnitude} {a b : Nat} (hb : 0 < b) (h : m.IsNearest a b)
    (h' : m'.IsNearest a b) : m'.rank ≤ m.rank := by
  apply Nat.le_of_not_lt
  intro hlt
  have hdistance : m'.distance a b = m.distance a b := Nat.le_antisymm (h'.le m) (h.le m')
  have hne : m' ≠ m := by
    rintro rfl
    exact Nat.lt_irrefl _ hlt
  have heven := h.even m' hne hdistance
  have heven' := h'.even m (Ne.symm hne) hdistance.symm
  obtain ⟨middle, hmiddle⟩ : ∃ middle : Magnitude, middle.rank = m.rank + 1 :=
    ⟨⟨m.rank + 1, Nat.le_trans hlt m'.rank_le⟩, rfl⟩
  have hlow : m.units * b < middle.units * b :=
    (Nat.mul_lt_mul_right hb).mpr (units_lt_units (by omega))
  have hhigh : middle.units * b < m'.units * b :=
    (Nat.mul_lt_mul_right hb).mpr (units_lt_units (by omega))
  have hle := h.le middle
  unfold distance at hdistance hle
  generalize a * unitsPerOne = v at hdistance hle
  omega

theorem IsNearest.unique {m m' : Magnitude} {a b : Nat} (hb : 0 < b) (h : m.IsNearest a b)
    (h' : m'.IsNearest a b) : m = m' :=
  eq_of_rank (Nat.le_antisymm (h'.rank_le hb h) (h.rank_le hb h'))

section step
variable {m : Magnitude} {shift k b v : Nat} (h : m.At shift k) (hround : RoundsTo v (b * 2 ^ shift) k)
  (hnormal : 0 < shift → binade * (b * 2 ^ shift) ≤ v) (hb : 0 < b)
include h hround hnormal hb

/-- The neighbours of a magnitude are a step away, so that they are not nearer to what is at most half a
step away from it.  Where the spacing halves, `hnormal` puts that on the other side. -/
theorem At.farther {m' : Magnitude} (hne : m'.rank ≠ m.rank) :
    ((m.units * b : Nat) - (v : Int)).natAbs ≤ ((m'.units * b : Nat) - (v : Int)).natAbs ∧
      (((m'.units * b : Nat) - (v : Int)).natAbs = ((m.units * b : Nat) - (v : Int)).natAbs →
        k % 2 = 0) := by
  obtain ⟨hhalf, heven⟩ := hround
  rw [h.units_mul]
  rcases Nat.lt_or_gt_of_ne hne with hlt | hlt
  · by_cases hk : shift = 0 ∨ binade < k
    · have hstep := Nat.mul_le_mul_right b (h.below hk hlt)
      rw [Nat.add_mul, Nat.mul_assoc k, Nat.mul_comm (2 ^ shift)] at hstep
      omega
    · have hbelow : m'.units * b < m.units * b := (Nat.mul_lt_mul_right hb).mpr (units_lt_units hlt)
      have hfirst : binade = k := by
        have hle := h.normal (by omega)
        omega
      have hle := hnormal (by omega)
      rw [hfirst] at hle
      rw [h.units_mul] at hbelow
      omega
  · have hstep := Nat.mul_le_mul_right b (h.above hlt)
    rw [Nat.mul_assoc, Nat.mul_comm (2 ^ shift), Nat.succ_mul] at hstep
    omega

theorem At.isNearest {a : Nat} (hv : a * unitsPerOne = v) : m.IsNearest a b := by
  have hparity : m.rank % 2 = k % 2 := by
    have hbinade : binade = 2 * (binade / 2) := by decide +kernel
    rw [h.rank_eq, hbinade, Nat.mul_left_comm, Nat.mul_add_mod]
  constructor
  · intro m'
    by_cases hsame : m'.rank = m.rank
    · exact Nat.le_of_eq (congrArg (distance · a b) (eq_of_rank hsame.symm))
    · unfold distance
      rw [hv]
      exact (h.farther hround hnormal hb hsame).1
  · intro m' hne heq
    unfold distance at heq
    rw [hv] at heq
    rw [hparity]
    exact (h.farther hround hnormal hb fun hsame => hne (eq_of_rank hsame)).2 heq

end step

/-! ### Rounding -/

/-- A quotient with bits to drop is at least the first magnitude of the spacing around it. -/
theorem le_of_droppedBits {v b : Nat} (hb : 0 < b) {shift : Nat} (hshift : shift ≤ droppedBits v b)
    (h : 0 < shift) : binade * (b * 2 ^ shift) ≤ v := by
  have hbinade : binade = 2 ^ 52 := rfl
  have hlog : 52 + shift ≤ Nat.log2 (v / b) := by
    unfold droppedBits at hshift
    omega
  have hne : v / b ≠ 0 := by
    intro hzero
    rw [hzero, Nat.log2_zero] at hlog
    omega
  have hlow : 2 ^ (52 + shift) ≤ v / b := (Nat.le_log2 hne).mp hlog
  rw [Nat.mul_left_comm, Nat.mul_comm, hbinade, ← Nat.pow_add]
  exact (Nat.le_div_iff_mul_le hb).mp hlow

/-- Where a quotient is rounded to, if it is not cut off at infinity. -/
theorem nearest_at {a b v : Nat} (hv : a * unitsPerOne = v) (h : fullRank v b ≤ infiniteRank) :
    (nearest a b).At (droppedBits v b) (roundHalfEven v (b * 2 ^ droppedBits v b)) := by
  have hrank := nearest_rank a b
  rw [hv, Nat.min_eq_left h, fullRank, Nat.pow_eq] at hrank
  exact ⟨hrank, roundHalfEven_dropped_le v b, le_roundHalfEven_dropped⟩

/-- What would be past infinity is nearest to infinity. -/
theorem isNearest_of_lt {a b v : Nat} (hv : a * unitsPerOne = v) (hb : 0 < b)
    (h : infiniteRank < fullRank v b) : (nearest a b).IsNearest a b := by
  have hrank : (nearest a b).rank = infiniteRank := by
    rw [nearest_rank, hv, Nat.min_eq_right (Nat.le_of_lt h)]
  -- the exponent is named, so that nothing tries to work out the power
  obtain ⟨shift, hlast⟩ : ∃ shift, shift = 2046 := ⟨_, rfl⟩
  have hat : (nearest a b).At shift binade := by
    refine ⟨?_, Nat.le_mul_of_pos_left _ (by decide), fun _ => Nat.le_refl _⟩
    rw [hrank, hlast]
    exact Nat.succ_mul 2046 binade
  have hshift : shift ≤ droppedBits v b := by
    apply Nat.le_of_not_lt
    intro hlt
    have hle := roundHalfEven_dropped_le v b
    have hmul : droppedBits v b * binade ≤ 2045 * binade := Nat.mul_le_mul_right _ (by omega)
    unfold fullRank infiniteRank at h
    omega
  have hle := le_of_droppedBits hb hshift (by omega)
  rw [← hat.units_mul] at hle
  constructor
  · intro m
    have hm : m.units * b ≤ (nearest a b).units * b :=
      Nat.mul_le_mul_right b (units_le_units (hrank ▸ m.rank_le))
    unfold distance
    rw [hv]
    omega
  · intro m _ _
    rw [hrank]
    decide +kernel

theorem isNearest_nearest {b : Nat} (hb : 0 < b) (a : Nat) : (nearest a b).IsNearest a b := by
  obtain ⟨v, hv⟩ : ∃ v, a * unitsPerOne = v := ⟨_, rfl⟩
  rcases Nat.lt_or_ge infiniteRank (fullRank v b) with hlt | hle
  · exact isNearest_of_lt hv hb hlt
  · have hround := roundsTo_roundHalfEven (Nat.mul_pos hb (Nat.two_pow_pos (droppedBits v b))) v
    exact (nearest_at hv hle).isNearest hround (le_of_droppedBits hb (Nat.le_refl _)) hb hv

/-- Rounding finds the nearest magnitude. -/
theorem isNearest_iff {m : Magnitude} {a b : Nat} (hb : 0 < b) : m.IsNearest a b ↔ m = nearest a b := by
  constructor
  · intro h
    exact h.unique hb (isNearest_nearest hb a)
  · rintro rfl
    exact isNearest_nearest hb a

end Magnitude

/-! ### Decimals -/

namespace Decimal

theorem denominator_pos (d : Decimal) : 0 < d.denominator := Nat.pow_pos (by decide)

theorem digits_lt (d : Decimal) : d.digits < 10 ^ (Text.decimal d.digits).length :=
  Nat.lt_of_not_le fun hle => Nat.lt_irrefl _ (Text.lt_length_decimal hle)

theorem le_digits {d : Decimal} (h : d.digits ≠ 0) :
    10 ^ ((Text.decimal d.digits).length - 1) ≤ d.digits := by
  cases hcount : (Text.decimal d.digits).length - 1 with
  | zero => exact Nat.pos_of_ne_zero h
  | succ count =>
      apply Nat.le_of_not_lt
      intro hlt
      have hlength := Text.length_decimal_le hlt
      omega

section extreme
variable {a b limit : Nat} (hlimit : limit = 400) (hb : 0 < b)
include hlimit hb

theorem nearest_eq_zero (h : a * 10 ^ limit ≤ b) : Magnitude.nearest a b = .zero := by
  have hzero : (Magnitude.nearest 1 (10 ^ limit)).rank = 0 := by
    subst hlimit
    decide +kernel
  rw [← Nat.one_mul b] at h
  have hmono := Magnitude.nearest_mono hb (Nat.pow_pos (by decide)) h
  exact Magnitude.eq_of_rank (Nat.eq_zero_of_le_zero (hzero ▸ hmono))

theorem nearest_eq_infinite (h : b * 10 ^ limit ≤ a) : Magnitude.nearest a b = .infinite := by
  have hinfinite : infiniteRank ≤ (Magnitude.nearest (10 ^ limit) 1).rank := by
    subst hlimit
    decide +kernel
  rw [Nat.mul_comm, ← Nat.mul_one a] at h
  have hmono := Magnitude.nearest_mono Nat.one_pos hb h
  exact Magnitude.eq_of_rank (Nat.le_antisymm (Magnitude.rank_le _) (Nat.le_trans hinfinite hmono))

end extreme

/-- The magnitude of a decimal is the nearest one to its value, also where its scale alone decides. -/
theorem magnitude_eq_nearest (d : Decimal) : d.magnitude = .nearest d.numerator d.denominator := by
  -- the exponent is named, so that nothing tries to work out the power
  obtain ⟨limit, hlimit⟩ : ∃ limit, limit = 400 := ⟨_, rfl⟩
  have hmono : ∀ {i j : Nat}, i ≤ j → 10 ^ i ≤ 10 ^ j := fun h => Nat.pow_le_pow_right (by decide) h
  have hden := d.denominator_pos
  unfold magnitude
  split
  · rename_i hzero
    have hnumerator : d.numerator = 0 := by rw [numerator, hzero, Nat.zero_mul]
    rw [hnumerator]
    refine (nearest_eq_zero hlimit hden ?_).symm
    rw [Nat.zero_mul]
    exact Nat.zero_le _
  rename_i hne
  split
  · rename_i hsmall
    unfold scale at hsmall
    have hexponent : d.exponent.toNat = 0 := by omega
    have hplaces : (Text.decimal d.digits).length + limit ≤ (-d.exponent).toNat := by omega
    refine (nearest_eq_zero hlimit hden ?_).symm
    rw [numerator, denominator, hexponent]
    calc d.digits * 10 ^ 0 * 10 ^ limit
        ≤ 10 ^ (Text.decimal d.digits).length * 10 ^ limit := by
          rw [Nat.pow_zero, Nat.mul_one]
          exact Nat.mul_le_mul_right _ (Nat.le_of_lt d.digits_lt)
      _ ≤ 10 ^ (-d.exponent).toNat := by
          rw [← Nat.pow_add]
          exact hmono hplaces
  split
  · rename_i hlarge
    unfold scale at hlarge
    have hplaces : (-d.exponent).toNat + limit ≤
        (Text.decimal d.digits).length - 1 + d.exponent.toNat := by omega
    refine (nearest_eq_infinite hlimit hden ?_).symm
    rw [numerator, denominator]
    calc 10 ^ (-d.exponent).toNat * 10 ^ limit
        ≤ 10 ^ ((Text.decimal d.digits).length - 1) * 10 ^ d.exponent.toNat := by
          rw [← Nat.pow_add, ← Nat.pow_add]
          exact hmono hplaces
      _ ≤ d.digits * 10 ^ d.exponent.toNat := Nat.mul_le_mul_right _ (le_digits hne)
  · rfl

/-- Digits with so many places denote the magnitude that is nearest to their value. -/
theorem magnitude_of_isNearest {m : Magnitude} {digits : Nat} (places : Nat)
    (h : m.IsNearest digits (10 ^ places)) : magnitude ⟨digits, -(places : Int)⟩ = m := by
  have hnumerator : numerator ⟨digits, -(places : Int)⟩ = digits := by
    have hexponent : (-(places : Int)).toNat = 0 := by omega
    rw [numerator, hexponent]
    exact Nat.mul_one digits
  have hdenominator : denominator ⟨digits, -(places : Int)⟩ = 10 ^ places := by
    have hexponent : (-(-(places : Int))).toNat = places := by omega
    rw [denominator, hexponent]
    rfl
  rw [magnitude_eq_nearest, hnumerator, hdenominator]
  exact ((Magnitude.isNearest_iff (Nat.pow_pos (by decide))).mp h).symm

end Decimal
end AccessControl
