import AccessControl.Proofs.Number.Rounding

/-! # Numbers of few digits are finite

A number in positional notation is finite if no more than 308 digits follow one another in it
(`Number.exists_of_read?`), since `10 ^ 308` is finite and rounding keeps order. -/

namespace AccessControl

/-- What is below ten to the power of 308 is finite. -/
theorem Decimal.isFinite_magnitude {digits whole places : Nat} (h : digits < Nat.pow 10 (whole + places))
    (hwhole : whole ≤ 308) : (magnitude ⟨digits, -(places : Int)⟩).isFinite = true := by
  unfold magnitude
  split
  · rfl
  rename_i hzero
  dsimp only at hzero
  have hlength : (Text.decimal digits).length ≤ whole + places := by
    cases hcount : whole + places with
    | zero =>
        have hone : Nat.pow 10 0 = 1 := rfl
        rw [hcount, hone] at h
        omega
    | succ count =>
        rw [hcount] at h
        exact Text.length_decimal_le h
  have hscale : scale ⟨digits, -(places : Int)⟩ ≤ 308 := by
    unfold scale
    dsimp only
    omega
  split
  · rfl
  rw [if_neg (by omega)]
  have hnumerator : numerator ⟨digits, -(places : Int)⟩ = digits := by
    have hexponent : (-(places : Int)).toNat = 0 := by omega
    rw [numerator, hexponent]
    exact Nat.mul_one digits
  have hdenominator : denominator ⟨digits, -(places : Int)⟩ = 10 ^ places := by
    have hexponent : (-(-(places : Int))).toNat = places := by omega
    rw [denominator, hexponent]
    rfl
  -- the exponent is named, so that nothing tries to work out the power
  obtain ⟨limit, hlimit⟩ : ∃ limit, limit = 308 := ⟨_, rfl⟩
  have hvalue : digits * 1 ≤ 10 ^ limit * 10 ^ places := by
    rw [Nat.mul_one, ← Nat.pow_add]
    exact Nat.le_trans (Nat.le_of_lt h) (Nat.pow_le_pow_right (by decide) (by omega))
  have hmono := Magnitude.nearest_mono (Nat.pow_pos (by decide)) Nat.one_pos hvalue
  have hfinite : (Magnitude.nearest (10 ^ limit) 1).rank < infiniteRank := by
    subst hlimit
    decide +kernel
  rw [hnumerator, hdenominator]
  exact decide_eq_true (Nat.lt_of_le_of_lt hmono hfinite)

/-- An integer is infinite from ten to the power of 309 on. -/
theorem Decimal.magnitude_infinite {count digits : Nat} (hcount : 309 ≤ count)
    (h : Nat.pow 10 count ≤ digits) : magnitude ⟨digits, 0⟩ = .infinite := by
  obtain ⟨limit, hlimit⟩ : ∃ limit, limit = 309 := ⟨_, rfl⟩
  have hdigits : 10 ^ limit ≤ digits :=
    Nat.le_trans (Nat.pow_le_pow_right (by decide) (by omega)) h
  have hpositive : 0 < 10 ^ limit := Nat.pow_pos (by decide)
  have hzero : digits ≠ 0 := by omega
  have hscale : limit < scale ⟨digits, 0⟩ := by
    have hlength := Text.lt_length_decimal hdigits
    unfold scale
    dsimp only
    omega
  unfold magnitude
  dsimp only
  rw [if_neg hzero, if_neg (by omega)]
  split
  · rfl
  have hnumerator : numerator ⟨digits, 0⟩ = digits := Nat.mul_one digits
  have hdenominator : denominator ⟨digits, 0⟩ = 1 := rfl
  have hinfinite : infiniteRank ≤ (Magnitude.nearest (10 ^ limit) 1).rank := by
    subst hlimit
    decide +kernel
  have hmono := Magnitude.nearest_mono Nat.one_pos Nat.one_pos (Nat.mul_le_mul_right 1 hdigits)
  rw [hnumerator, hdenominator]
  exact Magnitude.eq_of_rank (Nat.le_antisymm (Magnitude.rank_le _) (Nat.le_trans hinfinite hmono))

/-- Whether no more than so many digits follow one another in a text. -/
def Text.RunsWithin (limit : Nat) (cs : List Char) : Prop :=
  ∀ digits, digits <:+: cs → (∀ d ∈ digits, isDigit d = true) → digits.length ≤ limit

theorem Text.RunsWithin.mono {limit : Nat} {cs ds : List Char} (h : RunsWithin limit cs)
    (hds : ds <:+: cs) : RunsWithin limit ds :=
  fun digits hdigits => h digits (hdigits.trans hds)

namespace Number

/-- Digits and points that are read as a decimal are its digits, with as many places as stand after
the point. -/
theorem exists_places_of_readDecimal? {cs : List Char} (hcs : ∀ c ∈ cs, Text.isDigit c = true ∨ c = '.')
    {d : Decimal} (h : readDecimal? cs = some d) :
    ∃ places : List Char, (∀ c ∈ places, Text.isDigit c = true) ∧
      d = ⟨Text.ofDigits 10 (cs.takeWhile Text.isDigit ++ places), -(places.length : Int)⟩ := by
  have hplaces : ∀ r : List Char, ∀ c ∈ r.takeWhile Text.isDigit, Text.isDigit c = true :=
    fun r => List.all_eq_true.mp List.all_takeWhile
  have hmark : ∀ {c : Char} {rest : List Char}, c :: rest <:+ cs → ¬ (c = 'e' ∨ c = 'E') := by
    rintro c rest hsuffix (rfl | rfl) <;>
      simpa [Text.isDigit] using hcs _ (hsuffix.subset List.mem_cons_self)
  have hdrop : cs.dropWhile Text.isDigit <:+ cs := List.dropWhile_suffix _
  unfold readDecimal? at h
  dsimp only at h
  -- with or without a point, what is left after the places would start an exponent
  split at h <;> split at h
  · cases h
  · rename_i r hr _
    rw [hr] at hdrop
    have hrest : r.dropWhile Text.isDigit <:+ cs :=
      (List.dropWhile_suffix _).trans ((List.suffix_cons '.' r).trans hdrop)
    dsimp only at h
    split at h
    · exact ⟨_, hplaces r, (Option.some.inj h).symm⟩
    · rename_i hleft
      rw [if_neg (hmark (hleft ▸ hrest))] at h
      cases h
  · cases h
  · dsimp only at h
    split at h
    · exact ⟨[], List.forall_mem_nil _, (Option.some.inj h).symm⟩
    · rename_i hleft
      rw [if_neg (hmark (hleft ▸ hdrop))] at h
      cases h

theorem exists_of_readUnsigned? {c : Char} {cs : List Char} (hdigit : Text.isDigit c = true)
    (hcs : ∀ d ∈ cs, Text.isDigit d = true ∨ d = '.') {x : Number}
    (h : readUnsigned? (c :: cs) = some x) :
    ∃ m, x = .signed false m ∧ (Text.RunsWithin 308 (c :: cs) → m.isFinite = true) := by
  rw [readUnsigned?_of_digit hdigit, Option.map_eq_some_iff] at h
  obtain ⟨d, hread, rfl⟩ := h
  obtain ⟨places, hplaces, rfl⟩ :=
    exists_places_of_readDecimal? (List.forall_mem_cons.mpr ⟨.inl hdigit, hcs⟩) hread
  refine ⟨_, rfl, fun hruns => ?_⟩
  have hwhole : ∀ d ∈ (c :: cs).takeWhile Text.isDigit, Text.isDigit d = true :=
    List.all_eq_true.mp List.all_takeWhile
  have hlength := hruns _ (List.takeWhile_prefix _).isInfix hwhole
  have hdigits := Text.ofDigits_lt (List.forall_mem_append.mpr ⟨hwhole, hplaces⟩)
  rw [List.length_append] at hdigits
  exact Decimal.isFinite_magnitude hdigits hlength

/-- What starts like a number of a condition and goes on with digits and points is read as a number
with a sign, which is finite if no more than 308 digits follow one another. -/
theorem exists_of_read? {c : Char} {cs : List Char} (hcs : ∀ d ∈ cs, Text.isDigit d = true ∨ d = '.')
    (hstart : Text.isDigit c = true ∨ c = '-' ∧ ∃ d ∈ cs.head?, Text.isDigit d = true) {x : Number}
    (h : read? (c :: cs) = some x) : ∃ negative m, x = .signed negative m ∧
      (Text.RunsWithin 308 (c :: cs) → m.isFinite = true) := by
  rcases hstart with hdigit | ⟨rfl, first, hfirst, hdigit⟩
  · have hunsigned : read? (c :: cs) = readUnsigned? (c :: cs) := by
      unfold read?
      split
      · rename_i heq
        cases heq
        cases hdigit
      · rename_i heq
        cases heq
        cases hdigit
      · rfl
    rw [hunsigned] at h
    obtain ⟨m, hx, hm⟩ := exists_of_readUnsigned? hdigit hcs h
    exact ⟨false, m, hx, hm⟩
  · obtain ⟨others, rfl⟩ := List.head?_eq_some_iff.mp hfirst
    obtain ⟨y, hy, rfl⟩ := Option.map_eq_some_iff.mp h
    obtain ⟨m, rfl, hm⟩ := exists_of_readUnsigned? hdigit (List.forall_mem_cons.mp hcs).2 hy
    exact ⟨true, m, rfl, fun hruns => hm (hruns.mono (List.suffix_cons _ _).isInfix)⟩

end Number
end AccessControl
