import AccessControl.Number.Text
import AccessControl.Proofs.Digits

/-! # Numbers read back from their texts

The plain text of a finite number denotes that number again (`Number.read?_write`).  The text of a
magnitude is a decimal whose nearest magnitude it is (`Magnitude.magnitude_shortest`): each decimal
that is considered is put to that test, and the exact value, which is taken when none passes it, is
read back because the rounding of an exact value changes nothing (`Magnitude.nearest_units`). -/

namespace AccessControl

/-! ### Rounding -/

/-- A quotient is rounded the same way whatever common factor its parts have. -/
theorem roundHalfEven_mul_left {k : Nat} (hk : 0 < k) (a b : Nat) :
    roundHalfEven (k * a) (k * b) = roundHalfEven a b := by
  have hquotient : k * a / (k * b) = a / b := Nat.mul_div_mul_left a b hk
  have hrest : 2 * (k * a % (k * b)) = k * (2 * (a % b)) := by
    rw [Nat.mul_mod_mul_left, Nat.mul_left_comm]
  simp only [roundHalfEven, hquotient, hrest, Nat.mul_lt_mul_left hk]

theorem roundHalfEven_of_dvd {b : Nat} (hb : 0 < b) (a : Nat) : roundHalfEven (a * b) b = a := by
  simp [roundHalfEven, Nat.mul_div_cancel a hb, hb]

namespace Magnitude

theorem nearest_mul_left {k : Nat} (hk : 0 < k) (a b : Nat) :
    nearest (k * a) (k * b) = nearest a b := by
  have hscaled : k * a * unitsPerOne = k * (a * unitsPerOne) := Nat.mul_assoc _ _ _
  have hquotient : k * (a * unitsPerOne) / (k * b) = a * unitsPerOne / b :=
    Nat.mul_div_mul_left _ _ hk
  simp only [nearest, hscaled, hquotient, Nat.mul_assoc k b, roundHalfEven_mul_left hk]

theorem unitsPerOne_pos : 0 < unitsPerOne := by decide +kernel

theorem binade_pos : 0 < binade := by decide +kernel

/-- The binade of a magnitude that is not among the smallest is the number of bits that its value has
beyond the significant ones. -/
theorem log2_units {m : Magnitude} (h : binade ≤ m.rank) :
    Nat.log2 m.units = 52 + (m.rank / binade - 1) := by
  have hrest := Nat.mod_lt m.rank binade_pos
  have hbinade : binade = 2 ^ 52 := rfl
  have hunits : m.units = (binade + m.rank % binade) * 2 ^ (m.rank / binade - 1) := by
    rw [units, if_neg (Nat.not_lt.mpr h)]
    rfl
  have hpos : 0 < 2 ^ (m.rank / binade - 1) := Nat.two_pow_pos _
  have hlow : 2 ^ (52 + (m.rank / binade - 1)) ≤ m.units := by
    rw [hunits, Nat.pow_add, ← hbinade]
    exact Nat.mul_le_mul_right _ (Nat.le_add_right _ _)
  have hhigh : m.units < 2 ^ (52 + (m.rank / binade - 1) + 1) := by
    rw [hunits, Nat.pow_succ, Nat.pow_add, ← hbinade, Nat.mul_right_comm]
    exact (Nat.mul_lt_mul_right hpos).mpr (by omega)
  have hne : m.units ≠ 0 := by omega
  have hle := (Nat.le_log2 hne).mpr hlow
  have hlt := (Nat.log2_lt hne).mpr hhigh
  omega

/-- The magnitude nearest to the exact value of a magnitude is that magnitude. -/
theorem nearest_units (m : Magnitude) : nearest m.units unitsPerOne = m := by
  have hquotient : m.units * unitsPerOne / unitsPerOne = m.units :=
    Nat.mul_div_cancel _ unitsPerOne_pos
  have hround : ∀ shift, roundHalfEven (m.units * unitsPerOne) (unitsPerOne * shift) =
      roundHalfEven m.units shift := by
    intro shift
    rw [Nat.mul_comm m.units, roundHalfEven_mul_left unitsPerOne_pos]
  have hrank : ∀ rank, rank = m.rank → ofRank rank = m := by
    rintro rank rfl
    simp [ofRank, Nat.min_eq_left m.rank_le]
  simp only [nearest, hquotient, hround]
  apply hrank
  by_cases h : m.rank < binade
  · have hunits : m.units = m.rank := by rw [units, if_pos h]
    have hlog : Nat.log2 m.rank < 52 := by
      by_cases hzero : m.rank = 0
      · rw [hzero]
        decide
      · exact (Nat.log2_lt hzero).mpr h
    have hdropped : Nat.log2 m.units - 52 = 0 := by
      rw [hunits]
      omega
    have hone := roundHalfEven_of_dvd Nat.one_pos m.rank
    rw [Nat.mul_one] at hone
    rw [hdropped, hunits]
    show 0 * binade + roundHalfEven m.rank 1 = m.rank
    omega
  · have hle := Nat.le_of_not_lt h
    have hunits : m.units = (binade + m.rank % binade) * Nat.pow 2 (m.rank / binade - 1) := by
      rw [units, if_neg h]
    have hstep : 0 < Nat.pow 2 (m.rank / binade - 1) := Nat.two_pow_pos _
    have hdropped : Nat.log2 m.units - 52 = m.rank / binade - 1 := by
      have := log2_units hle
      omega
    have hquotient : 1 ≤ m.rank / binade := (Nat.one_le_div_iff binade_pos).mpr hle
    have hsplit := Nat.div_add_mod' m.rank binade
    rw [hdropped, hunits, roundHalfEven_of_dvd hstep]
    calc (m.rank / binade - 1) * binade + (binade + m.rank % binade)
        = (m.rank / binade - 1 + 1) * binade + m.rank % binade := by
          rw [Nat.add_mul, Nat.one_mul, Nat.add_assoc]
      _ = m.rank := by rw [Nat.sub_add_cancel hquotient, hsplit]

end Magnitude

/-! ### Decimals -/

namespace Decimal

/-- A trailing zero of a decimal can be moved to its exponent. -/
theorem magnitude_mul_ten (digits : Nat) (exponent : Int) :
    magnitude ⟨digits * 10, exponent⟩ = magnitude ⟨digits, exponent + 1⟩ := by
  by_cases hzero : digits = 0
  · simp [magnitude, hzero]
  · have hscale : scale ⟨digits * 10, exponent⟩ = scale ⟨digits, exponent + 1⟩ := by
      have hlength := Text.length_decimal_of_le (n := digits * 10) (by omega)
      have hdiv : digits * 10 / 10 = digits := by omega
      rw [hdiv] at hlength
      simp only [scale, hlength]
      omega
    have hnearest : Magnitude.nearest (numerator ⟨digits * 10, exponent⟩)
          (denominator ⟨digits * 10, exponent⟩) =
        Magnitude.nearest (numerator ⟨digits, exponent + 1⟩)
          (denominator ⟨digits, exponent + 1⟩) := by
      simp only [numerator, denominator, Nat.pow_eq]
      by_cases hneg : exponent < 0
      · -- the factor ten is in the numerator of one and missing from the denominator of the other
        have hden : (-exponent).toNat = (-(exponent + 1)).toNat + 1 := by omega
        have hnum : exponent.toNat = 0 := by omega
        have hnum' : (exponent + 1).toNat = 0 := by omega
        rw [hden, hnum, hnum', Nat.pow_zero, Nat.mul_one, Nat.mul_one, Nat.pow_succ,
          Nat.mul_comm digits, Nat.mul_comm (10 ^ _), Magnitude.nearest_mul_left (by decide)]
      · have hden : (-exponent).toNat = 0 := by omega
        have hden' : (-(exponent + 1)).toNat = 0 := by omega
        have hnum : (exponent + 1).toNat = exponent.toNat + 1 := by omega
        rw [hden, hden', hnum, Nat.pow_succ, Nat.mul_assoc, Nat.mul_comm 10]
    have hten : digits * 10 ≠ 0 := by omega
    simp only [magnitude, hscale, hnearest, hzero, hten, if_false]

theorem magnitude_mul_pow (digits : Nat) : ∀ (count : Nat) (exponent : Int),
    magnitude ⟨digits * Nat.pow 10 count, exponent⟩ = magnitude ⟨digits, exponent + count⟩
  | 0, exponent => by
      simp
  | count + 1, exponent => by
      have hpow : digits * Nat.pow 10 (count + 1) = digits * Nat.pow 10 count * 10 :=
        (Nat.mul_assoc _ _ _).symm
      have hexponent : exponent + 1 + (count : Int) = exponent + (count + 1 : Nat) := by omega
      rw [hpow, magnitude_mul_ten, magnitude_mul_pow digits count, hexponent]

/-- Leaving out trailing zeros does not change the magnitude. -/
theorem magnitude_stripped (digits : Nat) (exponent : Int) :
    (stripped digits exponent).magnitude = magnitude ⟨digits, exponent⟩ := by
  fun_induction stripped digits exponent with
  | case1 => rfl
  | case2 digits exponent h ih =>
      have hdigits : digits / 10 * 10 = digits := by omega
      rw [ih, ← magnitude_mul_ten, hdigits]

end Decimal

namespace Magnitude

theorem units_pos {m : Magnitude} (h : m.rank ≠ 0) : 0 < m.units := by
  unfold units
  split
  · omega
  · have := binade_pos
    exact Nat.mul_pos (by omega) (Nat.pow_pos (by decide))

theorem units_lt {m : Magnitude} (h : m.isFinite = true) : m.units < Nat.pow 2 2098 := by
  have hrank : m.rank < 2047 * binade := of_decide_eq_true h
  have hrest := Nat.mod_lt m.rank binade_pos
  have hquotient : m.rank / binade < 2047 := (Nat.div_lt_iff_lt_mul binade_pos).mpr hrank
  have hstep : ∀ shift, 0 < Nat.pow 2 shift := Nat.two_pow_pos
  have hmono : ∀ i j, i ≤ j → Nat.pow 2 i ≤ Nat.pow 2 j := fun _ _ => Nat.pow_le_pow_right (by decide)
  obtain ⟨bound, hbound⟩ : ∃ bound, bound = Nat.pow 2 2098 := ⟨_, rfl⟩
  have hbinade : binade < bound := by
    rw [hbound]
    decide +kernel
  have htop : (binade + binade) * Nat.pow 2 2045 = bound := by
    rw [hbound]
    decide +kernel
  rw [← hbound]
  unfold units
  split
  · omega
  · calc (binade + m.rank % binade) * Nat.pow 2 (m.rank / binade - 1)
        < (binade + binade) * Nat.pow 2 (m.rank / binade - 1) :=
          (Nat.mul_lt_mul_right (hstep _)).mpr (by omega)
      _ ≤ (binade + binade) * Nat.pow 2 2045 := Nat.mul_le_mul_left _ (hmono _ 2045 (by omega))
      _ = bound := htop

/-- A decimal with as many places as its digits have factors five is a binary fraction. -/
theorem nearest_binary_fraction (units places : Nat) :
    nearest (Decimal.numerator ⟨units * Nat.pow 5 places, -places⟩)
        (Decimal.denominator ⟨units * Nat.pow 5 places, -places⟩) =
      nearest units (Nat.pow 2 places) := by
  have hnumerator : (-(places : Int)).toNat = 0 := by omega
  have hdenominator : (-(-(places : Int))).toNat = places := by omega
  have hten : Nat.pow 10 places = Nat.pow 5 places * Nat.pow 2 places := Nat.mul_pow 5 2 places
  have hone : Nat.pow 10 0 = 1 := rfl
  have hfive : 0 < Nat.pow 5 places := Nat.pow_pos (by decide)
  simp only [Decimal.numerator, Decimal.denominator, hnumerator, hdenominator, hone]
  rw [Nat.mul_one, hten, Nat.mul_comm units, nearest_mul_left hfive]

/-- The digits of the exact value of a finite magnitude that is not zero are neither few nor many. -/
theorem digits_exactDecimal {m : Magnitude} (h : m.isFinite = true) (hzero : m.rank ≠ 0) :
    Nat.pow 10 674 ≤ m.exactDecimal.digits ∧ m.exactDecimal.digits < Nat.pow 10 (1473 + 1) := by
  -- the large power is named, so that nothing tries to work it out
  obtain ⟨five, hfive⟩ : ∃ five, Nat.pow 5 1074 = five := ⟨_, rfl⟩
  have hdigits : m.exactDecimal.digits = m.units * five := by
    subst hfive
    rfl
  have hlow : Nat.pow 10 674 ≤ five := by
    subst hfive
    decide +kernel
  have hhigh : 0 < five ∧ Nat.pow 2 2098 * five ≤ Nat.pow 10 (1473 + 1) := by
    subst hfive
    decide +kernel
  rw [hdigits]
  constructor
  · exact Nat.le_trans hlow (Nat.le_mul_of_pos_left _ (units_pos hzero))
  · exact Nat.lt_of_lt_of_le ((Nat.mul_lt_mul_right hhigh.1).mpr (units_lt h)) hhigh.2

/-- The exact value of a finite magnitude is read back. -/
theorem magnitude_exactDecimal {m : Magnitude} (h : m.isFinite = true) :
    m.exactDecimal.magnitude = m := by
  have hnearest : nearest m.exactDecimal.numerator m.exactDecimal.denominator = m :=
    (nearest_binary_fraction m.units 1074).trans m.nearest_units
  unfold Decimal.magnitude
  rw [hnearest]
  by_cases hzero : m.rank = 0
  · have hm : m = zero := by
      cases m
      cases hzero
      rfl
    have hdigits : m.exactDecimal.digits = 0 := by
      rw [hm]
      decide +kernel
    rw [if_pos hdigits, hm]
  · obtain ⟨hlow, hhigh⟩ := digits_exactDecimal h hzero
    have hscale : m.exactDecimal.scale = (Text.decimal m.exactDecimal.digits).length - 1074 := rfl
    have hne : m.exactDecimal.digits ≠ 0 := by
      have hten : 0 < Nat.pow 10 674 := by decide +kernel
      exact Nat.ne_of_gt (Nat.lt_of_lt_of_le hten hlow)
    have hmore := Text.lt_length_decimal hlow
    have hless := Text.length_decimal_le hhigh
    rw [if_neg hne, hscale, if_neg (by omega), if_neg (by omega)]

theorem magnitude_choose? {m : Magnitude} {takesBelow : Bool} {below above d : Decimal}
    (h : m.choose? takesBelow below above = some d) : d.magnitude = m := by
  unfold choose? at h
  split at h
  · rename_i hbelow habove
    split at h
    · cases h
      exact eq_of_beq hbelow
    · cases h
      exact eq_of_beq habove
  · rename_i hbelow _
    cases h
    exact eq_of_beq hbelow
  · rename_i _ habove
    cases h
    exact eq_of_beq habove
  · cases h

theorem magnitude_candidate? {tie : Tie} {m : Magnitude} {count : Nat} {d : Decimal}
    (h : m.candidate? tie count = some d) : d.magnitude = m := by
  unfold candidate? at h
  exact magnitude_choose? h

/-- The decimal that a finite magnitude is written with is read back as that magnitude. -/
theorem magnitude_shortest (tie : Tie) {m : Magnitude} (h : m.isFinite = true) :
    (m.shortest tie).magnitude = m := by
  unfold shortest
  rw [Decimal.magnitude_stripped]
  cases hfound : (List.range 17).findSome? fun n => m.candidate? tie (n + 1) with
  | none => exact magnitude_exactDecimal h
  | some d =>
      obtain ⟨n, -, hd⟩ := List.exists_of_findSome?_eq_some hfound
      exact magnitude_candidate? hd

end Magnitude

/-! ### Plain texts -/

namespace Number

/-- Whether a text starts with a digit and goes on with digits and points. -/
structure IsPlain (cs : List Char) : Prop where
  head : ∃ c ∈ cs.head?, Text.isDigit c = true
  mem : ∀ c ∈ cs, Text.isDigit c = true ∨ c = '.'

/-- Whether a plain text is that of a decimal with a given magnitude. -/
structure Reads (cs : List Char) (m : Magnitude) : Prop where
  plain : IsPlain cs
  read : ∃ d, readDecimal? cs = some d ∧ d.magnitude = m

section plain
variable {ds places : List Char} (hne : ds ≠ []) (hds : ∀ c ∈ ds, Text.isDigit c = true)
include hne hds

theorem isPlain_append {rest : List Char} (hrest : ∀ c ∈ rest, Text.isDigit c = true ∨ c = '.') :
    IsPlain (ds ++ rest) := by
  cases ds with
  | nil => exact absurd rfl hne
  | cons d ds =>
      refine ⟨⟨d, rfl, hds d List.mem_cons_self⟩, fun c hc => ?_⟩
      rcases List.mem_append.mp hc with hc | hc
      · exact Or.inl (hds c hc)
      · exact hrest c hc

/-- Digits are the text of a whole number. -/
theorem reads_digits : Reads ds (Decimal.magnitude ⟨Text.ofDigits 10 ds, 0⟩) := by
  have hplain := isPlain_append hne hds (List.forall_mem_nil fun c => Text.isDigit c = true ∨ c = '.')
  have hsplit := Text.takeWhile_run hds (Text.stops_nil _)
  rw [List.append_nil] at hplain hsplit
  exact ⟨hplain, _, by simp [readDecimal?, hsplit, hne], rfl⟩

/-- Digits with a point after some of them have as many places as digits follow the point. -/
theorem reads_point (hplaces : ∀ c ∈ places, Text.isDigit c = true) : Reads (ds ++ '.' :: places)
    (Decimal.magnitude ⟨Text.ofDigits 10 (ds ++ places), -(places.length : Int)⟩) := by
  have hpoint : Text.isDigit '.' = false := by decide
  have hsplit := Text.takeWhile_run hds (Text.stops_cons hpoint places)
  have hsplit' := Text.takeWhile_run hplaces (Text.stops_nil _)
  rw [List.append_nil] at hsplit'
  refine ⟨isPlain_append hne hds fun c hc => ?_, _, by simp [readDecimal?, hsplit, hsplit', hne], rfl⟩
  rcases List.mem_cons.mp hc with rfl | hc
  · exact Or.inr rfl
  · exact Or.inl (hplaces c hc)

end plain

/-- The positional notation of a decimal has the decimal's magnitude. -/
theorem reads_positional (d : Decimal) : Reads (positional d) d.magnitude := by
  have hne := Text.decimal_ne_nil d.digits
  have hdigits : ∀ c ∈ Text.decimal d.digits, Text.isDigit c = true :=
    fun c hc => Text.isDigit_of_mem_decimal hc
  have hzeros : ∀ n, ∀ c ∈ List.replicate n '0', Text.isDigit c = true := by
    intro n c hc
    rw [List.eq_of_mem_replicate hc]
    decide
  unfold positional
  dsimp only
  split
  · rename_i hzero
    have hmagnitude : d.magnitude = Decimal.magnitude ⟨0, 0⟩ := by simp [Decimal.magnitude, hzero]
    rw [hmagnitude]
    exact reads_digits (List.cons_ne_nil '0' []) (hzeros 1)
  split
  · rename_i hexponent
    have hall := List.forall_mem_append.mpr ⟨hdigits, hzeros d.exponent.toNat⟩
    have hreads := reads_digits (by simp [hne]) hall
    have hsame : (0 : Int) + d.exponent.toNat = d.exponent := by omega
    rwa [Text.ofDigits_append_zeros, Text.ofDigits_decimal, Decimal.magnitude_mul_pow, hsame] at hreads
  split
  · -- the point stands among the digits
    rename_i hexponent hbefore
    obtain ⟨count, hcount⟩ : ∃ count, count = (Text.decimal d.digits).length - (-d.exponent).toNat :=
      ⟨_, rfl⟩
    rw [← hcount]
    have htake : (Text.decimal d.digits).take count ≠ [] := by
      rw [← List.length_pos_iff, List.length_take]
      omega
    have hplaces : ∀ c ∈ (Text.decimal d.digits).drop count, Text.isDigit c = true :=
      fun c hc => hdigits c (List.mem_of_mem_drop hc)
    have hreads := reads_point htake (fun c hc => hdigits c (List.mem_of_mem_take hc)) hplaces
    have hsame : -(((Text.decimal d.digits).drop count).length : Int) = d.exponent := by
      rw [List.length_drop]
      omega
    rwa [List.take_append_drop, Text.ofDigits_decimal, hsame] at hreads
  · -- the point stands before the digits, with zeros between
    rename_i hexponent hplaces
    obtain ⟨count, hcount⟩ : ∃ count, count = (-d.exponent).toNat - (Text.decimal d.digits).length :=
      ⟨_, rfl⟩
    rw [← hcount]
    have hall := List.forall_mem_append.mpr ⟨hzeros count, hdigits⟩
    have hreads := reads_point (List.cons_ne_nil '0' []) (hzeros 1) hall
    have hsame : -((List.replicate count '0' ++ Text.decimal d.digits).length : Int) = d.exponent := by
      rw [List.length_append, List.length_replicate]
      omega
    have hone : ['0'] = List.replicate 1 '0' := rfl
    rw [hsame, hone, Text.ofDigits_zeros_append, Text.ofDigits_zeros_append,
      Text.ofDigits_decimal] at hreads
    exact hreads

/-! ### The whole text -/

theorem toLower_digit {c : Char} (h : Text.isDigit c = true) : c.toLower = c := by
  simp only [Text.isDigit, Bool.and_eq_true, decide_eq_true_eq] at h
  have hhigh : c.toNat ≤ '9'.toNat := h.2
  have hnine : '9'.toNat = 57 := rfl
  have hupper : 'A'.toNat = 65 := rfl
  unfold Char.toLower
  rw [dif_neg]
  rintro ⟨hlow, -⟩
  have hlow : 'A'.toNat ≤ c.toNat := hlow
  omega

/-- What starts with a digit is not one of the words for other numbers. -/
theorem readUnsigned?_of_digit {c : Char} (h : Text.isDigit c = true) (cs : List Char) :
    readUnsigned? (c :: cs) = (readDecimal? (c :: cs)).map fun d => .signed false d.magnitude := by
  have hword : ∀ (w : Char) (word : List Char), Text.isDigit w = false →
      (c :: cs).map Char.toLower ≠ w :: word := by
    intro w word hw heq
    have hhead : c.toLower = w := (List.cons.inj heq).1
    rw [← hhead, toLower_digit h, h] at hw
    cases hw
  have hinf : (c :: cs).map Char.toLower ≠ "inf".toList := hword 'i' "nf".toList rfl
  have hinfinity : (c :: cs).map Char.toLower ≠ "infinity".toList := hword 'i' "nfinity".toList rfl
  have hnan : (c :: cs).map Char.toLower ≠ "nan".toList := hword 'n' "an".toList rfl
  unfold readUnsigned?
  simp only [hinf, hinfinity, hnan, or_self, if_false]

theorem readUnsigned?_of_reads {cs : List Char} {m : Magnitude} (h : Reads cs m) :
    readUnsigned? cs = some (.signed false m) := by
  obtain ⟨c, hc, hdigit⟩ := h.plain.head
  obtain ⟨d, hread, hmagnitude⟩ := h.read
  obtain ⟨rest, rfl⟩ := List.head?_eq_some_iff.mp hc
  rw [readUnsigned?_of_digit hdigit, hread, Option.map_some, hmagnitude]

theorem read?_of_reads {cs : List Char} {m : Magnitude} (h : Reads cs m) (negative : Bool) :
    read? ((if negative then ['-'] else []) ++ cs) = some (.signed negative m) := by
  have hunsigned := readUnsigned?_of_reads h
  cases negative with
  | true =>
      simp [read?, hunsigned, negate]
  | false =>
      obtain ⟨c, hc, hdigit⟩ := h.plain.head
      show read? cs = _
      unfold read?
      split
      · cases hc
        cases hdigit
      · cases hc
        cases hdigit
      · exact hunsigned

/-- The plain text of a finite number is a sign, if it is negative, and the plain text of its
magnitude. -/
theorem exists_toList_write {x : Number} (h : x.isFinite = true) :
    ∃ negative m cs, x = .signed negative m ∧ Reads cs m ∧
      x.write.toList = (if negative then ['-'] else []) ++ cs := by
  cases x with
  | nan => cases h
  | signed negative m =>
      have hm : m.isFinite = true := h
      have hreads := reads_positional (m.shortest .up)
      rw [Magnitude.magnitude_shortest .up hm] at hreads
      refine ⟨negative, m, _, rfl, hreads, ?_⟩
      simp only [write, writeWith, hm, if_true, String.toList_ofList]

/-- The plain text of a finite number denotes that number. -/
theorem read?_write {x : Number} (h : x.isFinite = true) : read? x.write.toList = some x := by
  obtain ⟨negative, m, cs, rfl, hreads, hwrite⟩ := exists_toList_write h
  rw [hwrite]
  exact read?_of_reads hreads negative

end Number
end AccessControl
