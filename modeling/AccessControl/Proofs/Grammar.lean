import AccessControl.Condition.Grammar
import AccessControl.Proofs.Inquiry

/-! # The grammar of conditions as a relation

Which tokens make which condition, as inductive relations.  A condition is parts with `||` between
them; such a part is parts with `&&` between them; and such a part is a negation, a condition in
parentheses, or a comparison (`Condition.IsGroup`, `IsPart`, `IsUnary`).

The reader accepts exactly what the grammar derives (`Condition.ofTokens_eq_ok`).  Each of its
functions reads a derivation off the front of the tokens and leaves the rest.  In the other direction,
it reads a derivation and no more if the rest does not go on with it: a path goes on with a dot, and a
group with its sign. -/

namespace AccessControl.Condition

/-! ### The grammar -/

/-- The tokens of values that stand bare. -/
inductive IsScalar : Token → Value → Prop
  | number (x : Number) : IsScalar (.number x) (.number x)
  | text (s : String) : IsScalar (.text s) (.string s)
  | yes : IsScalar .yes (.boolean true)
  | no : IsScalar .no (.boolean false)

/-- A bare value, or one in the parentheses of a cast. -/
inductive IsLiteral : List Token → Literal → Prop
  | bare {t : Token} {v : Value} (scalar : IsScalar t v) : IsLiteral [t] (.infer v)
  | cast {t : Token} {v : Value} (declared : ValueType) (scalar : IsScalar t v) :
      IsLiteral [.identifier declared.name, .openParen, t, .closeParen] ⟨declared, v⟩

/-- Literals with commas between them. -/
inductive IsItems : List Token → List Literal → Prop
  | one {ts : List Token} {l : Literal} (item : IsLiteral ts l) : IsItems ts [l]
  | more {ts us : List Token} {l : Literal} {items : List Literal} (item : IsLiteral ts l)
      (rest : IsItems us items) : IsItems (ts ++ .comma :: us) (l :: items)

/-- Names with dots between them. -/
def pathTokens : List String → List Token
  | [] => []
  | name :: rest => .identifier name :: rest.flatMap fun s => [.dot, .identifier s]

/-- A literal, a list in brackets, or an attribute of the principal, which may stand in a cast. -/
inductive IsOperand : List Token → Operand → Prop
  | literal {ts : List Token} {l : Literal} (item : IsLiteral ts l) : IsOperand ts (.literal l)
  | list {ts : List Token} {items : List Literal} (within : IsItems ts items) :
      IsOperand (.openBracket :: (ts ++ [.closeBracket])) (.list items)
  | principal (name : String) :
      IsOperand (pathTokens ["principal", name]) (.principal name .string)
  | cast (declared : ValueType) (name : String) :
      IsOperand (.identifier declared.name :: .openParen ::
        (pathTokens ["principal", name] ++ [.closeParen])) (.principal name declared)

/-- A path that does not start at the principal, an operator and an operand. -/
inductive IsComparison : List Token → Condition → Prop
  | mk {names : List String} {t : Token} {operator : Operator} {ts : List Token} {operand : Operand}
      (ne : names ≠ []) (field : names.head? ≠ some "principal") (sign : operatorOf? t = some operator)
      (right : IsOperand ts operand) :
      IsComparison (pathTokens names ++ t :: ts) (.compare (joinWith "." names) operator operand)

/-- The two ways to join conditions. -/
inductive Junction where
  | and
  | or

namespace Junction

/-- The sign between the parts of a group. -/
def sign : Junction → Token
  | and => .and
  | or => .or

/-- What several parts make together. -/
def join : Junction → List Condition → Condition
  | and => all
  | or => any

/-- The tokens that would go on with a part of a group. -/
def inner : Junction → List Token
  | and => [.dot]
  | or => [.dot, .and]

end Junction

mutual

/-- A negation, a condition in parentheses, or a comparison. -/
inductive IsUnary : List Token → Condition → Prop
  | comparison {ts : List Token} {c : Condition} (h : IsComparison ts c) : IsUnary ts c
  | not {ts : List Token} {c : Condition} (h : IsUnary ts c) : IsUnary (.not :: ts) (.not c)
  | parenthesized {ts : List Token} {c : Condition} (h : IsGroup .or ts c) :
      IsUnary (.openParen :: (ts ++ [.closeParen])) c

/-- A part of a group. -/
inductive IsPart : Junction → List Token → Condition → Prop
  | unary {ts : List Token} {c : Condition} (h : IsUnary ts c) : IsPart .and ts c
  | group {ts : List Token} {c : Condition} (h : IsGroup .and ts c) : IsPart .or ts c

/-- Parts with a sign between them; a single part stands for itself. -/
inductive IsGroup : Junction → List Token → Condition → Prop
  | mk {j : Junction} {ts us : List Token} {c : Condition} {cs : List Condition} (first : IsPart j ts c)
      (more : IsMore j us cs) : IsGroup j (ts ++ us) (group j.join c cs)

/-- Further parts, each after the sign. -/
inductive IsMore : Junction → List Token → List Condition → Prop
  | nil {j : Junction} : IsMore j [] []
  | cons {j : Junction} {ts us : List Token} {c : Condition} {cs : List Condition}
      (part : IsPart j ts c) (more : IsMore j us cs) : IsMore j (j.sign :: (ts ++ us)) (c :: cs)

end

/-! ### What readers do -/

section readers
variable {α : Type}

/-- Whether none of the given tokens stands in front. -/
def Free (signs : List Token) (ts : List Token) : Prop := ∀ t ∈ ts.head?, t ∉ signs

theorem Free.mono {signs more ts : List Token} (h : Free more ts) (hsub : signs ⊆ more) :
    Free signs ts := fun t ht hmem => h t ht (hsub hmem)

theorem free_nil (signs : List Token) : Free signs [] := by
  intro t ht
  cases ht

theorem free_cons {signs : List Token} {t : Token} (h : t ∉ signs) (ts : List Token) :
    Free signs (t :: ts) := by
  intro u hu
  cases hu
  exact h

/-- Whether all that a reader takes off the front is derived. -/
def Sound (reader : List Token → Except Failure (α × List Token)) (P : List Token → α → Prop) : Prop :=
  ∀ ts a rest, reader ts = .ok (a, rest) → ∃ us, P us a ∧ ts = us ++ rest

/-- Whether a reader takes just the tokens `us` off the front, when none of `signs` follows them. -/
def Takes (reader : List Token → Except Failure (α × List Token)) (signs us : List Token) (a : α) :
    Prop :=
  ∀ rest, Free signs rest → reader (us ++ rest) = .ok (a, rest)

end readers

theorem require_eq_ok {t : Token} {description : String} {ts rest : List Token} :
    require t description ts = .ok rest ↔ ts = t :: rest := by
  unfold require
  cases ts with
  | nil => simp [refuse]
  | cons first others =>
      by_cases h : first = t
      · simp [h]
      · simp [h, refuse]

/-! ### Literals -/

theorem readScalar_eq_ok {ts rest : List Token} {v : Value} :
    readScalar ts = .ok (v, rest) ↔ ∃ t, IsScalar t v ∧ ts = t :: rest := by
  constructor
  · intro h
    unfold readScalar at h
    split at h
    · cases h
      exact ⟨_, .number _, rfl⟩
    · cases h
      exact ⟨_, .text _, rfl⟩
    · cases h
      exact ⟨_, .yes, rfl⟩
    · cases h
      exact ⟨_, .no, rfl⟩
    · cases h
  · rintro ⟨t, h, rfl⟩
    cases h <;> rfl

theorem typeOfWord_eq_ok {word : String} {declared : ValueType} :
    typeOfWord word = .ok declared ↔ word = declared.name := by
  constructor
  · intro h
    unfold typeOfWord at h
    split at h
    · cases h
      assumption
    split at h
    · cases h
      assumption
    split at h
    · cases h
      assumption
    split at h
    · cases h
      assumption
    · cases h
  · rintro rfl
    cases declared <;> rfl

theorem openCast_eq_ok {word : String} {declared : ValueType} {ts rest : List Token} :
    openCast word ts = .ok (declared, rest) ↔ word = declared.name ∧ ts = .openParen :: rest := by
  unfold openCast
  rw [bind_eq_ok]
  constructor
  · rintro ⟨found, hword, h⟩
    obtain ⟨inside, hparen, h⟩ := bind_eq_ok.mp h
    cases h
    exact ⟨typeOfWord_eq_ok.mp hword, require_eq_ok.mp hparen⟩
  · rintro ⟨hword, hparen⟩
    exact ⟨declared, typeOfWord_eq_ok.mpr hword,
      bind_eq_ok.mpr ⟨rest, require_eq_ok.mpr hparen, rfl⟩⟩

theorem readLiteral_sound : Sound readLiteral IsLiteral := by
  intro ts l rest h
  unfold readLiteral at h
  split at h
  · obtain ⟨⟨declared, inside⟩, hcast, h⟩ := bind_eq_ok.mp h
    obtain ⟨⟨v, after⟩, hscalar, h⟩ := bind_eq_ok.mp h
    obtain ⟨last, hclose, h⟩ := bind_eq_ok.mp h
    cases h
    obtain ⟨rfl, rfl⟩ := openCast_eq_ok.mp hcast
    obtain ⟨t, hv, rfl⟩ := readScalar_eq_ok.mp hscalar
    obtain rfl := require_eq_ok.mp hclose
    exact ⟨_, .cast declared hv, rfl⟩
  · obtain ⟨⟨v, after⟩, hscalar, h⟩ := bind_eq_ok.mp h
    cases h
    obtain ⟨t, hv, rfl⟩ := readScalar_eq_ok.mp hscalar
    exact ⟨_, .bare hv, rfl⟩

theorem IsLiteral.takes {us : List Token} {l : Literal} (h : IsLiteral us l) :
    Takes readLiteral [] us l := by
  intro rest _
  cases h with
  | bare hv => cases hv <;> rfl
  | cast declared hv => cases declared <;> cases hv <;> rfl

/-- A literal starts with a token of its own. -/
theorem IsLiteral.head {ts : List Token} {l : Literal} (h : IsLiteral ts l) :
    ∃ t us, ts = t :: us ∧ t ≠ .closeBracket := by
  cases h with
  | bare hv => cases hv <;> exact ⟨_, _, rfl, by simp⟩
  | cast declared hv => exact ⟨_, _, rfl, by simp⟩

theorem IsItems.head {ts : List Token} {items : List Literal} (h : IsItems ts items) :
    ∃ t us, ts = t :: us ∧ t ≠ .closeBracket := by
  cases h with
  | one hl => exact hl.head
  | more hl _ =>
      obtain ⟨t, us, rfl, ht⟩ := hl.head
      exact ⟨t, _, rfl, ht⟩

theorem readItems_sound : ∀ {count : Nat} {ts rest : List Token} {items : List Literal},
    readItems count ts = .ok (items, rest) →
      ∃ us, IsItems us items ∧ ts = us ++ .closeBracket :: rest
  | 0, ts, rest, items, h => by
      cases h
  | count + 1, ts, rest, items, h => by
      unfold readItems at h
      obtain ⟨⟨item, after⟩, hitem, hafter⟩ := bind_eq_ok.mp h
      obtain ⟨us, hl, rfl⟩ := readLiteral_sound _ _ _ hitem
      dsimp only at hafter
      split at hafter
      · obtain ⟨⟨more, last⟩, hmore, hlast⟩ := bind_eq_ok.mp hafter
        cases hlast
        obtain ⟨vs, hitems, rfl⟩ := readItems_sound hmore
        exact ⟨us ++ .comma :: vs, .more hl hitems, by simp⟩
      · cases hafter
        exact ⟨us, .one hl, rfl⟩
      · cases hafter

theorem IsItems.read {us : List Token} {items : List Literal} (h : IsItems us items)
    (rest : List Token) : ∀ count, us.length ≤ count →
      readItems count (us ++ .closeBracket :: rest) = .ok (items, rest) := by
  induction h with
  | one hl =>
      intro count hcount
      obtain ⟨t, us, rfl, -⟩ := hl.head
      rw [List.length_cons] at hcount
      obtain ⟨smaller, rfl⟩ : ∃ smaller, count = smaller + 1 := ⟨count - 1, by omega⟩
      have hread := hl.takes (.closeBracket :: rest) (free_cons List.not_mem_nil rest)
      unfold readItems
      rw [hread]
      rfl
  | more hl _ ih =>
      rename_i ts us l items _
      intro count hcount
      rw [List.length_append, List.length_cons] at hcount
      obtain ⟨smaller, rfl⟩ : ∃ smaller, count = smaller + 1 := ⟨count - 1, by omega⟩
      have hread := hl.takes (.comma :: (us ++ .closeBracket :: rest)) (free_cons List.not_mem_nil _)
      unfold readItems
      rw [List.append_assoc, List.cons_append, hread]
      show (readItems smaller (us ++ .closeBracket :: rest) >>= _) = _
      rw [ih smaller (by omega)]
      rfl

/-! ### Paths -/

theorem readSegments_sound {ts rest : List Token} {names : List String}
    (h : readSegments ts = .ok (names, rest)) :
    ts = (names.flatMap fun s => [.dot, .identifier s]) ++ rest := by
  fun_induction readSegments ts generalizing names rest with
  | case1 name after ih =>
      obtain ⟨⟨found, last⟩, hfound, hlast⟩ := bind_eq_ok.mp h
      cases hlast
      simp [ih hfound]
  | case2 => cases h
  | case3 =>
      cases h
      rfl

theorem takes_segments : ∀ names : List String,
    Takes readSegments [.dot] (names.flatMap fun s => [.dot, .identifier s]) names
  | [], [], _ => rfl
  | [], t :: rest, hrest => by
      have ht : t ≠ .dot := by simpa using hrest t rfl
      show readSegments (t :: rest) = _
      unfold readSegments
      split
      · rename_i heq
        exact absurd (List.cons.inj heq).1 ht
      · rename_i heq
        exact absurd (List.cons.inj heq).1 ht
      · rfl
  | name :: names, rest, hrest => by
      show (readSegments ((names.flatMap fun s => [.dot, .identifier s]) ++ rest) >>= _) = _
      rw [takes_segments names rest hrest]
      rfl

theorem readPath_sound : Sound readPath fun us names => names ≠ [] ∧ us = pathTokens names := by
  intro ts names rest h
  unfold readPath at h
  split at h
  · obtain ⟨⟨found, last⟩, hfound, hlast⟩ := bind_eq_ok.mp h
    cases hlast
    refine ⟨_, ⟨List.cons_ne_nil _ _, rfl⟩, ?_⟩
    rw [readSegments_sound hfound]
    rfl
  · cases h

theorem takes_path {names : List String} (hne : names ≠ []) :
    Takes readPath [.dot] (pathTokens names) names := by
  intro rest hrest
  cases names with
  | nil => exact absurd rfl hne
  | cons name names =>
      show (readSegments ((names.flatMap fun s => [.dot, .identifier s]) ++ rest) >>= _) = _
      rw [takes_segments names rest hrest]
      rfl

theorem readReference_sound :
    Sound readReference fun us name => us = pathTokens ["principal", name] := by
  intro ts name rest h
  unfold readReference at h
  obtain ⟨⟨names, after⟩, hpath, hafter⟩ := bind_eq_ok.mp h
  obtain ⟨us, ⟨-, rfl⟩, rfl⟩ := readPath_sound _ _ _ hpath
  split at hafter
  · rename_i heq
    cases heq
    cases hafter
    exact ⟨_, rfl, rfl⟩
  · cases hafter

theorem takes_reference (name : String) :
    Takes readReference [.dot] (pathTokens ["principal", name]) name := by
  intro rest hrest
  unfold readReference
  rw [takes_path (List.cons_ne_nil _ _) rest hrest]
  rfl

/-! ### Operands -/

/-- Words that declare types are not the principal. -/
theorem name_ne_principal (declared : ValueType) : declared.name ≠ "principal" := by
  cases declared <;> decide

theorem readCast_sound (declared : ValueType) : Sound (readCast declared) fun us operand =>
    IsOperand (.identifier declared.name :: .openParen :: (us ++ [.closeParen])) operand := by
  intro ts operand rest h
  unfold readCast at h
  split at h
  · obtain ⟨⟨name, after⟩, hname, hafter⟩ := bind_eq_ok.mp h
    cases hafter
    obtain ⟨us, rfl, rfl⟩ := readReference_sound _ _ _ hname
    exact ⟨_, .cast declared name, rfl⟩
  · obtain ⟨⟨v, after⟩, hscalar, hafter⟩ := bind_eq_ok.mp h
    cases hafter
    obtain ⟨t, hv, rfl⟩ := readScalar_eq_ok.mp hscalar
    exact ⟨[t], .literal (.cast declared hv), rfl⟩

theorem takes_cast (declared : ValueType) (name : String) :
    Takes (readCast declared) [.dot] (pathTokens ["principal", name]) (.principal name declared) := by
  intro rest hrest
  have hhead : (pathTokens ["principal", name] ++ rest).head? = some (.identifier "principal") := rfl
  unfold readCast
  rw [if_pos hhead, takes_reference name rest hrest]
  rfl

theorem readOperand_sound : Sound readOperand IsOperand := by
  intro ts operand rest h
  unfold readOperand at h
  split at h
  · cases h
  · obtain ⟨⟨items, after⟩, hitems, hafter⟩ := bind_eq_ok.mp h
    cases hafter
    obtain ⟨us, hus, rfl⟩ := readItems_sound hitems
    exact ⟨.openBracket :: (us ++ [.closeBracket]), .list hus, by simp⟩
  · obtain ⟨⟨name, after⟩, hname, hafter⟩ := bind_eq_ok.mp h
    cases hafter
    obtain ⟨us, rfl, hus⟩ := readReference_sound _ _ _ hname
    exact ⟨_, .principal name, hus⟩
  · obtain ⟨⟨declared, inside⟩, hcast, hinside⟩ := bind_eq_ok.mp h
    obtain ⟨⟨found, after⟩, hoperand, hafter⟩ := bind_eq_ok.mp hinside
    obtain ⟨last, hclose, hlast⟩ := bind_eq_ok.mp hafter
    cases hlast
    obtain ⟨rfl, rfl⟩ := openCast_eq_ok.mp hcast
    obtain ⟨us, hus, rfl⟩ := readCast_sound declared _ _ _ hoperand
    obtain rfl := require_eq_ok.mp hclose
    exact ⟨_, hus, by simp⟩
  · obtain ⟨⟨l, after⟩, hliteral, hafter⟩ := bind_eq_ok.mp h
    cases hafter
    obtain ⟨us, hl, rfl⟩ := readLiteral_sound _ _ _ hliteral
    exact ⟨us, .literal hl, rfl⟩

/-- A word in front of an operand opens a cast, unless it is the principal. -/
theorem readOperand_identifier {word : String} (h : word ≠ "principal") (rest : List Token) :
    readOperand (.identifier word :: rest) = (do
      let (declared, rest) ← openCast word rest
      let (operand, rest) ← readCast declared rest
      return (operand, ← closeParenthesis rest)) := by
  unfold readOperand
  split
  · rename_i heq
    cases heq
  · rename_i heq
    cases heq
  · rename_i heq
    cases heq
    exact absurd rfl h
  · rename_i heq
    cases heq
    rfl
  · rename_i hword
    exact absurd rfl (hword word rest)

/-- A bracket in front of an operand opens a list, unless it is closed at once. -/
theorem readOperand_bracket {t : Token} (h : t ≠ .closeBracket) (rest : List Token) :
    readOperand (.openBracket :: t :: rest) = (do
      let (items, rest) ← readItems (t :: rest).length (t :: rest)
      return (.list items, rest)) := by
  unfold readOperand
  split
  · rename_i heq
    exact absurd (List.cons.inj (List.cons.inj heq).2).1 h
  · rename_i heq
    cases heq
    rfl
  · rename_i heq
    cases heq
  · rename_i heq
    cases heq
  · rename_i hopen _ _
    exact absurd rfl (hopen _)

theorem IsOperand.takes {us : List Token} {operand : Operand} (h : IsOperand us operand) :
    Takes readOperand [.dot] us operand := by
  intro rest hrest
  cases h with
  | literal hl =>
      cases hl with
      | bare hv => cases hv <;> rfl
      | cast declared hv => cases declared <;> cases hv <;> rfl
  | list hitems =>
      rename_i ts items
      have hread := hitems.read rest (ts ++ .closeBracket :: rest).length (by simp)
      obtain ⟨t, us, rfl, ht⟩ := hitems.head
      rw [List.cons_append, List.append_assoc, List.singleton_append, List.cons_append,
        readOperand_bracket ht]
      show (readItems (t :: us ++ .closeBracket :: rest).length (t :: us ++ .closeBracket :: rest) >>= _)
        = _
      rw [hread]
      rfl
  | principal name =>
      show (readReference (pathTokens ["principal", name] ++ rest) >>= _) = _
      rw [takes_reference name rest hrest]
      rfl
  | cast declared name =>
      have hread := takes_cast declared name (.closeParen :: rest) (free_cons (by decide) rest)
      rw [List.cons_append, List.cons_append, readOperand_identifier (name_ne_principal declared),
        openCast_eq_ok.mpr ⟨rfl, rfl⟩, ok_bind, List.append_assoc]
      show (readCast declared (pathTokens ["principal", name] ++ .closeParen :: rest) >>= _) = _
      rw [hread]
      rfl

/-! ### Comparisons -/

theorem readOperator_eq_ok {field : String} {ts rest : List Token} {operator : Operator} :
    readOperator field ts = .ok (operator, rest) ↔
      ∃ t, operatorOf? t = some operator ∧ ts = t :: rest := by
  constructor
  · intro h
    unfold readOperator at h
    split at h
    · rename_i hsign
      cases h
      obtain ⟨t, ht, hoperator⟩ := Option.bind_eq_some_iff.mp hsign
      obtain ⟨others, rfl⟩ := List.head?_eq_some_iff.mp ht
      exact ⟨t, hoperator, rfl⟩
    · cases h
  · rintro ⟨t, ht, rfl⟩
    have hsign : (t :: rest).head? >>= operatorOf? = some operator := ht
    unfold readOperator
    rw [hsign]
    rfl

theorem readComparison_sound : Sound readComparison IsComparison := by
  intro ts c rest h
  unfold readComparison at h
  obtain ⟨⟨names, afterPath⟩, hpath, h⟩ := bind_eq_ok.mp h
  dsimp only at h
  split at h
  · cases h
  · rename_i hfield
    obtain ⟨⟨operator, afterSign⟩, hsign, h⟩ := bind_eq_ok.mp h
    obtain ⟨⟨operand, last⟩, hoperand, h⟩ := bind_eq_ok.mp h
    cases h
    obtain ⟨us, ⟨hne, rfl⟩, rfl⟩ := readPath_sound _ _ _ hpath
    obtain ⟨t, ht, rfl⟩ := readOperator_eq_ok.mp hsign
    obtain ⟨us, hus, rfl⟩ := readOperand_sound _ _ _ hoperand
    exact ⟨pathTokens names ++ t :: us, .mk hne hfield ht hus, by simp⟩

theorem IsComparison.takes {us : List Token} {c : Condition} (h : IsComparison us c) :
    Takes readComparison [.dot] us c := by
  intro rest hrest
  cases h with
  | mk hne hfield hsign hoperand =>
      rename_i names t operator ts operand
      have hdot : t ∉ [Token.dot] := by
        intro hmem
        obtain rfl := List.mem_singleton.mp hmem
        cases hsign
      have hpath := takes_path hne (t :: (ts ++ rest)) (free_cons hdot _)
      have hoperator : ∀ field, readOperator field (t :: (ts ++ rest)) = .ok (operator, ts ++ rest) :=
        fun field => readOperator_eq_ok.mpr ⟨t, hsign, rfl⟩
      unfold readComparison
      rw [List.append_assoc, List.cons_append, hpath, ok_bind]
      dsimp only
      rw [if_neg hfield, hoperator, ok_bind]
      dsimp only
      rw [hoperand.takes rest hrest]
      rfl

/-- A comparison starts with a name. -/
theorem IsComparison.head {ts : List Token} {c : Condition} (h : IsComparison ts c) :
    ∃ name us, ts = .identifier name :: us := by
  cases h with
  | @mk names t operator us operand hne _ _ _ =>
      cases names with
      | nil => exact absurd rfl hne
      | cons name names => exact ⟨name, _, rfl⟩

/-! ### What is read is derived -/

theorem readMore_sound {j : Junction} {part : List Token → Except Failure (Condition × List Token)}
    (hpart : Sound part (IsPart j)) : ∀ count, Sound (readMore j.sign part count) (IsMore j)
  | 0, ts, cs, rest, h => by
      cases h
      exact ⟨[], .nil, rfl⟩
  | count + 1, [], cs, rest, h => by
      cases h
      exact ⟨[], .nil, rfl⟩
  | count + 1, t :: ts, cs, rest, h => by
      unfold readMore at h
      split at h
      · rename_i hsign
        obtain ⟨⟨c, afterPart⟩, hc, h⟩ := bind_eq_ok.mp h
        obtain ⟨⟨more, last⟩, hmore, h⟩ := bind_eq_ok.mp h
        cases h
        obtain ⟨us, hus, rfl⟩ := hpart _ _ _ hc
        obtain ⟨vs, hvs, rfl⟩ := readMore_sound hpart count _ _ _ hmore
        refine ⟨j.sign :: (us ++ vs), .cons hus hvs, ?_⟩
        rw [hsign, List.cons_append, List.append_assoc]
      · cases h
        exact ⟨[], .nil, rfl⟩

theorem readGroup_sound {j : Junction} {part : List Token → Except Failure (Condition × List Token)}
    (hpart : Sound part (IsPart j)) : Sound (readGroup j.sign j.join part) (IsGroup j) := by
  intro ts c rest h
  unfold readGroup at h
  obtain ⟨⟨first, afterFirst⟩, hfirst, h⟩ := bind_eq_ok.mp h
  obtain ⟨⟨more, last⟩, hmore, h⟩ := bind_eq_ok.mp h
  cases h
  obtain ⟨us, hus, rfl⟩ := hpart _ _ _ hfirst
  obtain ⟨vs, hvs, rfl⟩ := readMore_sound hpart _ _ _ _ hmore
  exact ⟨us ++ vs, .mk hus hvs, by rw [List.append_assoc]⟩

/-- How the parts of a group are read. -/
def readPart (count : Nat) : Junction → List Token → Except Failure (Condition × List Token)
  | .and => readUnary count
  | .or => readGroup .and all (readUnary count)

theorem readPart_sound {count : Nat} (hunary : Sound (readUnary count) IsUnary) :
    ∀ j, Sound (readPart count j) (IsPart j) := by
  have hand : Sound (readUnary count) (IsPart .and) := by
    intro ts c rest h
    obtain ⟨us, hus, rfl⟩ := hunary _ _ _ h
    exact ⟨us, .unary hus, rfl⟩
  intro j ts c rest h
  cases j with
  | and => exact hand _ _ _ h
  | or =>
      obtain ⟨us, hus, rfl⟩ := readGroup_sound hand _ _ _ h
      exact ⟨us, .group hus, rfl⟩

theorem readUnary_sound : ∀ count, Sound (readUnary count) IsUnary := by
  have hcomparison : Sound readComparison IsUnary := by
    intro ts c rest h
    obtain ⟨us, hus, rfl⟩ := readComparison_sound _ _ _ h
    exact ⟨us, .comparison hus, rfl⟩
  intro count
  induction count with
  | zero => exact hcomparison
  | succ count ih =>
      intro ts c rest h
      unfold readUnary at h
      split at h
      · rename_i heq
        cases heq
        obtain ⟨⟨inner, last⟩, hinner, h⟩ := bind_eq_ok.mp h
        cases h
        obtain ⟨us, hus, rfl⟩ := ih _ _ _ hinner
        exact ⟨.not :: us, .not hus, rfl⟩
      · rename_i heq
        cases heq
        obtain ⟨⟨inner, afterInner⟩, hinner, h⟩ := bind_eq_ok.mp h
        obtain ⟨last, hclose, h⟩ := bind_eq_ok.mp h
        cases h
        obtain ⟨us, hus, rfl⟩ := readGroup_sound (readPart_sound ih .or) _ _ _ hinner
        obtain rfl := require_eq_ok.mp hclose
        exact ⟨_, .parenthesized hus, by simp⟩
      · exact hcomparison _ _ _ h

/-! ### What is derived is read -/

theorem takes_group {j : Junction} {part : List Token → Except Failure (Condition × List Token)}
    {ts us rest : List Token} {c : Condition} {cs : List Condition}
    (hfirst : part (ts ++ (us ++ rest)) = .ok (c, us ++ rest))
    (hmore : readMore j.sign part (us ++ rest).length (us ++ rest) = .ok (cs, rest)) :
    readGroup j.sign j.join part (ts ++ us ++ rest) = .ok (group j.join c cs, rest) := by
  unfold readGroup
  rw [List.append_assoc, hfirst, ok_bind]
  dsimp only
  rw [hmore]
  rfl

/-- What follows a part inside a group does not go on with the part. -/
theorem IsMore.free {j : Junction} {us rest : List Token} {cs : List Condition} (h : IsMore j us cs)
    (hrest : Free (j.sign :: j.inner) rest) : Free j.inner (us ++ rest) := by
  cases h with
  | nil => exact hrest.mono (List.subset_cons_self _ _)
  | cons _ _ =>
      refine free_cons ?_ _
      cases j <;> decide

mutual

theorem IsUnary.takes : ∀ {us : List Token} {c : Condition}, IsUnary us c → ∀ count,
    us.length ≤ count → Takes (readUnary count) [.dot] us c
  | us, c, .comparison h, count, _, rest, hrest => by
      have hread := h.takes rest hrest
      obtain ⟨name, vs, rfl⟩ := h.head
      cases count <;> exact hread
  | _, _, @IsUnary.not ts c h, count, hcount, rest, hrest => by
      rw [List.length_cons] at hcount
      obtain ⟨smaller, rfl⟩ : ∃ smaller, count = smaller + 1 := ⟨count - 1, by omega⟩
      show (readUnary smaller (ts ++ rest) >>= _) = _
      rw [h.takes smaller (by omega) rest hrest]
      rfl
  | _, _, @IsUnary.parenthesized ts c h, count, hcount, rest, hrest => by
      rw [List.length_cons, List.length_append] at hcount
      obtain ⟨smaller, rfl⟩ : ∃ smaller, count = smaller + 1 := ⟨count - 1, by omega⟩
      have hread := h.takes smaller (by omega) (.closeParen :: rest) (free_cons (by decide) rest)
      rw [List.cons_append, List.append_assoc]
      show (readGroup Junction.or.sign Junction.or.join (readPart smaller .or)
        (ts ++ .closeParen :: rest) >>= _) = _
      rw [hread]
      rfl

theorem IsPart.takes : ∀ {j : Junction} {us : List Token} {c : Condition}, IsPart j us c → ∀ count,
    us.length ≤ count → Takes (readPart count j) j.inner us c
  | _, _, _, .unary h, count, hcount, rest, hrest => h.takes count hcount rest hrest
  | _, _, _, .group h, count, hcount, rest, hrest =>
      h.takes count hcount rest (hrest.mono (by decide))

theorem IsGroup.takes : ∀ {j : Junction} {us : List Token} {c : Condition}, IsGroup j us c → ∀ count,
    us.length ≤ count →
      Takes (readGroup j.sign j.join (readPart count j)) (j.sign :: j.inner) us c
  | j, _, _, .mk first more, count, hcount, rest, hrest => by
      rw [List.length_append] at hcount
      exact takes_group (first.takes count (by omega) _ (more.free hrest))
        (more.takes count _ (by omega) (by simp) rest hrest)

theorem IsMore.takes : ∀ {j : Junction} {us : List Token} {cs : List Condition}, IsMore j us cs →
    ∀ count left, us.length ≤ count → us.length ≤ left →
      Takes (readMore j.sign (readPart count j) left) (j.sign :: j.inner) us cs
  | _, _, _, .nil, _, 0, _, _, _, _ => rfl
  | _, _, _, .nil, _, left + 1, _, _, [], _ => rfl
  | j, _, _, .nil, count, left + 1, _, _, t :: rest, hrest => by
      have ht : t ≠ j.sign := fun heq => hrest t rfl (heq ▸ List.mem_cons_self)
      show (if t = j.sign then _ else Except.ok ([], t :: rest)) = _
      rw [if_neg ht]
  | j, _, _, @IsMore.cons _ ts us c cs part more, count, left, hcount, hleft, rest, hrest => by
      rw [List.length_cons, List.length_append] at hcount hleft
      obtain ⟨fewer, rfl⟩ : ∃ fewer, left = fewer + 1 := ⟨left - 1, by omega⟩
      have hpart := part.takes count (by omega) (us ++ rest) (more.free hrest)
      have hmore := more.takes count fewer (by omega) (by omega) rest hrest
      show (if j.sign = j.sign then (readPart count j (ts ++ us ++ rest) >>= _) else _) = _
      rw [if_pos rfl, List.append_assoc, hpart, ok_bind]
      dsimp only
      rw [hmore]
      rfl

end

/-! ### The whole reader -/

mutual

theorem IsUnary.ne_nil : ∀ {ts : List Token} {c : Condition}, IsUnary ts c → ts ≠ []
  | _, _, .comparison h => by
      obtain ⟨name, us, rfl⟩ := h.head
      simp
  | _, _, .not _ => by simp
  | _, _, .parenthesized _ => by simp

theorem IsPart.ne_nil : ∀ {j : Junction} {ts : List Token} {c : Condition}, IsPart j ts c → ts ≠ []
  | _, _, _, .unary h => h.ne_nil
  | _, _, _, .group h => h.ne_nil

theorem IsGroup.ne_nil : ∀ {j : Junction} {ts : List Token} {c : Condition}, IsGroup j ts c → ts ≠ []
  | _, _, _, .mk first _ => by simp [first.ne_nil]

end

/-- A list of tokens makes a condition exactly when the grammar derives it. -/
theorem ofTokens_eq_ok {ts : List Token} {c : Condition} : ofTokens ts = .ok c ↔ IsGroup .or ts c := by
  have hreader : readDisjunction ts =
      readGroup Junction.or.sign Junction.or.join (readPart ts.length .or) ts := rfl
  unfold ofTokens
  rw [hreader]
  constructor
  · intro h
    split at h
    · cases h
    · obtain ⟨⟨found, rest⟩, hread, h⟩ := bind_eq_ok.mp h
      obtain ⟨us, hus, hts⟩ :=
        readGroup_sound (readPart_sound (readUnary_sound ts.length) .or) _ _ _ hread
      cases rest with
      | nil =>
          cases h
          rwa [hts, List.append_nil]
      | cons t rest => cases h
  · intro h
    have hread := h.takes ts.length (Nat.le_refl _) [] (free_nil _)
    rw [List.append_nil] at hread
    rw [if_neg (by simp [h.ne_nil]), hread]
    rfl

end AccessControl.Condition
