import AccessControl.Proofs.Number.Nearest
import AccessControl.Proofs.Token

/-! # Every way to write a list of tokens is read back

`Token.Lexeme` lists the texts of a token: a name or keyword, a sign, a string between quotes in any
spelling of its characters, and digits with an optional sign and point, which stand for the nearest
number to their value.  `Token.Written` puts lexemes one after another with blanks between them.

What is written so is read back as the tokens it was made of (`Token.split_of_written`).  A lexeme is
read up to the blank after it (`Token.split_lexeme`): a blank goes on with neither a word nor a number,
and it does not make `==` or `!=` of a sign either. -/

namespace AccessControl.Token

/-! ### Lexemes -/

/-- The words that the language keeps for itself. -/
def reserved : List (Token × String) :=
  [(yes, "true"), (no, "false"), (isIn, "in"), (contains, "contains")]

/-- Punctuation and operators. -/
def signs : List (Token × String) :=
  [(dot, "."), (comma, ","), (openParen, "("), (closeParen, ")"), (openBracket, "["),
    (closeBracket, "]"), (equals, "=="), (notEquals, "!="), (greater, ">"), (less, "<"), (and, "&&"),
    (or, "||"), (not, "!")]

/-- Whether a text is digits, at least one. -/
structure IsDigits (digits : List Char) : Prop where
  ne_nil : digits ≠ []
  all : ∀ d ∈ digits, Text.isDigit d = true

/-- The sign in front of a number. -/
def signOf (negative : Bool) : List Char := if negative then ['-'] else []

/-- The texts of a token. -/
inductive Lexeme : Token → List Char → Prop
  | name {name : String} (h : IsName name) : Lexeme (identifier name) name.toList
  | reserved {t : Token} {word : String} (h : (t, word) ∈ reserved) : Lexeme t word.toList
  | sign {t : Token} {sign : String} (h : (t, sign) ∈ signs) : Lexeme t sign.toList
  | text {s : String} {spelled : List (List Char)} (h : List.Forall₂ Spells s.toList spelled) :
      Lexeme (text s) ('"' :: (spelled.flatten ++ ['"']))
  | whole {negative : Bool} {m : Magnitude} {digits : List Char} (h : IsDigits digits)
      (value : m.IsNearest (Text.ofDigits 10 digits) 1) :
      Lexeme (number (.signed negative m)) (signOf negative ++ digits)
  | point {negative : Bool} {m : Magnitude} {digits places : List Char} (h : IsDigits digits)
      (h' : ∀ d ∈ places, Text.isDigit d = true)
      (value : m.IsNearest (Text.ofDigits 10 (digits ++ places)) (10 ^ places.length)) :
      Lexeme (number (.signed negative m)) (signOf negative ++ (digits ++ '.' :: places))

/-- The characters that stand between tokens. -/
def blanks : List Char := [' ', '\t', '\n', '\r']

/-- The texts of a list of tokens: a lexeme for each, with one or more blanks between them. -/
inductive Written : List Token → List Char → Prop
  | nil : Written [] []
  | last {t : Token} {lexeme : List Char} (h : Lexeme t lexeme) : Written [t] lexeme
  | cons {t : Token} {ts : List Token} {lexeme between rest : List Char} (h : Lexeme t lexeme)
      (ne : between ≠ []) (blank : ∀ c ∈ between, c ∈ blanks) (hrest : Written ts rest) :
      Written (t :: ts) (lexeme ++ (between ++ rest))

/-! ### What follows a lexeme -/

/-- Whether a text is empty or starts with a blank. -/
def Apart (rest : List Char) : Prop := ∀ c ∈ rest.head?, c ∈ blanks

theorem Apart.cases {rest : List Char} (h : Apart rest) : rest = [] ∨
    ∃ r, rest = ' ' :: r ∨ rest = '\t' :: r ∨ rest = '\n' :: r ∨ rest = '\r' :: r := by
  cases rest with
  | nil => exact .inl rfl
  | cons c r =>
      have hc := h c rfl
      simp only [blanks, List.mem_cons, List.not_mem_nil, or_false] at hc
      refine .inr ⟨r, ?_⟩
      simpa using hc

theorem apart_nil : Apart [] := by
  intro c hc
  cases hc

theorem apart_append {between : List Char} (ne : between ≠ []) (h : ∀ c ∈ between, c ∈ blanks)
    (rest : List Char) : Apart (between ++ rest) := by
  obtain ⟨c, between, rfl⟩ := List.exists_cons_of_ne_nil ne
  intro d hd
  cases hd
  exact h _ List.mem_cons_self

theorem Apart.breaks {rest : List Char} (h : Apart rest) : Breaks rest := by
  rcases h.cases with rfl | ⟨r, rfl | rfl | rfl | rfl⟩
  · exact breaks_nil
  all_goals exact breaks_cons (by decide) (by decide) r

theorem isSpace_of_mem_blanks {c : Char} (h : c ∈ blanks) : isSpace c = true := by
  simp only [blanks, List.mem_cons, List.not_mem_nil, or_false] at h
  rcases h with rfl | rfl | rfl | rfl <;> rfl

theorem split_blanks {between : List Char} (h : ∀ c ∈ between, c ∈ blanks) (rest : List Char) :
    split (between ++ rest) = split rest := by
  induction between with
  | nil => rfl
  | cons c between ih =>
      obtain ⟨hc, hbetween⟩ := List.forall_mem_cons.mp h
      rw [List.cons_append, split_space (isSpace_of_mem_blanks hc), ih hbetween]

/-! ### One lexeme -/

theorem split_spans {t : Token} {lexeme rest : List Char} (h : Spans lexeme [t])
    (hrest : Apart rest) : split (lexeme ++ rest) = (split rest).map (t :: ·) :=
  h rest hrest.breaks

theorem split_reserved {t : Token} {word : String} (h : (t, word) ∈ reserved) {rest : List Char}
    (hrest : Apart rest) : split (word.toList ++ rest) = (split rest).map (t :: ·) := by
  have hall : ∀ p ∈ reserved, IsWord p.2 ∧ ofWord p.2 = p.1 := by decide
  obtain ⟨hword, htoken⟩ := hall _ h
  have hspans := spans_nil.word hword (Text.stops_nil _)
  rw [List.append_nil, htoken] at hspans
  exact split_spans hspans hrest

/-- What is apart from a sign does not make another one of it, as `=` would. -/
theorem readOne_sign {t : Token} {sign : String} (h : (t, sign) ∈ signs) {rest : List Char}
    (hrest : Apart rest) : ∃ c cs, sign.toList = c :: cs ∧ isSpace c = false ∧
      readOne c (cs ++ rest) = .ok (t, rest) := by
  have hsigns : ∀ p ∈ signs, ∃ c cs, p.2.toList = c :: cs ∧ isSpace c = false ∧
      readOne c (cs ++ rest) = .ok (p.1, rest) := by
    simp only [signs, List.forall_mem_cons, List.not_mem_nil, false_implies, implies_true, and_true]
    and_intros
    all_goals
      refine ⟨_, _, rfl, rfl, ?_⟩
      rcases hrest.cases with rfl | ⟨r, rfl | rfl | rfl | rfl⟩ <;> rfl
  exact hsigns (t, sign) h

theorem split_sign {t : Token} {sign : String} (h : (t, sign) ∈ signs) {rest : List Char}
    (hrest : Apart rest) : split (sign.toList ++ rest) = (split rest).map (t :: ·) := by
  obtain ⟨c, cs, hsign, hspace, hread⟩ := readOne_sign h hrest
  rw [hsign, List.cons_append, split_cons hspace hread]

theorem split_text {s : String} {spelled : List (List Char)} (h : List.Forall₂ Spells s.toList spelled)
    (rest : List Char) : split ('"' :: (spelled.flatten ++ ['"']) ++ rest) =
      (split rest).map (text s :: ·) := by
  have hread : readOne '"' (spelled.flatten ++ '"' :: rest) = .ok (text s, rest) := by
    show (readText _).map _ = _
    rw [readText_spelled h]
    show Except.ok (text (.ofList s.toList), rest) = _
    rw [String.ofList_toList]
  rw [List.cons_append, List.append_assoc, List.singleton_append]
  exact split_cons (by decide) hread

theorem split_number {digits : List Char} {m : Magnitude} (hreads : Number.Reads digits m)
    (negative : Bool) {rest : List Char} (hrest : Apart rest) :
    split (signOf negative ++ digits ++ rest) =
      (split rest).map (number (.signed negative m) :: ·) := by
  have hspans := spans_nil.digits hreads negative (Text.stops_nil _)
  rw [List.append_nil] at hspans
  exact split_spans hspans hrest

/-- Every lexeme is read as its token in front of a blank and at the end. -/
theorem split_lexeme {t : Token} {lexeme : List Char} (h : Lexeme t lexeme) {rest : List Char}
    (hrest : Apart rest) : split (lexeme ++ rest) = (split rest).map (t :: ·) := by
  cases h with
  | name hname =>
      have hspans := spans_nil.name hname (Text.stops_nil _)
      rw [List.append_nil] at hspans
      exact split_spans hspans hrest
  | reserved hword => exact split_reserved hword hrest
  | sign hsign => exact split_sign hsign hrest
  | text hspelled => exact split_text hspelled rest
  | @whole _ m digits hdigits value =>
      have hvalue : Decimal.magnitude ⟨Text.ofDigits 10 digits, 0⟩ = m :=
        Decimal.magnitude_of_isNearest 0 value
      have hreads := Number.reads_digits hdigits.ne_nil hdigits.all
      rw [hvalue] at hreads
      exact split_number hreads _ hrest
  | point hdigits hplaces value =>
      have hreads := Number.reads_point hdigits.ne_nil hdigits.all hplaces
      rw [Decimal.magnitude_of_isNearest _ value] at hreads
      exact split_number hreads _ hrest

/-! ### Several lexemes -/

/-- Tokens that are written in any of the possible ways are read back. -/
theorem split_of_written {ts : List Token} {cs : List Char} (h : Written ts cs) : split cs = .ok ts := by
  induction h with
  | nil => rw [split]
  | last hlexeme =>
      have hsplit := split_lexeme hlexeme apart_nil
      rwa [List.append_nil, split] at hsplit
  | cons hlexeme ne blank _ ih =>
      rw [split_lexeme hlexeme (apart_append ne blank _), split_blanks blank, ih]
      rfl

/-- One and a half. -/
def oneAndAHalf : Magnitude := ⟨0x3FF8000000000000, by decide +kernel⟩

/-- The tokens of `crowded`. -/
def crowdedTokens : List Token :=
  [identifier "inn", notEquals, text "\x005\u00e9\\", and, not, isIn, greater,
    number (.signed true oneAndAHalf)]

/-- A text in which each token could be taken for another one if a character more or less were read. -/
def crowded : String := "inn\t!= \"\\05\\u\x7b0000E9\x7d\\\\\" &&\r\n! in > -01.50"

/-- The text is written from the tokens, with each kind of blank between them, and is split into them. -/
theorem split_of_written_crowded :
    Written crowdedTokens crowded.toList ∧ split crowded.toList = .ok crowdedTokens := by
  have hspelled : List.Forall₂ Spells "\x005\u00e9\\".toList
      [['\\', '0'], ['5'], '\\' :: 'u' :: '\x7b' :: ("0000E9".toList ++ ['\x7d']), ['\\', '\\']] :=
    .cons .zero (.cons (.plain (by decide) (by decide))
      (.cons (.code (by decide) (List.all_eq_true.mp rfl) (by decide)) (.cons .backslash .nil)))
  have hnearest : oneAndAHalf.IsNearest 150 (10 ^ 2) :=
    (Magnitude.isNearest_iff (by decide)).mpr (by decide +kernel)
  have hnumber : Lexeme (number (.signed true oneAndAHalf))
      (signOf true ++ (['0', '1'] ++ '.' :: ['5', '0'])) :=
    .point ⟨by decide, List.all_eq_true.mp rfl⟩ (List.all_eq_true.mp rfl) hnearest
  have hsign : ∀ p ∈ signs, Lexeme p.1 p.2.toList := fun _ hp => .sign hp
  have htab : ∀ c ∈ ['\t'], c ∈ blanks := by simp [blanks]
  have hspace : ∀ c ∈ [' '], c ∈ blanks := by simp [blanks]
  have hline : ∀ c ∈ ['\r', '\n'], c ∈ blanks := by simp [blanks]
  have hwritten : Written crowdedTokens crowded.toList :=
    .cons (.name (by decide : IsName "inn")) (List.cons_ne_nil _ _) htab
      (.cons (hsign (notEquals, "!=") (by decide)) (List.cons_ne_nil _ _) hspace
      (.cons (.text hspelled) (List.cons_ne_nil _ _) hspace
      (.cons (hsign (and, "&&") (by decide)) (List.cons_ne_nil _ _) hline
      (.cons (hsign (not, "!") (by decide)) (List.cons_ne_nil _ _) hspace
      (.cons (.reserved (by decide : (isIn, "in") ∈ reserved)) (List.cons_ne_nil _ _) hspace
      (.cons (hsign (greater, ">") (by decide)) (List.cons_ne_nil _ _) hspace
      (.last hnumber)))))))
  exact ⟨hwritten, split_of_written hwritten⟩

end AccessControl.Token
