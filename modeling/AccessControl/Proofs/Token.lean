import AccessControl.Condition.Token
import AccessControl.Proofs.Number
import Mathlib.Data.List.Forall2

/-! # Tokens read back from their texts

`Token.Spans` says of a text which tokens it makes, whatever text follows that does not go on with the
last of them.  Words, signs, numbers, strings and blanks each have a lemma that puts them in front of
a text, so that longer texts are taken apart from left to right.

A string may spell each of its characters in several ways (`Token.Spells`), and the quoted text of a
string is one of them (`Token.spells_escape`).  In the other direction, every token of a text is read
somewhere in the text (`Token.exists_readOne_of_mem_split`), so that the identifiers in what a text
makes are always names (`Token.isName_of_mem_split`). -/

namespace AccessControl.Token

/-! ### Strings -/

/-- The ways to spell a character between quotes: as itself, by a letter after a backslash, or by its
code point in hexadecimal. -/
inductive Spells : Char → List Char → Prop
  | plain {c : Char} (quote : c ≠ '"') (backslash : c ≠ '\\') : Spells c [c]
  | quote : Spells '"' ['\\', '"']
  | backslash : Spells '\\' ['\\', '\\']
  | newline : Spells '\n' ['\\', 'n']
  | tab : Spells '\t' ['\\', 't']
  | carriageReturn : Spells '\r' ['\\', 'r']
  | zero : Spells '\x00' ['\\', '0']
  | code {c : Char} {digits : List Char} (ne : digits ≠ []) (hex : ∀ d ∈ digits, isHexDigit d = true)
      (value : Text.ofDigits 16 digits = c.toNat) :
      Spells c ('\\' :: 'u' :: '\x7b' :: (digits ++ ['\x7d']))

theorem characterOf?_toNat (c : Char) : characterOf? c.toNat = some c := by
  have hvalid : c.toNat.isValidChar := c.valid
  unfold characterOf?
  rw [dif_pos hvalid]
  rfl

theorem readCode_of_digits {c : Char} {digits rest : List Char} (hne : digits ≠ [])
    (hhex : ∀ d ∈ digits, isHexDigit d = true) (hvalue : Text.ofDigits 16 digits = c.toNat) :
    readCode (digits ++ '\x7d' :: rest) = .ok (c, rest) := by
  have hend : isHexDigit '\x7d' = false := by decide
  have htake : (digits ++ '\x7d' :: rest).takeWhile isHexDigit = digits := by
    rw [List.takeWhile_append_of_pos hhex, List.takeWhile_cons, hend]
    simp
  have hdrop : (digits ++ '\x7d' :: rest).dropWhile isHexDigit = '\x7d' :: rest := by
    rw [List.dropWhile_append_of_pos hhex, List.dropWhile_cons, hend]
    simp
  unfold readCode
  simp only [htake, hdrop, List.isEmpty_iff, hne, if_false, hvalue, characterOf?_toNat]

theorem readText_escape {c d : Char} {rest after : List Char}
    (h : readEscape c rest = .ok (d, after)) :
    readText ('\\' :: c :: rest) = (readText after).map fun (s, r) => (d :: s, r) := by
  rw [readText]
  split
  · rename_i e he
    rw [h] at he
    cases he
  · rename_i d' after' he
    rw [h] at he
    cases he
    rfl

theorem readText_plain {c : Char} (hquote : c ≠ '"') (hslash : c ≠ '\\') (rest : List Char) :
    readText (c :: rest) = (readText rest).map fun (s, r) => (c :: s, r) := by
  rw [readText]
  · exact hquote
  · intro d r hc
    exact absurd hc hslash

/-- However a character is spelled, it is read as that character. -/
theorem readText_of_spells {c : Char} {cs : List Char} (h : Spells c cs) (rest : List Char) :
    readText (cs ++ rest) = (readText rest).map fun (s, r) => (c :: s, r) := by
  cases h with
  | plain hquote hslash => exact readText_plain hquote hslash rest
  | quote | backslash | newline | tab | carriageReturn | zero => exact readText_escape rfl
  | code hne hhex hvalue =>
      rename_i digits
      have hescape : readEscape 'u' ('\x7b' :: (digits ++ '\x7d' :: rest)) = .ok (c, rest) :=
        readCode_of_digits hne hhex hvalue
      have hread := readText_escape hescape
      simpa using hread

/-- A string in any spelling of its characters is read up to its closing quote. -/
theorem readText_spelled {s : List Char} {spelled : List (List Char)}
    (h : List.Forall₂ Spells s spelled) (rest : List Char) :
    readText (spelled.flatten ++ '"' :: rest) = .ok (s, rest) := by
  induction h with
  | nil => rw [List.flatten_nil, List.nil_append, readText]
  | cons hc _ ih =>
      rw [List.flatten_cons, List.append_assoc, readText_of_spells hc, ih]
      rfl

theorem isHexDigit_of_mem_hexadecimal {c : Char} : ∀ {n : Nat}, c ∈ Text.hexadecimal n →
    isHexDigit c = true := by
  have digit : ∀ d < 16, isHexDigit (Text.digitChar d) = true := by decide
  intro n
  induction n using Nat.strongRecOn with
  | ind n ih =>
      intro hc
      unfold Text.hexadecimal Text.digitsOf at hc
      by_cases h : n < 16
      · rw [if_pos (Or.inr h), List.mem_singleton] at hc
        rw [hc]
        exact digit n h
      · rw [if_neg (by omega), List.mem_append, List.mem_singleton] at hc
        rcases hc with hc | rfl
        · exact ih (n / 16) (by omega) hc
        · exact digit (n % 16) (Nat.mod_lt n (by decide))

theorem hexadecimal_ne_nil (n : Nat) : Text.hexadecimal n ≠ [] := by
  unfold Text.hexadecimal Text.digitsOf
  split <;> simp

/-- The quoted text of a character spells it. -/
theorem spells_escape (c : Char) : Spells c (Text.escape c) := by
  unfold Text.escape
  split
  · exact .zero
  · exact .tab
  · exact .carriageReturn
  · exact .newline
  · exact .backslash
  · exact .quote
  · rename_i hslash hquote
    split
    · exact .code (hexadecimal_ne_nil _) (fun d hd => isHexDigit_of_mem_hexadecimal hd)
        (Text.ofDigits_digitsOf (by decide) (by decide) c.toNat)
    · exact .plain hquote hslash

theorem readText_escape_flatMap (s rest : List Char) :
    readText (s.flatMap Text.escape ++ '"' :: rest) = .ok (s, rest) := by
  have hspelled : List.Forall₂ Spells s (s.map Text.escape) := by
    induction s with
    | nil => exact .nil
    | cons c s ih => exact .cons (spells_escape c) ih
  rw [List.flatMap_def]
  exact readText_spelled hspelled rest

/-! ### One token -/

/-- The characters with which a sign or a string starts. -/
def marks : List Char := ['.', ',', '(', ')', '[', ']', '=', '!', '>', '<', '&', '|', '"']

/-- What does not start with a mark is a number or a word. -/
theorem readOne_of_not_mark {c : Char} (h : c ∉ marks) (rest : List Char) :
    readOne c rest =
      if startsNumber c rest then
        match Number.read? (c :: rest.takeWhile isNumberCharacter) with
        | some x => .ok (number x, rest.dropWhile isNumberCharacter)
        | none => .error (.invalidCondition ("invalid number " ++
            backquoted (.ofList (c :: rest.takeWhile isNumberCharacter))))
      else if startsWord c then
        .ok (ofWord (.ofList (c :: rest.takeWhile isWordCharacter)),
          rest.dropWhile isWordCharacter)
      else .error (.invalidCondition ("unexpected character " ++ backquoted (String.singleton c))) := by
  simp only [marks, List.mem_cons, List.not_mem_nil, or_false, not_or] at h
  unfold readOne
  split
  case h_17 => rfl
  all_goals simp at h

/-- The characters of words are neither marks nor blanks. -/
theorem not_mark {c : Char} (h : isWordCharacter c = true) : c ∉ marks ∧ isSpace c = false := by
  constructor
  · intro hmem
    simp only [marks, List.mem_cons, List.not_mem_nil, or_false] at hmem
    rcases hmem with rfl | rfl | rfl | rfl | rfl | rfl | rfl | rfl | rfl | rfl | rfl | rfl | rfl <;>
      cases h
  · rw [← Bool.not_eq_true]
    intro hspace
    simp only [isSpace, Bool.or_eq_true, beq_iff_eq] at hspace
    rcases hspace with ((rfl | rfl) | rfl) | rfl <;> cases h

/-- A number is read as far as its digits and points go. -/
theorem readOne_number {c : Char} {cs rest : List Char} {x : Number}
    (hstart : startsNumber c (cs ++ rest) = true) (hcs : ∀ d ∈ cs, isNumberCharacter d = true)
    (hrest : Text.Stops isNumberCharacter rest) (hread : Number.read? (c :: cs) = some x) :
    readOne c (cs ++ rest) = .ok (number x, rest) := by
  have hmark : c ∉ marks := by
    simp only [startsNumber, Bool.or_eq_true, Bool.and_eq_true, beq_iff_eq] at hstart
    rcases hstart with hdigit | ⟨rfl, -⟩
    · exact (not_mark (by simp [isWordCharacter, hdigit])).1
    · decide
  obtain ⟨htake, hdrop⟩ := Text.takeWhile_run hcs hrest
  rw [readOne_of_not_mark hmark, if_pos hstart, htake, hdrop, hread]

/-- A word is read as far as its characters go. -/
theorem readOne_word {c : Char} {cs rest : List Char} (hstart : startsWord c = true)
    (hcs : ∀ d ∈ cs, isWordCharacter d = true) (hrest : Text.Stops isWordCharacter rest) :
    readOne c (cs ++ rest) = .ok (ofWord (.ofList (c :: cs)), rest) := by
  have hmark : c ∉ marks := (not_mark (by simp [isWordCharacter, hstart])).1
  have hletter : startsNumber c (cs ++ rest) = false := by
    simp only [startsWord, Bool.or_eq_true, Bool.and_eq_true, decide_eq_true_eq, beq_iff_eq] at hstart
    have hdigit : Text.isDigit c = false := by
      rw [← Bool.not_eq_true]
      intro hdigit
      simp only [Text.isDigit, Bool.and_eq_true, decide_eq_true_eq] at hdigit
      have hhigh : c.toNat ≤ '9'.toNat := hdigit.2
      have hnine : '9'.toNat = 57 := rfl
      have hsmall : 'a'.toNat = 97 := rfl
      have hcapital : 'A'.toNat = 65 := rfl
      rcases hstart with (⟨hlow, -⟩ | ⟨hlow, -⟩) | rfl
      · have hlow : 'a'.toNat ≤ c.toNat := hlow
        omega
      · have hlow : 'A'.toNat ≤ c.toNat := hlow
        omega
      · have : '_'.toNat = 95 := rfl
        omega
    have hsign : (c == '-') = false := by
      rw [← Bool.not_eq_true, beq_iff_eq]
      rintro rfl
      simp at hstart
    simp [startsNumber, hdigit, hsign]
  obtain ⟨htake, hdrop⟩ := Text.takeWhile_run hcs hrest
  rw [readOne_of_not_mark hmark, hletter, if_neg (by decide), if_pos hstart, htake, hdrop]

/-! ### Several tokens -/

theorem split_space {c : Char} (h : isSpace c = true) (rest : List Char) :
    split (c :: rest) = split rest := by
  rw [split, if_pos h]

theorem split_cons {c : Char} {rest after : List Char} {t : Token} (hspace : isSpace c = false)
    (h : readOne c rest = .ok (t, after)) : split (c :: rest) = (split after).map (t :: ·) := by
  rw [split, if_neg (by simp [hspace])]
  split
  · rename_i e he
    rw [h] at he
    cases he
  · rename_i t' after' he
    rw [h] at he
    cases he
    rfl

/-- Whether a text goes on with neither a word nor a number that stands in front of it. -/
def Breaks (cs : List Char) : Prop :=
  Text.Stops isWordCharacter cs ∧ Text.Stops isNumberCharacter cs

theorem breaks_nil : Breaks [] := ⟨Text.stops_nil _, Text.stops_nil _⟩

theorem breaks_cons {c : Char} (hword : isWordCharacter c = false)
    (hnumber : isNumberCharacter c = false) (rest : List Char) : Breaks (c :: rest) :=
  ⟨Text.stops_cons hword rest, Text.stops_cons hnumber rest⟩

theorem Breaks.append {cs rest : List Char} (h : Breaks cs) (hrest : Breaks rest) :
    Breaks (cs ++ rest) := ⟨h.1.append hrest.1, h.2.append hrest.2⟩

/-- Whether a text makes the given tokens in front of any text that does not go on with its last
word or number. -/
def Spans (cs : List Char) (ts : List Token) : Prop :=
  ∀ rest, Breaks rest → split (cs ++ rest) = (split rest).map (ts ++ ·)

theorem Spans.split_eq {cs : List Char} {ts : List Token} (h : Spans cs ts) : split cs = .ok ts := by
  have hwhole := h [] breaks_nil
  rwa [List.append_nil, split, Except.map, List.append_nil] at hwhole

theorem spans_nil : Spans [] [] := by
  intro rest _
  cases h : split rest <;> simp [h, Except.map]

/-- One text after another that goes on with no word or number of the first. -/
theorem Spans.append {cs ds : List Char} {ts us : List Token} (h : Spans cs ts) (h' : Spans ds us)
    (hds : Breaks ds) : Spans (cs ++ ds) (ts ++ us) := by
  intro rest hrest
  rw [List.append_assoc, h (ds ++ rest) (hds.append hrest), h' rest hrest]
  cases split rest with
  | error e => rfl
  | ok vs => simp [Except.map]

theorem Spans.space {cs : List Char} {ts : List Token} (h : Spans cs ts) : Spans (' ' :: cs) ts := by
  intro rest hrest
  rw [List.cons_append, split_space (by decide), h rest hrest]

/-- A token in front of a text, where `after` is what reading the token leaves. -/
theorem Spans.cons {c : Char} {cs after : List Char} {t : Token} {ts : List Token}
    (h : Spans after ts) (hspace : isSpace c = false)
    (hread : ∀ rest, Breaks rest → readOne c (cs ++ rest) = .ok (t, after ++ rest)) :
    Spans (c :: cs) (t :: ts) := by
  intro rest hrest
  rw [List.cons_append, split_cons hspace (hread rest hrest), h rest hrest]
  cases split rest <;> rfl

/-- A sign that is a token by itself, whatever follows. -/
theorem Spans.mark {c : Char} {cs : List Char} {t : Token} {ts : List Token} (h : Spans cs ts)
    (hspace : isSpace c = false) (hread : ∀ rest, readOne c rest = .ok (t, rest)) :
    Spans (c :: cs) (t :: ts) :=
  h.cons hspace fun rest _ => hread (cs ++ rest)

theorem Spans.text {cs : List Char} {ts : List Token} (h : Spans cs ts) (s : String) :
    Spans ((Text.quote s).toList ++ cs) (.text s :: ts) := by
  have hquote : (Text.quote s).toList ++ cs = '"' :: (s.toList.flatMap Text.escape ++ '"' :: cs) := by
    simp [Text.quote]
  rw [hquote]
  refine h.cons (by decide) fun rest _ => ?_
  have hread := readText_escape_flatMap s.toList (cs ++ rest)
  show (readText _).map _ = _
  rw [List.append_assoc, List.cons_append, hread]
  show Except.ok (Token.text (.ofList s.toList), cs ++ rest) = _
  rw [String.ofList_toList]

/-- The text of a magnitude, with a sign or without. -/
theorem Spans.digits {cs : List Char} {ts : List Token} (h : Spans cs ts) {digits : List Char}
    {m : Magnitude} (hreads : Number.Reads digits m) (negative : Bool)
    (hcs : Text.Stops isNumberCharacter cs) :
    Spans ((if negative then ['-'] else []) ++ digits ++ cs) (.number (.signed negative m) :: ts) := by
  have hread := Number.read?_of_reads hreads negative
  have hall : ∀ d ∈ digits, isNumberCharacter d = true := by
    intro d hd
    rcases hreads.plain.mem d hd with hdigit | rfl
    · simp [isNumberCharacter, hdigit]
    · decide
  obtain ⟨first, hfirst, hdigit⟩ := hreads.plain.head
  obtain ⟨others, rfl⟩ := List.head?_eq_some_iff.mp hfirst
  cases negative with
  | true =>
      show Spans ('-' :: (first :: others ++ cs)) _
      refine h.cons (by decide) fun rest hrest => ?_
      rw [List.append_assoc]
      have hstart : startsNumber '-' (first :: others ++ (cs ++ rest)) = true := by
        simp [startsNumber, hdigit]
      exact readOne_number hstart hall (hcs.append hrest.2) hread
  | false =>
      have hspace : isSpace first = false := (not_mark (by simp [isWordCharacter, hdigit])).2
      show Spans (first :: (others ++ cs)) _
      refine h.cons hspace fun rest hrest => ?_
      rw [List.append_assoc]
      have hstart : startsNumber first (others ++ (cs ++ rest)) = true := by
        simp [startsNumber, hdigit]
      exact readOne_number hstart (fun d hd => hall d (List.mem_cons_of_mem _ hd))
        (hcs.append hrest.2) hread

theorem Spans.number {cs : List Char} {ts : List Token} (h : Spans cs ts) {x : Number}
    (hx : x.isFinite = true) (hcs : Text.Stops isNumberCharacter cs) :
    Spans (x.write.toList ++ cs) (.number x :: ts) := by
  obtain ⟨negative, m, digits, rfl, hreads, hwrite⟩ := Number.exists_toList_write hx
  rw [hwrite]
  exact h.digits hreads negative hcs

/-! ### What is left -/

theorem readCode_suffix {cs rest : List Char} {c : Char} (h : readCode cs = .ok (c, rest)) :
    rest <:+ cs := by
  have hdrop : cs.dropWhile isHexDigit <:+ cs := List.dropWhile_suffix _
  unfold readCode at h
  dsimp only at h
  split at h
  · rename_i r hr
    rw [hr] at hdrop
    split at h
    · cases h
    · split at h <;> cases h
      exact (List.suffix_cons _ _).trans hdrop
  · cases h

theorem readEscape_suffix {c d : Char} {cs rest : List Char} (h : readEscape c cs = .ok (d, rest)) :
    rest <:+ cs := by
  unfold readEscape at h
  split at h
  case h_5 code => exact (readCode_suffix h).trans (List.suffix_cons _ _)
  all_goals
    cases h
    exact List.suffix_refl _

theorem readText_suffix {cs s rest : List Char} (h : readText cs = .ok (s, rest)) : rest <:+ cs := by
  fun_induction readText cs generalizing s rest with
  | case1 => cases h
  | case2 r =>
      cases h
      exact List.suffix_cons _ _
  | case3 => cases h
  | case4 c r d after he _ ih =>
      cases hr : readText after with
      | error e =>
          rw [hr] at h
          cases h
      | ok p =>
          rw [hr] at h
          cases h
          have hescape := (readEscape_suffix he).trans
            ((List.suffix_cons c r).trans (List.suffix_cons '\\' _))
          exact (ih hr).trans hescape
  | case5 c r _ _ ih =>
      cases hr : readText r with
      | error e =>
          rw [hr] at h
          cases h
      | ok p =>
          rw [hr] at h
          cases h
          exact (ih hr).trans (List.suffix_cons _ _)

theorem readOne_suffix {c : Char} {rest after : List Char} {t : Token}
    (h : readOne c rest = .ok (t, after)) : after <:+ rest := by
  unfold readOne at h
  split at h
  case h_16 =>
    cases hr : readText rest with
    | error e =>
        rw [hr] at h
        cases h
    | ok p =>
        rw [hr] at h
        cases h
        exact readText_suffix hr
  case h_17 =>
    dsimp only at h
    split at h <;> split at h <;> cases h <;> exact List.dropWhile_suffix _
  all_goals
    cases h <;> first | exact List.suffix_refl _ | exact List.suffix_cons _ _

/-- Every token of a text is read somewhere in the text. -/
theorem exists_readOne_of_mem_split {cs : List Char} {ts : List Token} (h : split cs = .ok ts)
    {t : Token} (ht : t ∈ ts) :
    ∃ c rest after, c :: rest <:+ cs ∧ readOne c rest = .ok (t, after) := by
  fun_induction split cs generalizing ts with
  | case1 =>
      cases h
      cases ht
  | case2 c rest hspace ih =>
      obtain ⟨d, others, after, hsuffix, hread⟩ := ih h ht
      exact ⟨d, others, after, hsuffix.trans (List.suffix_cons _ _), hread⟩
  | case3 => cases h
  | case4 c rest hspace first after hread hlength ih =>
      cases hafter : split after with
      | error e =>
          rw [hafter] at h
          cases h
      | ok us =>
          rw [hafter] at h
          cases h
          rcases List.mem_cons.mp ht with rfl | ht
          · exact ⟨c, rest, after, List.suffix_refl _, hread⟩
          · obtain ⟨d, others, last, hsuffix, hd⟩ := ih hafter ht
            have hrest := (readOne_suffix hread).trans (List.suffix_cons c rest)
            exact ⟨d, others, last, hsuffix.trans hrest, hd⟩

/-! ### Names -/

/-- The words that are no names. -/
def keywords : List String := ["true", "false", "in", "contains"]

/-- Whether a text consists of letters, digits and underscores and does not start with a digit. -/
structure IsWord (word : String) : Prop where
  start : ∃ c ∈ word.toList.head?, startsWord c = true
  all : ∀ c ∈ word.toList, isWordCharacter c = true

/-- Whether a text is a word that can name a field or an attribute. -/
structure IsName (name : String) : Prop extends IsWord name where
  free : name ∉ keywords

instance (word : String) : Decidable (IsWord word) :=
  decidable_of_iff (word.toList.head?.any startsWord = true ∧ word.toList.all isWordCharacter = true)
    ⟨fun h => ⟨(Option.any_eq_true _ _).mp h.1, List.all_eq_true.mp h.2⟩,
      fun h => ⟨(Option.any_eq_true _ _).mpr h.start, List.all_eq_true.mpr h.all⟩⟩

instance (name : String) : Decidable (IsName name) :=
  decidable_of_iff (IsWord name ∧ name ∉ keywords)
    ⟨fun h => ⟨h.1, h.2⟩, fun h => ⟨h.toIsWord, h.free⟩⟩

theorem ofWord_eq_identifier {word : String} (h : word ∉ keywords) : ofWord word = identifier word := by
  simp only [keywords, List.mem_cons, List.not_mem_nil, or_false, not_or] at h
  simp [ofWord, h]

theorem Spans.word {cs : List Char} {ts : List Token} (h : Spans cs ts) {word : String}
    (hword : IsWord word) (hcs : Text.Stops isWordCharacter cs) :
    Spans (word.toList ++ cs) (ofWord word :: ts) := by
  obtain ⟨first, hfirst, hstart⟩ := hword.start
  obtain ⟨others, hothers⟩ := List.head?_eq_some_iff.mp hfirst
  have hall : ∀ d ∈ others, isWordCharacter d = true := by
    intro d hd
    exact hword.all d (hothers ▸ List.mem_cons_of_mem first hd)
  have hwhole : word = .ofList (first :: others) := by
    rw [← hothers, String.ofList_toList]
  have hspace : isSpace first = false := (not_mark (by simp [isWordCharacter, hstart])).2
  rw [hothers]
  show Spans (first :: (others ++ cs)) _
  refine h.cons hspace fun rest hrest => ?_
  rw [List.append_assoc, readOne_word hstart hall (hcs.append hrest.1), ← hwhole]

theorem Spans.name {cs : List Char} {ts : List Token} (h : Spans cs ts) {name : String}
    (hname : IsName name) (hcs : Text.Stops isWordCharacter cs) :
    Spans (name.toList ++ cs) (identifier name :: ts) := by
  have hspans := h.word hname.toIsWord hcs
  rwa [ofWord_eq_identifier hname.free] at hspans

/-- An identifier that is read is a name. -/
theorem isName_of_readOne {c : Char} {rest after : List Char} {name : String}
    (h : readOne c rest = .ok (identifier name, after)) : IsName name := by
  unfold readOne at h
  split at h
  case h_16 =>
    cases hread : readText rest <;> rw [hread] at h <;> cases h
  case h_17 =>
    dsimp only at h
    split at h
    · split at h <;> cases h
    · split at h
      · rename_i hstart
        obtain ⟨htoken, -⟩ := Prod.mk.inj (Except.ok.inj h)
        have hname : (String.ofList (c :: rest.takeWhile isWordCharacter)) = name ∧
            name ∉ keywords := by
          unfold ofWord at htoken
          split at htoken
          · cases htoken
          split at htoken
          · cases htoken
          split at htoken
          · cases htoken
          split at htoken
          · cases htoken
          cases htoken
          simp_all [keywords]
        obtain ⟨rfl, hfree⟩ := hname
        refine ⟨⟨⟨c, by simp, hstart⟩, fun d hd => ?_⟩, hfree⟩
        rw [String.toList_ofList] at hd
        rcases List.mem_cons.mp hd with rfl | hd
        · simp [isWordCharacter, hstart]
        · exact List.all_eq_true.mp List.all_takeWhile d hd
      · cases h
  all_goals cases h

/-- All identifiers in what a text makes are names. -/
theorem isName_of_mem_split {cs : List Char} {ts : List Token} (h : split cs = .ok ts) :
    ∀ name, identifier name ∈ ts → IsName name := by
  intro name hname
  obtain ⟨c, rest, after, -, hread⟩ := exists_readOne_of_mem_split h hname
  exact isName_of_readOne hread

/-! ### Numbers -/

/-- A number that is read consists of what starts a number and of digits and points. -/
theorem read?_of_readOne {c : Char} {rest after : List Char} {x : Number}
    (h : readOne c rest = .ok (number x, after)) : startsNumber c rest = true ∧
      Number.read? (c :: rest.takeWhile isNumberCharacter) = some x := by
  unfold readOne at h
  split at h
  case h_16 =>
    cases hread : readText rest <;> rw [hread] at h <;> cases h
  case h_17 =>
    dsimp only at h
    split at h
    · rename_i hstart
      split at h
      · rename_i hnumber
        cases h
        exact ⟨hstart, hnumber⟩
      · cases h
    · split at h
      · obtain ⟨htoken, -⟩ := Prod.mk.inj (Except.ok.inj h)
        unfold ofWord at htoken
        split at htoken
        · cases htoken
        split at htoken
        · cases htoken
        split at htoken
        · cases htoken
        split at htoken <;> cases htoken
      · cases h
  all_goals cases h

end AccessControl.Token
