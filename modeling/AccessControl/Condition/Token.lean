import AccessControl.Failure
import AccessControl.Number.Text
import AccessControl.Text.Quoted

/-! # The words of conditions

`Token.split` cuts the text of a condition into tokens.  Blanks separate them, a word is an
identifier unless the language keeps it for itself, and a string takes escapes between its quotes,
where a backslash before any other character stands for that character.

`Token.describe` is how a token is shown in a message. -/

namespace AccessControl

/-- A word or sign of the condition language. -/
inductive Token where
  | identifier (name : String)
  | number (x : Number)
  | text (s : String)
  | yes
  | no
  | dot
  | comma
  | openParen
  | closeParen
  | openBracket
  | closeBracket
  | equals
  | notEquals
  | greater
  | less
  | and
  | or
  | not
  | isIn
  | contains
deriving DecidableEq

namespace Token

/-- A token as messages show it. -/
def describe : Token → String
  | identifier name => "Ident(" ++ Text.quote name ++ ")"
  | number x => "Number(" ++ x.writeMarked ++ ")"
  | text s => "Str(" ++ Text.quote s ++ ")"
  | yes => "True"
  | no => "False"
  | dot => "Dot"
  | comma => "Comma"
  | openParen => "LParen"
  | closeParen => "RParen"
  | openBracket => "LBracket"
  | closeBracket => "RBracket"
  | equals => "Eq"
  | notEquals => "Ne"
  | greater => "Gt"
  | less => "Lt"
  | and => "And"
  | or => "Or"
  | not => "Not"
  | isIn => "In"
  | contains => "Contains"

/-- The next token of a list as messages show it. -/
def describeNext : List Token → String
  | [] => "None"
  | t :: _ => "Some(" ++ t.describe ++ ")"

/-! ### Strings -/

def isHexDigit (c : Char) : Bool := (Text.digitValue? c).isSome

/-- The character with a code point, if there is one. -/
def characterOf? (code : Nat) : Option Char :=
  if h : code.isValidChar then some (Char.ofNatAux code h) else none

/-- A code point between braces, after the opening brace. -/
def readCode (cs : List Char) : Except Failure (Char × List Char) :=
  let digits := cs.takeWhile isHexDigit
  let refused : Failure :=
    .invalidCondition ("invalid escape " ++ backquoted ("\\u\x7b" ++ .ofList digits))
  match cs.dropWhile isHexDigit with
  | '\x7d' :: rest =>
    if digits.isEmpty then .error refused
    else match characterOf? (Text.ofDigits 16 digits) with
      | some c => .ok (c, rest)
      | none => .error refused
  | _ => .error refused

/-- The character that an escape stands for, where `c` follows the backslash and `rest` follows
`c`. -/
def readEscape (c : Char) (rest : List Char) : Except Failure (Char × List Char) :=
  match c, rest with
  | 'n', _ => .ok ('\n', rest)
  | 't', _ => .ok ('\t', rest)
  | 'r', _ => .ok ('\r', rest)
  | '0', _ => .ok ('\x00', rest)
  | 'u', '\x7b' :: code => readCode code
  | _, _ => .ok (c, rest)

theorem length_readCode {cs : List Char} {c : Char} {rest : List Char}
    (h : readCode cs = .ok (c, rest)) : rest.length < cs.length := by
  have bound : (cs.dropWhile isHexDigit).length ≤ cs.length := (List.dropWhile_sublist _).length_le
  unfold readCode at h
  dsimp only at h
  split at h
  · next r hr =>
    rw [hr, List.length_cons] at bound
    split at h
    · cases h
    · split at h <;> cases h
      omega
  · cases h

theorem length_readEscape {c d : Char} {cs rest : List Char}
    (h : readEscape c cs = .ok (d, rest)) : rest.length ≤ cs.length := by
  unfold readEscape at h
  split at h
  case h_5 code =>
    have := length_readCode h
    exact Nat.le_trans (Nat.le_of_lt this) (Nat.le_succ _)
  all_goals
    simp only [Except.ok.injEq, Prod.mk.injEq] at h
    obtain ⟨_, rfl⟩ := h
    exact Nat.le_refl _

/-- The characters of a string up to its closing quote, and what follows the quote. -/
def readText (cs : List Char) : Except Failure (List Char × List Char) :=
  match cs with
  | [] => .error (.invalidCondition "unterminated string literal")
  | '"' :: rest => .ok ([], rest)
  | '\\' :: c :: rest =>
    match h : readEscape c rest with
    | .error e => .error e
    | .ok (d, after) =>
      have := length_readEscape h
      (readText after).map fun (s, r) => (d :: s, r)
  | c :: rest => (readText rest).map fun (s, r) => (c :: s, r)
termination_by cs.length
decreasing_by
  · simp only [List.length_cons]
    omega
  · simp

theorem length_readText {cs s rest : List Char} (h : readText cs = .ok (s, rest)) :
    rest.length < cs.length := by
  fun_induction readText cs generalizing s rest with
  | case1 => simp at h
  | case2 r =>
    simp only [Except.ok.injEq, Prod.mk.injEq] at h
    simp [← h.2]
  | case3 => simp at h
  | case4 c r d after he _ ih =>
    cases hr : readText after with
    | error e => simp [hr, Except.map] at h
    | ok p =>
      simp only [hr, Except.map, Except.ok.injEq, Prod.mk.injEq] at h
      have h1 := ih (show readText after = .ok (p.1, p.2) from hr)
      have h2 := length_readEscape he
      rw [← h.2]
      simp only [List.length_cons]
      omega
  | case5 c r _ _ ih =>
    cases hr : readText r with
    | error e => simp [hr, Except.map] at h
    | ok p =>
      simp only [hr, Except.map, Except.ok.injEq, Prod.mk.injEq] at h
      have h1 := ih (show readText r = .ok (p.1, p.2) from hr)
      rw [← h.2]
      simp only [List.length_cons]
      omega

/-! ### Tokens -/

/-- Whether a character separates tokens. -/
def isSpace (c : Char) : Bool := c == ' ' || c == '\t' || c == '\n' || c == '\r'

/-- Whether a character can start an identifier. -/
def startsWord (c : Char) : Bool :=
  ('a' ≤ c && c ≤ 'z') || ('A' ≤ c && c ≤ 'Z') || c == '_'

def isWordCharacter (c : Char) : Bool := startsWord c || Text.isDigit c

/-- Whether a number starts with `c`, given what follows. -/
def startsNumber (c : Char) (rest : List Char) : Bool :=
  Text.isDigit c || (c == '-' && match rest with | d :: _ => Text.isDigit d | [] => false)

/-- Whether a character can go on in a number. -/
def isNumberCharacter (c : Char) : Bool := Text.isDigit c || c == '.'

/-- The token that a word is. -/
def ofWord (word : String) : Token :=
  if word = "true" then yes
  else if word = "false" then no
  else if word = "in" then isIn
  else if word = "contains" then contains
  else identifier word

/-- The token that starts with the character `c`, and the text after it. -/
def readOne (c : Char) (rest : List Char) : Except Failure (Token × List Char) :=
  match c, rest with
  | '.', _ => .ok (dot, rest)
  | ',', _ => .ok (comma, rest)
  | '(', _ => .ok (openParen, rest)
  | ')', _ => .ok (closeParen, rest)
  | '[', _ => .ok (openBracket, rest)
  | ']', _ => .ok (closeBracket, rest)
  | '=', '=' :: r => .ok (equals, r)
  | '!', '=' :: r => .ok (notEquals, r)
  | '!', _ => .ok (not, rest)
  | '>', '=' :: _ =>
    .error (.invalidCondition "operator `>=` is not supported, use `>` or `<`")
  | '<', '=' :: _ =>
    .error (.invalidCondition "operator `<=` is not supported, use `>` or `<`")
  | '>', _ => .ok (greater, rest)
  | '<', _ => .ok (less, rest)
  | '&', '&' :: r => .ok (and, r)
  | '|', '|' :: r => .ok (or, r)
  | '"', _ => (readText rest).map fun (s, r) => (text (.ofList s), r)
  | _, _ =>
    if startsNumber c rest then
      let digits := c :: rest.takeWhile isNumberCharacter
      match Number.read? digits with
      | some x => .ok (number x, rest.dropWhile isNumberCharacter)
      | none => .error (.invalidCondition ("invalid number " ++ backquoted (.ofList digits)))
    else if startsWord c then
      .ok (ofWord (.ofList (c :: rest.takeWhile isWordCharacter)), rest.dropWhile isWordCharacter)
    else .error (.invalidCondition ("unexpected character " ++ backquoted (String.singleton c)))

theorem length_readOne {c : Char} {cs rest : List Char} {t : Token}
    (h : readOne c cs = .ok (t, rest)) : rest.length ≤ cs.length := by
  unfold readOne at h
  split at h
  case h_16 =>
    cases hr : readText cs with
    | error e => simp [hr, Except.map] at h
    | ok p =>
      simp only [hr, Except.map, Except.ok.injEq, Prod.mk.injEq] at h
      rw [← h.2]
      exact Nat.le_of_lt (length_readText (show readText cs = .ok (p.1, p.2) from hr))
  case h_17 =>
    dsimp only at h
    split at h <;> split at h <;> cases h <;> exact (List.dropWhile_sublist _).length_le
  all_goals cases h <;> simp

def split (cs : List Char) : Except Failure (List Token) :=
  match cs with
  | [] => .ok []
  | c :: rest =>
    if isSpace c then split rest
    else match h : readOne c rest with
      | .error e => .error e
      | .ok (t, after) =>
        have := length_readOne h
        (split after).map (t :: ·)
termination_by cs.length
decreasing_by
  · simp
  · simp only [List.length_cons]
    omega

end Token
end AccessControl
