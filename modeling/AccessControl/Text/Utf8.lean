/-! # Bytes as text

UTF-8 writes a character as one to four bytes.  Where bytes are no character, `readAll` puts one
replacement character in the place of the longest run of bytes that could still have become one, or
of a single byte. -/

namespace AccessControl.Text.Utf8

/-- What stands for bytes that are no character. -/
def replacement : Char := '\ufffd'

/-- The start of a character: its share of the code, how many bytes follow, and the bounds of the
first of them. -/
structure Start where
  share : Nat
  count : Nat
  low : Nat
  high : Nat

/-- The start that a first byte makes. -/
def Start.ofByte? (b : Nat) : Option Start :=
  if b < 0x80 then some ⟨b, 0, 0x80, 0xBF⟩
  else if b < 0xC2 then none
  else if b < 0xE0 then some ⟨b - 0xC0, 1, 0x80, 0xBF⟩
  else if b = 0xE0 then some ⟨0, 2, 0xA0, 0xBF⟩
  else if b = 0xED then some ⟨0xD, 2, 0x80, 0x9F⟩
  else if b < 0xF0 then some ⟨b - 0xE0, 2, 0x80, 0xBF⟩
  else if b = 0xF0 then some ⟨0, 3, 0x90, 0xBF⟩
  else if b < 0xF4 then some ⟨b - 0xF0, 3, 0x80, 0xBF⟩
  else if b = 0xF4 then some ⟨4, 3, 0x80, 0x8F⟩
  else none

/-- The code of a character from the bytes after its first one, unless one of them is out of bounds,
and the bytes that were not taken. -/
def readTail (code count low high : Nat) (bytes : List Nat) : Option Nat × List Nat :=
  match count, bytes with
  | 0, _ => (some code, bytes)
  | _ + 1, [] => (none, [])
  | count + 1, b :: rest =>
    if low ≤ b ∧ b ≤ high then readTail (code * 0x40 + (b - 0x80)) count 0x80 0xBF rest
    else (none, bytes)

/-- The character that starts with a byte, or its replacement, and the bytes after it. -/
def readCharacter (b : Nat) (rest : List Nat) : Char × List Nat :=
  match Start.ofByte? b with
  | none => (replacement, rest)
  | some start =>
    match readTail start.share start.count start.low start.high rest with
    | (some code, rest) => (Char.ofNat code, rest)
    | (none, rest) => (replacement, rest)

theorem length_readTail (code count low high : Nat) (bytes : List Nat) :
    (readTail code count low high bytes).2.length ≤ bytes.length := by
  fun_induction readTail code count low high bytes with
  | case1 => simp
  | case2 => simp
  | case3 code low high count b rest _ ih => simp only [List.length_cons]; omega
  | case4 => simp

theorem length_readCharacter (b : Nat) (rest : List Nat) :
    (readCharacter b rest).2.length ≤ rest.length := by
  unfold readCharacter
  split
  · simp
  · rename_i start _
    have h := length_readTail start.share start.count start.low start.high rest
    split <;> simp_all

/-- The text that bytes are, with replacements where they are none. -/
def readAll (bytes : List Nat) : List Char :=
  match bytes with
  | [] => []
  | b :: rest => (readCharacter b rest).1 :: readAll (readCharacter b rest).2
termination_by bytes.length
decreasing_by
  have := length_readCharacter b rest
  simp only [List.length_cons]
  omega

end AccessControl.Text.Utf8
