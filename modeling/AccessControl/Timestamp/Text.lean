import AccessControl.Text
import AccessControl.Timestamp

/-! # Timestamps as text

Three ways to write a timestamp: `write` with the fraction in as few groups of three digits as show
it, `writeMilliseconds` in a fixed layout whose texts sort like the times, and `writeMicroseconds`
as a database shows one.  `read?` accepts a full timestamp with an offset from UTC, or a plain
calendar day, which stands for its first moment. -/

namespace AccessControl.Timestamp

/-! ### Writing -/

/-- A year in four digits, with a sign when it needs more or lies before year zero. -/
def writeYear (year : Int) : List Char :=
  if 0 ≤ year ∧ year ≤ 9999 then Text.paddedDecimal 4 year.toNat
  else (if year < 0 then '-' else '+') :: Text.paddedDecimal 4 year.natAbs

def writeDate (d : Date) : List Char :=
  writeYear d.year ++ '-' :: Text.paddedDecimal 2 d.month ++ '-' :: Text.paddedDecimal 2 d.day

def writeClock (t : Timestamp) : List Char :=
  Text.paddedDecimal 2 t.hour ++ ':' :: Text.paddedDecimal 2 t.minute ++
    ':' :: Text.paddedDecimal 2 t.clockSecond

/-- The fraction of a second in three, six or nine digits, or nothing for a whole second. -/
def writeFraction (nanoseconds : Nat) : List Char :=
  if nanoseconds = 0 then []
  else if nanoseconds % 1000000 = 0 then '.' :: Text.paddedDecimal 3 (nanoseconds / 1000000)
  else if nanoseconds % 1000 = 0 then '.' :: Text.paddedDecimal 6 (nanoseconds / 1000)
  else '.' :: Text.paddedDecimal 9 nanoseconds

/-- The full text of a timestamp. -/
def write (t : Timestamp) : String :=
  .ofList (writeDate t.date ++ 'T' :: t.writeClock ++ writeFraction t.fraction ++ "+00:00".toList)

/-- The text of a timestamp cut off after the milliseconds. -/
def writeMilliseconds (t : Timestamp) : String :=
  .ofList (writeDate t.date ++ 'T' :: t.writeClock ++
    '.' :: Text.paddedDecimal 3 (t.fraction / 1000000) ++ ['Z'])

/-- The text of a timestamp cut off after the microseconds. -/
def writeMicroseconds (t : Timestamp) : String :=
  .ofList (writeDate t.date ++ ' ' :: t.writeClock ++
    '.' :: Text.paddedDecimal 6 (t.fraction / 1000) ++ " +00:00".toList)

/-! ### Reading -/

def readDigits? (count : Nat) (cs : List Char) : Option (Nat × List Char) :=
  let digits := cs.take count
  if digits.length = count ∧ digits.all Text.isDigit then
    some (Text.ofDigits 10 digits, cs.drop count)
  else none

def readChar? (c : Char) : List Char → Option (List Char)
  | d :: r => if c = d then some r else none
  | [] => none

/-- The time of day with seconds; a second number 60 is a leap second.  The answer is the second of
the day, the nanoseconds that the leap second adds, and the rest. -/
def readClock? (cs : List Char) : Option (Nat × Nat × List Char) := do
  let (hour, cs) ← readDigits? 2 cs
  let cs ← readChar? ':' cs
  let (minute, cs) ← readDigits? 2 cs
  let cs ← readChar? ':' cs
  let (second, cs) ← readDigits? 2 cs
  guard (hour ≤ 23 ∧ minute ≤ 59 ∧ second ≤ 60)
  let start := hour * 3600 + minute * 60
  if second = 60 then some (start + 59, 1000000000, cs) else some (start + second, 0, cs)

/-- An optional fraction of a second, cut off after nine digits. -/
def readFraction? : List Char → Option (Nat × List Char)
  | '.' :: cs =>
    let digits := cs.takeWhile Text.isDigit
    if digits.isEmpty then none
    else
      let nine := (digits ++ List.replicate 9 '0').take 9
      some (Text.ofDigits 10 nine, cs.dropWhile Text.isDigit)
  | cs => some (0, cs)

/-- An offset from UTC in seconds, which ends the text. -/
def readOffset? : List Char → Option Int
  | ['Z'] | ['z'] => some 0
  | '+' :: cs => readHours? cs
  | '-' :: cs => (readHours? cs).map (- ·)
  | '\u2212' :: cs => (readHours? cs).map (- ·)
  | _ => none
where
  /-- Hours and minutes of an offset. -/
  readHours? (cs : List Char) : Option Int := do
    let (hours, cs) ← readDigits? 2 cs
    let cs ← readChar? ':' cs
    let (minutes, cs) ← readDigits? 2 cs
    guard (hours ≤ 23 ∧ minutes ≤ 59 ∧ cs = [])
    some (hours * 3600 + minutes * 60 : Nat)

/-- A full timestamp: day, `T` or a space, time of day, offset. -/
def readFull? (cs : List Char) : Option Timestamp := do
  let (year, cs) ← readDigits? 4 cs
  let cs ← readChar? '-' cs
  let (month, cs) ← readDigits? 2 cs
  let cs ← readChar? '-' cs
  let (day, cs) ← readDigits? 2 cs
  let cs ← match cs with
    | 'T' :: r | 't' :: r | ' ' :: r => some r
    | _ => none
  let (second, leap, cs) ← readClock? cs
  let (nanosecond, cs) ← readFraction? cs
  let offset ← readOffset? cs
  let date ← Date.ofNumbers? year month day
  if h : second < secondsPerDay ∧ leap + nanosecond < nanosecondRoom then
    some (shift ⟨date, second, leap + nanosecond, h.1, h.2⟩ (-offset))
  else none

/-- At least one and at most `most` digits. -/
def readUpTo? (most : Nat) (cs : List Char) : Option (Nat × List Char) :=
  let digits := (cs.take most).takeWhile Text.isDigit
  if digits.isEmpty then none else some (Text.ofDigits 10 digits, cs.drop digits.length)

/-- A year of up to four digits, or a signed one of any length. -/
def readYear? (cs : List Char) : Option (Int × List Char) :=
  match Text.trimLeft cs with
  | '-' :: r => (readUpTo? r.length r).map fun (n, rest) => (-(n : Int), rest)
  | '+' :: r => (readUpTo? r.length r).map fun (n, rest) => ((n : Int), rest)
  | r => (readUpTo? 4 r).map fun (n, rest) => ((n : Int), rest)

/-- The years for which days are read. -/
def isReadableYear (year : Int) : Bool := -262143 ≤ year && year ≤ 262142

/-- A plain calendar day: year, month and day with blanks allowed before each. -/
def readDay? (cs : List Char) : Option Date := do
  let (year, cs) ← readYear? cs
  let cs ← readChar? '-' cs
  let (month, cs) ← readUpTo? 2 (Text.trimLeft cs)
  let cs ← readChar? '-' cs
  let (day, cs) ← readUpTo? 2 (Text.trimLeft cs)
  guard (cs = [] ∧ isReadableYear year)
  Date.ofNumbers? year month day

/-- The timestamp that a text denotes. -/
def read? (s : String) : Option Timestamp :=
  readFull? s.toList <|> (readDay? s.toList).map midnight

end AccessControl.Timestamp
