import AccessControl.Condition.Text
import AccessControl.Condition.Token

/-! # The grammar of conditions

`Condition.read` reads the text of a condition.  In order of binding strength, a condition is parts
with `||` between them, parts with `&&` between them, a negation, a condition in parentheses, or a
comparison of a dotted path with an operand.

Each reader takes the tokens in front and gives what it read with the tokens that are left.  Depth
and length are bounded by the number of tokens, so a reader that may call itself counts down from
that number; when the count is used up no token is left, and it answers as it does at the end of
the text. -/

namespace AccessControl.Condition

/-- A refusal of the text. -/
def refuse {α : Type} (reason : String) : Except Failure α := .error (.invalidCondition reason)

/-- The tokens after one that has to stand here. -/
def require (t : Token) (description : String) (tokens : List Token) :
    Except Failure (List Token) :=
  match tokens with
  | [] => refuse ("expected " ++ description)
  | first :: rest => if first = t then .ok rest else refuse ("expected " ++ description)

/-! ### Operands -/

/-- The names after the first one of a path, each after a dot. -/
def readSegments : List Token → Except Failure (List String × List Token)
  | .dot :: .identifier name :: rest => do
    let (names, rest) ← readSegments rest
    return (name :: names, rest)
  | .dot :: _ => refuse ("expected identifier after " ++ backquoted ".")
  | tokens => .ok ([], tokens)

def readPath : List Token → Except Failure (List String × List Token)
  | .identifier name :: rest => do
    let (names, rest) ← readSegments rest
    return (name :: names, rest)
  | tokens => refuse ("expected field name, got " ++ Token.describeNext tokens)

/-- The attribute that a reference to the principal names. -/
def readReference (tokens : List Token) : Except Failure (String × List Token) := do
  match ← readPath tokens with
  | (["principal", name], rest) => return (name, rest)
  | (names, _) =>
    refuse ("invalid principal reference " ++ backquoted (joinWith "." names) ++
      " (expected principal.<attribute>)")

/-- A bare value. -/
def readScalar : List Token → Except Failure (Value × List Token)
  | .number x :: rest => .ok (.number x, rest)
  | .text s :: rest => .ok (.string s, rest)
  | .yes :: rest => .ok (.boolean true, rest)
  | .no :: rest => .ok (.boolean false, rest)
  | tokens => refuse ("expected a literal value, got " ++ Token.describeNext tokens)

/-- The type that a word declares. -/
def typeOfWord (word : String) : Except Failure ValueType :=
  if word = "string" then .ok .string
  else if word = "number" then .ok .number
  else if word = "bool" then .ok .boolean
  else if word = "date" then .ok .date
  else refuse ("unexpected identifier " ++ backquoted word ++
    " (field-to-field comparisons are not supported)")

/-- The type that a word declares for what follows in parentheses, and the tokens inside. -/
def openCast (word : String) (rest : List Token) : Except Failure (ValueType × List Token) := do
  let declared ← typeOfWord word
  return (declared, ← require .openParen (backquoted "(" ++ " after " ++ backquoted word) rest)

def closeParenthesis (tokens : List Token) : Except Failure (List Token) :=
  require .closeParen ("closing parenthesis " ++ backquoted ")") tokens

/-- A value with the type declared for it, or with its own. -/
def readLiteral : List Token → Except Failure (Literal × List Token)
  | .identifier word :: rest => do
    let (declared, rest) ← openCast word rest
    let (value, rest) ← readScalar rest
    return (⟨declared, value⟩, ← closeParenthesis rest)
  | tokens => do
    let (value, rest) ← readScalar tokens
    return (.infer value, rest)

/-- The literals of a list up to its closing bracket. -/
def readItems (count : Nat) (tokens : List Token) : Except Failure (List Literal × List Token) :=
  match count with
  | 0 => refuse ("expected a literal value, got " ++ Token.describeNext tokens)
  | count + 1 => do
    let (item, rest) ← readLiteral tokens
    match rest with
    | .comma :: rest =>
      let (items, rest) ← readItems count rest
      return (item :: items, rest)
    | .closeBracket :: rest => return ([item], rest)
    | _ => refuse ("expected " ++ backquoted "," ++ " or " ++ backquoted "]" ++ " in list")

/-- What stands in the parentheses of a cast, on the right side of a comparison. -/
def readCast (declared : ValueType) (tokens : List Token) :
    Except Failure (Operand × List Token) := do
  if tokens.head? = some (.identifier "principal") then
    let (name, rest) ← readReference tokens
    return (.principal name declared, rest)
  else
    let (value, rest) ← readScalar tokens
    return (.literal ⟨declared, value⟩, rest)

def readOperand : List Token → Except Failure (Operand × List Token)
  | .openBracket :: .closeBracket :: _ => refuse (backquoted "in" ++ " needs at least one value")
  | .openBracket :: rest => do
    let (items, rest) ← readItems rest.length rest
    return (.list items, rest)
  | .identifier "principal" :: rest => do
    let (name, rest) ← readReference (.identifier "principal" :: rest)
    return (.principal name .string, rest)
  | .identifier word :: rest => do
    let (declared, rest) ← openCast word rest
    let (operand, rest) ← readCast declared rest
    return (operand, ← closeParenthesis rest)
  | tokens => do
    let (literal, rest) ← readLiteral tokens
    return (.literal literal, rest)

/-! ### Comparisons and groups -/

/-- The operator that a token stands for. -/
def operatorOf? : Token → Option Operator
  | .equals => some .equals
  | .notEquals => some .notEquals
  | .greater => some .greater
  | .less => some .less
  | .isIn => some .isIn
  | .contains => some .contains
  | _ => none

/-- The operator of a comparison whose left side is `field`. -/
def readOperator (field : String) (tokens : List Token) : Except Failure (Operator × List Token) :=
  match tokens.head? >>= operatorOf? with
  | some o => .ok (o, tokens.tail)
  | none => refuse ("expected comparison operator after " ++ backquoted field ++ ", got " ++
      Token.describeNext tokens)

def readComparison (tokens : List Token) : Except Failure (Condition × List Token) := do
  let (names, rest) ← readPath tokens
  let field := joinWith "." names
  if names.head? = some "principal" then
    refuse (backquoted field ++ " must appear on the right-hand side of a comparison")
  let (operator, rest) ← readOperator field rest
  let (operand, rest) ← readOperand rest
  return (.compare field operator operand, rest)

/-- Further parts, each after the sign that joins them. -/
def readMore (sign : Token) (part : List Token → Except Failure (Condition × List Token))
    (count : Nat) (tokens : List Token) : Except Failure (List Condition × List Token) :=
  match count, tokens with
  | count + 1, first :: rest =>
    if first = sign then do
      let (c, rest) ← part rest
      let (more, rest) ← readMore sign part count rest
      return (c :: more, rest)
    else .ok ([], tokens)
  | _, _ => .ok ([], tokens)

/-- Parts with a sign between them, as one condition. -/
def readGroup (sign : Token) (join : List Condition → Condition)
    (part : List Token → Except Failure (Condition × List Token)) (tokens : List Token) :
    Except Failure (Condition × List Token) := do
  let (first, rest) ← part tokens
  let (more, rest) ← readMore sign part rest.length rest
  return (group join first more, rest)

/-- A negation, a condition in parentheses, or a comparison. -/
def readUnary (count : Nat) (tokens : List Token) : Except Failure (Condition × List Token) :=
  match count, tokens with
  | count + 1, .not :: rest => do
    let (inner, rest) ← readUnary count rest
    return (.not inner, rest)
  | count + 1, .openParen :: rest => do
    let (inner, rest) ← readGroup .or any (readGroup .and all (readUnary count)) rest
    return (inner, ← closeParenthesis rest)
  | _, _ => readComparison tokens

/-- A condition at the front of the tokens. -/
def readDisjunction (tokens : List Token) : Except Failure (Condition × List Token) :=
  -- each level takes a token, so that no text has more levels than it has tokens
  readGroup .or any (readGroup .and all (readUnary tokens.length)) tokens

/-- The condition that a whole list of tokens makes. -/
def ofTokens (tokens : List Token) : Except Failure Condition := do
  if tokens.isEmpty then refuse "empty expression"
  match ← readDisjunction tokens with
  | (c, []) => return c
  | (_, t :: _) => refuse ("unexpected trailing token: " ++ t.describe)

/-- The condition that a text denotes. -/
def read (text : String) : Except Failure Condition := do
  ofTokens (← Token.split text.toList)

end AccessControl.Condition
