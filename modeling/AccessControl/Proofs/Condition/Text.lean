import AccessControl.Condition
import AccessControl.Proofs.Grammar
import AccessControl.Proofs.Segments
import AccessControl.Proofs.Timestamp.Text
import AccessControl.Proofs.Token

/-! # Conditions read back from their texts

The text of a printable condition denotes its normal form (`Condition.read_write_normal`): groups of
one part give way to the part, and a date comes back as a string that is declared a date.  Groups put
parentheses around groups inside them, so each part of a group is read as one part.

A condition that was read is printable and its own normal form, unless it holds a number that is not
finite, so reading its text gives the same condition again (`Condition.read_write`). -/

namespace AccessControl

/-! ### Printable conditions -/

/-- The literals that have texts of their own: strings, finite numbers and truth values of any declared
type, and dates of the years 0 to 9999 that are declared dates.  Of these years all dates are plain
that are denoted by what is written for them (`Timestamp.read?_write_iff`). -/
inductive Literal.IsPrintable : Literal → Prop
  | string (declared : ValueType) (s : String) : IsPrintable ⟨declared, .string s⟩
  | number (declared : ValueType) {x : Number} (finite : x.isFinite = true) :
      IsPrintable ⟨declared, .number x⟩
  | boolean (declared : ValueType) (b : Bool) : IsPrintable ⟨declared, .boolean b⟩
  | date {t : Timestamp} (plain : t.IsPlain) : IsPrintable ⟨.date, .date t⟩

/-- A literal, a list that is not empty, or an attribute of the principal that a name denotes. -/
inductive Operand.IsPrintable : Operand → Prop
  | literal {l : Literal} (h : l.IsPrintable) : IsPrintable (.literal l)
  | list {items : List Literal} (ne : items ≠ []) (h : ∀ l ∈ items, l.IsPrintable) :
      IsPrintable (.list items)
  | principal {name : String} (h : Token.IsName name) (declared : ValueType) :
      IsPrintable (.principal name declared)

/-- A literal as it comes back from its text. -/
def Literal.normal (l : Literal) : Literal :=
  match l.value with
  | .date t => ⟨.date, .string t.write⟩
  | _ => l

/-- An operand as it comes back from its text. -/
def Operand.normal : Operand → Operand
  | .literal l => .literal l.normal
  | .list items => .list (items.map .normal)
  | .principal name declared => .principal name declared

/-- Whether all numbers of an operand are finite. -/
def Operand.HasFiniteNumbers (operand : Operand) : Prop :=
  ∀ l ∈ operand.literals, ∀ x, l.value = .number x → x.isFinite = true

/-- The token of an operator. -/
def Operator.token : Operator → Token
  | equals => .equals
  | notEquals => .notEquals
  | isIn => .isIn
  | contains => .contains
  | greater => .greater
  | less => .less

namespace Condition

/-- Whether a text is a path of names, the first of which is not the principal. -/
def IsField (field : String) : Prop :=
  ∃ names, names ≠ [] ∧ names.head? ≠ some "principal" ∧ (∀ s ∈ names, Token.IsName s) ∧
    field = joinWith "." names

mutual

/-- Whether all groups of a condition have parts, all its fields are paths, and all its operands have
texts of their own. -/
def IsPrintable : Condition → Prop
  | compare field _ operand => IsField field ∧ operand.IsPrintable
  | all parts => parts ≠ [] ∧ ArePrintable parts
  | any parts => parts ≠ [] ∧ ArePrintable parts
  | not inner => IsPrintable inner

/-- Whether several conditions are printable. -/
def ArePrintable : List Condition → Prop
  | [] => True
  | part :: rest => IsPrintable part ∧ ArePrintable rest

end

mutual

/-- A condition as it comes back from its text. -/
def normal : Condition → Condition
  | compare field operator operand => compare field operator operand.normal
  | all [] => all []
  | any [] => any []
  | all (first :: rest) => group all first.normal (normalParts rest)
  | any (first :: rest) => group any first.normal (normalParts rest)
  | not inner => not inner.normal

/-- The parts of a group as they come back from its text. -/
def normalParts : List Condition → List Condition
  | [] => []
  | part :: rest => part.normal :: normalParts rest

end

/-- Whether all numbers that a condition holds are finite. -/
def HasFiniteNumbers (c : Condition) : Prop := c.Forall fun _ _ operand => operand.HasFiniteNumbers

/-! ### Literals and operands -/

/-- Whether a text makes tokens that a rule of the grammar derives. -/
def Denotes {α : Type} (P : List Token → α → Prop) (text : String) (a : α) : Prop :=
  ∃ us, P us a ∧ Token.Spans text.toList us

theorem Denotes.mono {α β : Type} {P : List Token → α → Prop} {Q : List Token → β → Prop}
    {text : String} {a : α} {b : β} (h : Denotes P text a) (himp : ∀ us, P us a → Q us b) :
    Denotes Q text b := by
  obtain ⟨us, hus, hspans⟩ := h
  exact ⟨us, himp us hus, hspans⟩

open Token (Spans Breaks breaks_nil breaks_cons spans_nil IsName IsWord)

/-- A text in parentheses. -/
theorem spans_parentheses {text : String} {ts : List Token} (h : Spans text.toList ts) :
    Spans ("(" ++ text ++ ")").toList (.openParen :: (ts ++ [.closeParen])) := by
  have hclose : Spans [')'] [.closeParen] := spans_nil.mark (by decide) fun _ => rfl
  have hinner := h.append hclose (breaks_cons (by decide) (by decide) [])
  have hopen := Spans.mark (c := '(') hinner (by decide) fun _ => rfl
  simpa using hopen

theorem spans_name {name : String} (h : IsName name) : Spans name.toList [.identifier name] := by
  have hspans := spans_nil.name h breaks_nil.1
  rwa [List.append_nil] at hspans

theorem isName_typeName (declared : ValueType) : IsName declared.name := by
  cases declared <;> decide

/-- A text in the parentheses of a cast. -/
theorem spans_cast (declared : ValueType) {text : String} {ts : List Token} (h : Spans text.toList ts) :
    Spans (declared.name ++ "(" ++ text ++ ")").toList
      (.identifier declared.name :: .openParen :: (ts ++ [.closeParen])) := by
  have hspans := (spans_name (isName_typeName declared)).append (spans_parentheses h)
    (by simpa using breaks_cons (by decide) (by decide) _)
  simpa using hspans

theorem spans_scalar {t : Token} {v : Value} (h : IsScalar t v)
    (hfinite : ∀ x, v = .number x → x.isFinite = true) : Spans v.write.toList [t] := by
  cases h with
  | number x =>
      have hspans := spans_nil.number (hfinite x rfl) breaks_nil.2
      rwa [List.append_nil] at hspans
  | text s =>
      have hspans := spans_nil.text s
      rwa [List.append_nil] at hspans
  | yes =>
      have hword : IsWord "true" := by decide
      exact spans_nil.word hword breaks_nil.1
  | no =>
      have hword : IsWord "false" := by decide
      exact spans_nil.word hword breaks_nil.1

/-- A literal stands bare when it is declared with its own type, and in a cast otherwise. -/
theorem denotes_scalar {t : Token} {v : Value} (declared : ValueType) (h : IsScalar t v)
    (hfinite : ∀ x, v = .number x → x.isFinite = true) :
    Denotes IsLiteral (Literal.write ⟨declared, v⟩) ⟨declared, v⟩ := by
  have hspans := spans_scalar h hfinite
  have hwrite : Literal.write ⟨declared, v⟩ =
      if Literal.naturalType? v = some declared then v.write
      else declared.name ++ "(" ++ v.write ++ ")" := by
    cases h <;> rfl
  rw [hwrite]
  split
  · rename_i hnatural
    have hinfer : Literal.infer v = ⟨declared, v⟩ := by
      unfold Literal.infer
      rw [hnatural]
      rfl
    exact ⟨[t], hinfer ▸ .bare h, hspans⟩
  · exact ⟨_, .cast declared h, spans_cast declared hspans⟩

theorem denotes_literal {l : Literal} (h : l.IsPrintable) : Denotes IsLiteral l.write l.normal := by
  cases h with
  | string declared s =>
      exact denotes_scalar declared (.text s) fun x hx => by cases hx
  | @number declared x finite =>
      refine denotes_scalar declared (.number x) fun y hy => ?_
      cases hy
      exact finite
  | boolean declared b =>
      cases b with
      | true => exact denotes_scalar declared .yes fun x hx => by cases hx
      | false => exact denotes_scalar declared .no fun x hx => by cases hx
  | @date t plain =>
      have hscalar : IsScalar (.text t.write) (.string t.write) := .text t.write
      have hspans := spans_scalar hscalar fun x hx => by cases hx
      have hwrite : Literal.write ⟨.date, .date t⟩ =
          ValueType.date.name ++ "(" ++ Value.write (.string t.write) ++ ")" := rfl
      rw [hwrite]
      exact ⟨_, .cast .date hscalar, spans_cast .date hspans⟩

theorem denotes_items : ∀ {items : List Literal}, items ≠ [] → (∀ l ∈ items, l.IsPrintable) →
    Denotes IsItems (joinWith ", " (items.map (·.write))) (items.map .normal)
  | [], hne, _ => absurd rfl hne
  | [l], _, h => (denotes_literal (h l List.mem_cons_self)).mono fun _ hus => .one hus
  | l :: m :: items, _, h => by
      obtain ⟨hl, hrest⟩ := List.forall_mem_cons.mp h
      obtain ⟨us, hus, hspans⟩ := denotes_literal hl
      obtain ⟨vs, hvs, hothers⟩ := denotes_items (List.cons_ne_nil m items) hrest
      refine ⟨us ++ .comma :: vs, .more hus hvs, ?_⟩
      rw [List.map_cons, List.map_cons, toList_joinWith_cons, List.append_assoc]
      have hcomma := Spans.mark (c := ',') hothers.space (by decide) fun _ => rfl
      exact hspans.append hcomma (breaks_cons (by decide) (by decide) _)

/-- Names with dots between them make a path. -/
theorem spans_path {first : String} {rest : List String} (hfirst : IsName first)
    (hrest : ∀ s ∈ rest, IsName s) :
    Spans (joinWith "." (first :: rest)).toList (pathTokens (first :: rest)) := by
  have hmore : Spans (rest.flatMap fun s => ".".toList ++ s.toList)
      (rest.flatMap fun s => [.dot, .identifier s]) ∧
      Text.Stops Token.isWordCharacter (rest.flatMap fun s => ".".toList ++ s.toList) := by
    induction rest with
    | nil => exact ⟨spans_nil, breaks_nil.1⟩
    | cons s rest ih =>
        obtain ⟨hs, hrest⟩ := List.forall_mem_cons.mp hrest
        obtain ⟨hspans, hstops⟩ := ih hrest
        have hdot := Spans.mark (c := '.') (hspans.name hs hstops) (by decide) fun _ => rfl
        exact ⟨hdot, Text.stops_cons (by decide) _⟩
  rw [toList_joinWith_flatMap]
  exact hmore.1.name hfirst hmore.2

theorem denotes_operand {operand : Operand} (h : operand.IsPrintable) :
    Denotes IsOperand operand.write operand.normal := by
  cases h with
  | literal hl => exact (denotes_literal hl).mono fun _ hus => .literal hus
  | list hne hitems =>
      obtain ⟨us, hus, hspans⟩ := denotes_items hne hitems
      refine ⟨_, .list hus, ?_⟩
      have hclose : Spans [']'] [.closeBracket] := spans_nil.mark (by decide) fun _ => rfl
      have hinner := hspans.append hclose (breaks_cons (by decide) (by decide) [])
      have hopen := Spans.mark (c := '[') hinner (by decide) fun _ => rfl
      simpa [Operand.write] using hopen
  | @principal name hname declared =>
      have hprincipal : IsName "principal" := by decide
      have hpath := spans_path hprincipal fun s hs => List.mem_singleton.mp hs ▸ hname
      have htext : joinWith "." ["principal", name] = "principal." ++ name := by
        simp [joinWith]
      rw [htext] at hpath
      have hcast := spans_cast declared hpath
      cases declared with
      | string => exact ⟨_, .principal name, hpath⟩
      | number | boolean | date => exact ⟨_, .cast _ name, by simpa [Operand.write] using hcast⟩

/-! ### Comparisons and groups -/

/-- An operator with a blank after it. -/
theorem spans_operator (operator : Operator) {cs : List Char} {ts : List Token} (h : Spans cs ts) :
    Spans (operator.symbol.toList ++ ' ' :: cs) (operator.token :: ts) := by
  have hblank : Text.Stops Token.isWordCharacter (' ' :: cs) := Text.stops_cons (by decide) cs
  cases operator with
  | equals | notEquals => exact h.space.cons (by decide) fun _ _ => rfl
  | isIn =>
      have hword : IsWord "in" := by decide
      exact h.space.word hword hblank
  | contains =>
      have hword : IsWord "contains" := by decide
      exact h.space.word hword hblank
  | greater | less => exact h.space.cons (by decide) fun _ _ => rfl

theorem denotes_comparison {field : String} {operand : Operand} (operator : Operator)
    (hfield : IsField field) (hoperand : operand.IsPrintable) :
    Denotes IsComparison (write (.compare field operator operand))
      (.compare field operator operand.normal) := by
  obtain ⟨names, hne, hhead, hnames, rfl⟩ := hfield
  obtain ⟨us, hus, hspans⟩ := denotes_operand hoperand
  have hsign : operatorOf? operator.token = some operator := by cases operator <;> rfl
  refine ⟨_, .mk hne hhead hsign hus, ?_⟩
  cases names with
  | nil => exact absurd rfl hne
  | cons first rest =>
      obtain ⟨hfirst, hrest⟩ := List.forall_mem_cons.mp hnames
      have hright := (spans_operator operator hspans).space
      have hleft := (spans_path hfirst hrest).append hright (breaks_cons (by decide) (by decide) _)
      simpa [write] using hleft

/-- What stands between the parts of a group. -/
def Junction.separator : Junction → String
  | and => " && "
  | or => " || "

theorem spans_separator (j : Junction) {cs : List Char} {ts : List Token} (h : Spans cs ts) :
    Spans (j.separator.toList ++ cs) (j.sign :: ts) := by
  cases j with
  | and => exact Spans.space (h.space.cons (by decide) fun _ _ => rfl)
  | or => exact Spans.space (h.space.cons (by decide) fun _ _ => rfl)

theorem IsUnary.toPart {us : List Token} {c : Condition} (h : IsUnary us c) :
    ∀ j, IsPart j us c
  | .and => .unary h
  | .or => by
      have hgroup : IsGroup .and (us ++ []) (group Junction.and.join c []) := .mk (.unary h) .nil
      rw [List.append_nil] at hgroup
      exact .group hgroup

/-- A part by itself, or a group, is a condition. -/
theorem IsGroup.toDisjunction {us : List Token} {c : Condition} :
    ∀ {j : Junction}, IsGroup j us c → IsGroup .or us c
  | .or, h => h
  | .and, h => by
      have hgroup : IsGroup .or (us ++ []) (group Junction.or.join c []) := .mk (.group h) .nil
      rwa [List.append_nil] at hgroup

/-- Texts of further parts, each after a separator. -/
theorem denotes_more (j : Junction) {texts : List String} {cs : List Condition}
    (h : List.Forall₂ (Denotes IsUnary) texts cs) :
    ∃ us, IsMore j us cs ∧ Spans (texts.flatMap fun s => j.separator.toList ++ s.toList) us ∧
      Breaks (texts.flatMap fun s => j.separator.toList ++ s.toList) := by
  induction h with
  | nil => exact ⟨[], .nil, spans_nil, breaks_nil⟩
  | cons hpart _ ih =>
      obtain ⟨ts, hts, htext⟩ := hpart
      obtain ⟨us, hus, htexts, hbreaks⟩ := ih
      refine ⟨_, .cons (hts.toPart j) hus, ?_, ?_⟩
      · rw [List.flatMap_cons, List.append_assoc]
        exact spans_separator j (htext.append htexts hbreaks)
      · cases j <;> exact breaks_cons (by decide) (by decide) _

/-- Texts of parts with a separator between them make a group. -/
theorem denotes_group (j : Junction) {text : String} {c : Condition} {texts : List String}
    {cs : List Condition} (h : Denotes IsUnary text c)
    (hmore : List.Forall₂ (Denotes IsUnary) texts cs) :
    Denotes (IsGroup j) (joinWith j.separator (text :: texts)) (group j.join c cs) := by
  obtain ⟨ts, hts, htext⟩ := h
  obtain ⟨us, hus, htexts, hbreaks⟩ := denotes_more j hmore
  refine ⟨ts ++ us, .mk (hts.toPart j) hus, ?_⟩
  rw [toList_joinWith_flatMap]
  exact htext.append htexts hbreaks

theorem Denotes.toDisjunction {text : String} {c : Condition} (h : Denotes IsUnary text c) :
    Denotes (IsGroup .or) text c := denotes_group .or h .nil

theorem Denotes.parentheses {text : String} {c : Condition} (h : Denotes (IsGroup .or) text c) :
    Denotes IsUnary ("(" ++ text ++ ")") c := by
  obtain ⟨us, hus, hspans⟩ := h
  exact ⟨_, .parenthesized hus, spans_parentheses hspans⟩

/-- A sign of negation, unless it makes another sign with what follows. -/
theorem Denotes.negation {text : String} {c : Condition} (h : Denotes IsUnary text c) {first : Char}
    (hfirst : first ∈ text.toList.head?) (hne : first ≠ '=') :
    Denotes IsUnary ("!" ++ text) (.not c) := by
  obtain ⟨us, hus, hspans⟩ := h
  obtain ⟨cs, hcs⟩ := List.head?_eq_some_iff.mp hfirst
  have hread : ∀ rest, Token.readOne '!' (first :: cs ++ rest) = .ok (.not, first :: cs ++ rest) := by
    intro rest
    unfold Token.readOne
    split <;> simp_all
  refine ⟨.not :: us, .not hus, ?_⟩
  rw [hcs] at hspans
  have hsign := Spans.cons (c := '!') hspans (by decide) fun rest _ => hread rest
  simpa [hcs] using hsign

/-! ### Conditions -/

/-- Below a negation stands another one, or anything else in parentheses. -/
theorem denotes_negated {c d : Condition} (hwhole : Denotes (IsGroup .or) c.write d)
    (hpart : Denotes IsUnary (parenthesized c c.write) d) :
    Denotes IsUnary (negated c c.write) (.not d) := by
  have hparentheses : Denotes IsUnary ("!(" ++ c.write ++ ")") (.not d) := by
    have hopen : '(' ∈ ("(" ++ c.write ++ ")").toList.head? := by simp
    have hnot := hwhole.parentheses.negation hopen (by decide)
    rwa [← String.append_assoc, ← String.append_assoc] at hnot
  cases c with
  | compare _ _ _ | all _ | any _ => exact hparentheses
  | not inner =>
      have hsign : '!' ∈ (write (.not inner)).toList.head? := by
        cases inner <;> simp [write, negated]
      exact hpart.negation hsign (by decide)

mutual

/-- The text of a printable condition makes its normal form, and so does its text as a part of a
group. -/
theorem denotes_normal : ∀ c : Condition, c.IsPrintable →
    Denotes (IsGroup .or) c.write c.normal ∧ Denotes IsUnary (parenthesized c c.write) c.normal
  | .compare _ operator _, h => by
      have hunary : Denotes IsUnary _ _ :=
        (denotes_comparison operator h.1 h.2).mono fun _ hus => .comparison hus
      exact ⟨hunary.toDisjunction, hunary⟩
  | .all [], h => absurd rfl h.1
  | .any [], h => absurd rfl h.1
  | .all (first :: rest), h => by
      have hgroup := denotes_group .and (denotes_normal first h.2.1).2 (denotes_normalParts rest h.2.2)
      have hwhole := hgroup.mono fun _ hus => hus.toDisjunction
      exact ⟨hwhole, hwhole.parentheses⟩
  | .any (first :: rest), h => by
      have hwhole := denotes_group .or (denotes_normal first h.2.1).2 (denotes_normalParts rest h.2.2)
      exact ⟨hwhole, hwhole.parentheses⟩
  | .not inner, h => by
      obtain ⟨hwhole, hpart⟩ := denotes_normal inner h
      have hunary := denotes_negated hwhole hpart
      exact ⟨hunary.toDisjunction, hunary⟩

/-- The texts of parts make their normal forms. -/
theorem denotes_normalParts : ∀ parts : List Condition, ArePrintable parts →
    List.Forall₂ (Denotes IsUnary) (writeParts parts) (normalParts parts)
  | [], _ => .nil
  | part :: rest, h => .cons (denotes_normal part h.1).2 (denotes_normalParts rest h.2)

end

theorem Denotes.read_eq {text : String} {c : Condition} (h : Denotes (IsGroup .or) text c) :
    read text = .ok c := by
  obtain ⟨us, hus, hspans⟩ := h
  unfold read
  rw [hspans.split_eq, ok_bind]
  exact ofTokens_eq_ok.mpr hus

/-- The text of a printable condition denotes its normal form. -/
theorem read_write_normal {c : Condition} (h : c.IsPrintable) : read c.write = .ok c.normal :=
  (denotes_normal c h).1.read_eq

/-- Cases of the principal without credit, and those that are due. -/
def owedOrDue : Condition :=
  .any [.all [.any [.compare "owner" .equals (.principal "name" .string)],
      .not (.all [.compare "balance" .greater (.literal ⟨.number, .number (.signed true .zero)⟩)])],
    .all [.compare "due" .isIn (.list [⟨.date, .date leapDay⟩, ⟨.date, .string "2024-03-01"⟩])]]
where
  /-- The start of a leap day. -/
  leapDay : Timestamp := .midnight ⟨2024, 2, 29, by decide, by decide⟩

theorem isField_name {name : String} (h : IsName name) (hne : name ≠ "principal") : IsField name :=
  ⟨[name], List.cons_ne_nil _ _, fun heq => hne (Option.some.inj heq),
    fun _ hs => List.mem_singleton.mp hs ▸ h, rfl⟩

theorem isPrintable_owedOrDue : owedOrDue.IsPrintable := by
  have howner : IsField "owner" := isField_name (by decide) (by decide)
  have hname : IsName "name" := by decide
  have hbalance : IsField "balance" := isField_name (by decide) (by decide)
  have hdue : IsField "due" := isField_name (by decide) (by decide)
  have hcredit : Literal.IsPrintable ⟨.number, .number (.signed true .zero)⟩ := .number .number rfl
  have hday : Literal.IsPrintable ⟨.date, .date owedOrDue.leapDay⟩ := .date ⟨by decide, by decide⟩
  have hdates : Operand.IsPrintable
      (.list [⟨.date, .date owedOrDue.leapDay⟩, ⟨.date, .string "2024-03-01"⟩]) :=
    .list (List.cons_ne_nil _ _) (by simp [hday, Literal.IsPrintable.string])
  simp [owedOrDue, IsPrintable, ArePrintable, howner, hbalance, hdue, hdates,
    Operand.IsPrintable.principal hname, Operand.IsPrintable.literal hcredit]

/-! ### Conditions that were read -/

theorem IsScalar.isPrintable {t : Token} {v : Value} (h : IsScalar t v)
    (hfinite : ∀ x, v = .number x → x.isFinite = true) (declared : ValueType) :
    Literal.IsPrintable ⟨declared, v⟩ ∧ Literal.normal ⟨declared, v⟩ = ⟨declared, v⟩ := by
  cases h with
  | number x => exact ⟨.number declared (hfinite x rfl), rfl⟩
  | text s => exact ⟨.string declared s, rfl⟩
  | yes => exact ⟨.boolean declared true, rfl⟩
  | no => exact ⟨.boolean declared false, rfl⟩

theorem IsLiteral.isPrintable {us : List Token} {l : Literal} (h : IsLiteral us l)
    (hfinite : ∀ x, l.value = .number x → x.isFinite = true) : l.IsPrintable ∧ l.normal = l := by
  cases h with
  | bare hv => exact hv.isPrintable hfinite _
  | cast declared hv => exact hv.isPrintable hfinite declared

theorem IsItems.isPrintable {us : List Token} {items : List Literal} (h : IsItems us items)
    (hfinite : ∀ l ∈ items, ∀ x, l.value = .number x → x.isFinite = true) :
    items ≠ [] ∧ (∀ l ∈ items, l.IsPrintable) ∧ items.map .normal = items := by
  induction h with
  | one hl =>
      obtain ⟨hprintable, hnormal⟩ := hl.isPrintable (hfinite _ List.mem_cons_self)
      simp [hprintable, hnormal]
  | more hl _ ih =>
      obtain ⟨hfirst, hrest⟩ := List.forall_mem_cons.mp hfinite
      obtain ⟨hprintable, hnormal⟩ := hl.isPrintable hfirst
      obtain ⟨-, hothers, hnormals⟩ := ih hrest
      refine ⟨List.cons_ne_nil _ _, List.forall_mem_cons.mpr ⟨hprintable, hothers⟩, ?_⟩
      rw [List.map_cons, hnormal, hnormals]

theorem IsOperand.isPrintable {us : List Token} {operand : Operand} (h : IsOperand us operand)
    (hnames : ∀ name, .identifier name ∈ us → IsName name)
    (hfinite : operand.HasFiniteNumbers) : operand.IsPrintable ∧ operand.normal = operand := by
  cases h with
  | literal hl =>
      obtain ⟨hprintable, hnormal⟩ := hl.isPrintable (hfinite _ List.mem_cons_self)
      exact ⟨.literal hprintable, congrArg _ hnormal⟩
  | list hitems =>
      obtain ⟨hne, hprintable, hnormal⟩ := hitems.isPrintable hfinite
      exact ⟨.list hne hprintable, congrArg _ hnormal⟩
  | principal name => exact ⟨.principal (hnames name (by simp [pathTokens])) .string, rfl⟩
  | cast declared name => exact ⟨.principal (hnames name (by simp [pathTokens])) declared, rfl⟩

theorem mem_pathTokens {name : String} {names : List String} (h : name ∈ names) :
    .identifier name ∈ pathTokens names := by
  cases names with
  | nil => cases h
  | cons first rest =>
      rcases List.mem_cons.mp h with rfl | h
      · exact List.mem_cons_self
      · exact List.mem_cons_of_mem _ (List.mem_flatMap.mpr ⟨name, h, by simp⟩)

theorem IsComparison.isPrintable {us : List Token} {c : Condition} (h : IsComparison us c)
    (hnames : ∀ name, .identifier name ∈ us → IsName name) (hfinite : c.HasFiniteNumbers) :
    c.IsPrintable ∧ c.normal = c := by
  cases h with
  | @mk names t operator ts operand hne hfield hsign hright =>
      have hpath : ∀ s ∈ names, IsName s :=
        fun s hs => hnames s (List.mem_append_left _ (mem_pathTokens hs))
      obtain ⟨hprintable, hnormal⟩ := hright.isPrintable
        (fun name hname => hnames name (List.mem_append_right _ (List.mem_cons_of_mem t hname))) hfinite
      exact ⟨⟨⟨names, hne, hfield, hpath, rfl⟩, hprintable⟩, congrArg _ hnormal⟩

/-- Groups of conditions that are their own normal forms are their own normal forms. -/
theorem isPrintable_group (j : Junction) {c : Condition} {cs : List Condition}
    (hc : c.IsPrintable ∧ c.normal = c) (hcs : ArePrintable cs ∧ normalParts cs = cs) :
    (group j.join c cs).IsPrintable ∧ (group j.join c cs).normal = group j.join c cs := by
  cases cs with
  | nil => exact hc
  | cons d cs =>
      have hprintable : (j.join (c :: d :: cs)).IsPrintable := by
        cases j <;> exact ⟨List.cons_ne_nil _ _, hc.1, hcs.1⟩
      have hnormal : (j.join (c :: d :: cs)).normal = group j.join c.normal (normalParts (d :: cs)) := by
        cases j <;> rfl
      rw [hc.2, hcs.2] at hnormal
      exact ⟨hprintable, hnormal⟩

theorem forall_group {P : String → Operator → Operand → Prop} (j : Junction) {c : Condition}
    {cs : List Condition} : Forall P (group j.join c cs) ↔ Forall P c ∧ ForallParts P cs := by
  cases cs with
  | nil => simp [group, ForallParts]
  | cons d cs => cases j <;> exact Iff.rfl

mutual

theorem IsUnary.isPrintable : ∀ {us : List Token} {c : Condition}, IsUnary us c →
    (∀ name, .identifier name ∈ us → IsName name) → c.HasFiniteNumbers →
      c.IsPrintable ∧ c.normal = c
  | _, _, .comparison h, hnames, hfinite => h.isPrintable hnames hfinite
  | _, _, .not h, hnames, hfinite => by
      obtain ⟨hprintable, hnormal⟩ :=
        h.isPrintable (fun name hname => hnames name (List.mem_cons_of_mem _ hname)) hfinite
      exact ⟨hprintable, congrArg _ hnormal⟩
  | _, _, .parenthesized h, hnames, hfinite =>
      h.isPrintable (fun name hname => hnames name (by simp [hname])) hfinite

theorem IsPart.isPrintable : ∀ {j : Junction} {us : List Token} {c : Condition}, IsPart j us c →
    (∀ name, .identifier name ∈ us → IsName name) → c.HasFiniteNumbers →
      c.IsPrintable ∧ c.normal = c
  | _, _, _, .unary h, hnames, hfinite => h.isPrintable hnames hfinite
  | _, _, _, .group h, hnames, hfinite => h.isPrintable hnames hfinite

theorem IsGroup.isPrintable : ∀ {j : Junction} {us : List Token} {c : Condition}, IsGroup j us c →
    (∀ name, .identifier name ∈ us → IsName name) → c.HasFiniteNumbers →
      c.IsPrintable ∧ c.normal = c
  | j, _, _, .mk first more, hnames, hfinite => by
      obtain ⟨hfirst, hmore⟩ := (forall_group j).mp hfinite
      exact isPrintable_group j
        (first.isPrintable (fun name hname => hnames name (List.mem_append_left _ hname)) hfirst)
        (more.arePrintable (fun name hname => hnames name (List.mem_append_right _ hname)) hmore)

theorem IsMore.arePrintable : ∀ {j : Junction} {us : List Token} {cs : List Condition}, IsMore j us cs →
    (∀ name, .identifier name ∈ us → IsName name) →
      ForallParts (fun _ _ operand => operand.HasFiniteNumbers) cs →
        ArePrintable cs ∧ normalParts cs = cs
  | _, _, _, .nil, _, _ => ⟨trivial, rfl⟩
  | _, _, _, .cons part more, hnames, hfinite => by
      obtain ⟨hprintable, hnormal⟩ :=
        part.isPrintable (fun name hname => hnames name (by simp [hname])) hfinite.1
      obtain ⟨hothers, hnormals⟩ :=
        more.arePrintable (fun name hname => hnames name (by simp [hname])) hfinite.2
      exact ⟨⟨hprintable, hothers⟩, by rw [normalParts, hnormal, hnormals]⟩

end

/-- A condition that was read, all numbers of which are finite, is what its text denotes. -/
theorem read_write {text : String} {c : Condition} (h : read text = .ok c)
    (hfinite : c.HasFiniteNumbers) : read c.write = .ok c := by
  obtain ⟨ts, hsplit, hgroup⟩ := bind_eq_ok.mp h
  obtain ⟨hprintable, hnormal⟩ :=
    (ofTokens_eq_ok.mp hgroup).isPrintable (Token.isName_of_mem_split hsplit) hfinite
  rw [read_write_normal hprintable, hnormal]

/-- A text with parentheses to spare is displayed with those that are needed, and denotes the same. -/
theorem read_write_owedOrDue :
    read ("((owner == principal.name) && !(balance > -0)) || " ++
        "(due in [date(\"2024-02-29T00:00:00+00:00\"), date(\"2024-03-01\")])") = .ok owedOrDue.normal ∧
      owedOrDue.normal.HasFiniteNumbers ∧ read owedOrDue.normal.write = .ok owedOrDue.normal ∧
      owedOrDue.normal.write = "(owner == principal.name && !(balance > -0)) || " ++
        "due in [date(\"2024-02-29T00:00:00+00:00\"), date(\"2024-03-01\")]" := by
  have htext : owedOrDue.write = "((owner == principal.name) && !(balance > -0)) || " ++
      "(due in [date(\"2024-02-29T00:00:00+00:00\"), date(\"2024-03-01\")])" := by decide +kernel
  have hread : read owedOrDue.write = .ok owedOrDue.normal := read_write_normal isPrintable_owedOrDue
  have hzero : (Number.signed true .zero).isFinite = true := rfl
  have hfinite : owedOrDue.normal.HasFiniteNumbers := by
    simp [owedOrDue, normal, normalParts, group, Operand.normal, Literal.normal, HasFiniteNumbers,
      Forall, ForallParts, Operand.HasFiniteNumbers, Operand.literals, hzero]
  have hback := read_write hread hfinite
  rw [htext] at hread
  exact ⟨hread, hfinite, hback, by decide +kernel⟩

end Condition
end AccessControl
