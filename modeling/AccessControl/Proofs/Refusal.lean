import AccessControl.Proofs.Grammar

/-! # What reading a condition can come to

A text is read exactly when its tokens derive a condition, which is then the only one that they
derive; and every other text is refused as an invalid condition (`Condition.read_eq_ok_iff`).

For the refusals, every reader is followed through its parts: tokens are cut off the front one at a
time, and whatever a reader does not expect it refuses. -/

namespace AccessControl

/-- The failures that refuse a text as a condition. -/
def IsRefusal (e : Failure) : Prop := ∃ reason, e = .invalidCondition reason

/-! ### Cutting a text into tokens -/

namespace Token

theorem failsOnly_readCode (cs : List Char) : FailsOnly IsRefusal (readCode cs) := by
  unfold readCode
  dsimp only
  split
  · split
    · exact .error ⟨_, rfl⟩
    · split
      · exact .ok _
      · exact .error ⟨_, rfl⟩
  · exact .error ⟨_, rfl⟩

theorem failsOnly_readEscape (c : Char) (rest : List Char) :
    FailsOnly IsRefusal (readEscape c rest) := by
  unfold readEscape
  split
  case h_5 => exact failsOnly_readCode _
  all_goals exact .ok _

theorem failsOnly_readText (cs : List Char) : FailsOnly IsRefusal (readText cs) := by
  fun_induction readText cs with
  | case1 => exact .error ⟨_, rfl⟩
  | case2 => exact .ok _
  | case3 c rest e he => exact .error (failsOnly_readEscape c rest e he)
  | case4 c rest d after he _ ih => exact ih.map _
  | case5 c rest _ _ ih => exact ih.map _

theorem failsOnly_readOne (c : Char) (rest : List Char) : FailsOnly IsRefusal (readOne c rest) := by
  unfold readOne
  split
  case h_16 => exact (failsOnly_readText rest).map _
  case h_17 =>
    dsimp only
    split
    · split
      · exact .ok _
      · exact .error ⟨_, rfl⟩
    · split
      · exact .ok _
      · exact .error ⟨_, rfl⟩
  all_goals first | exact .ok _ | exact .error ⟨_, rfl⟩

/-- A text that cannot be cut into tokens is refused as a condition. -/
theorem failsOnly_split (cs : List Char) : FailsOnly IsRefusal (split cs) := by
  fun_induction split cs with
  | case1 => exact .ok _
  | case2 c rest _ ih => exact ih
  | case3 c rest _ e he => exact .error (failsOnly_readOne c rest e he)
  | case4 c rest _ t after he _ ih => exact ih.map _

end Token

namespace Condition

/-! ### Reading operands -/

theorem failsOnly_refuse {α : Type} (reason : String) :
    FailsOnly IsRefusal (refuse reason : Except Failure α) := .error ⟨reason, rfl⟩

theorem failsOnly_require (t : Token) (description : String) (ts : List Token) :
    FailsOnly IsRefusal (require t description ts) := by
  unfold require
  split
  · exact failsOnly_refuse _
  · split
    · exact .ok _
    · exact failsOnly_refuse _

theorem failsOnly_readSegments (ts : List Token) : FailsOnly IsRefusal (readSegments ts) := by
  fun_induction readSegments ts with
  | case1 name rest ih => exact ih.bind fun _ _ => .ok _
  | case2 => exact failsOnly_refuse _
  | case3 => exact .ok _

theorem failsOnly_readPath (ts : List Token) : FailsOnly IsRefusal (readPath ts) := by
  unfold readPath
  split
  · exact (failsOnly_readSegments _).bind fun _ _ => .ok _
  · exact failsOnly_refuse _

theorem failsOnly_readReference (ts : List Token) : FailsOnly IsRefusal (readReference ts) := by
  refine (failsOnly_readPath ts).bind fun a _ => ?_
  split
  · exact .ok _
  · exact failsOnly_refuse _

theorem failsOnly_readScalar (ts : List Token) : FailsOnly IsRefusal (readScalar ts) := by
  unfold readScalar
  split
  case h_5 => exact failsOnly_refuse _
  all_goals exact .ok _

theorem failsOnly_typeOfWord (word : String) : FailsOnly IsRefusal (typeOfWord word) := by
  unfold typeOfWord
  split
  · exact .ok _
  · split
    · exact .ok _
    · split
      · exact .ok _
      · split
        · exact .ok _
        · exact failsOnly_refuse _

theorem failsOnly_openCast (word : String) (ts : List Token) :
    FailsOnly IsRefusal (openCast word ts) := by
  refine (failsOnly_typeOfWord word).bind fun declared _ => ?_
  exact (failsOnly_require _ _ ts).bind fun _ _ => .ok _

theorem failsOnly_readLiteral (ts : List Token) : FailsOnly IsRefusal (readLiteral ts) := by
  unfold readLiteral
  split
  · refine (failsOnly_openCast _ _).bind fun _ _ => ?_
    refine (failsOnly_readScalar _).bind fun _ _ => ?_
    exact (failsOnly_require _ _ _).bind fun _ _ => .ok _
  · exact (failsOnly_readScalar _).bind fun _ _ => .ok _

theorem failsOnly_readItems : ∀ (count : Nat) (ts : List Token),
    FailsOnly IsRefusal (readItems count ts)
  | 0, _ => failsOnly_refuse _
  | count + 1, ts => by
      refine (failsOnly_readLiteral ts).bind fun a _ => ?_
      dsimp only
      split
      · exact (failsOnly_readItems count _).bind fun _ _ => .ok _
      · exact .ok _
      · exact failsOnly_refuse _

theorem failsOnly_readCast (declared : ValueType) (ts : List Token) :
    FailsOnly IsRefusal (readCast declared ts) := by
  unfold readCast
  split
  · exact (failsOnly_readReference ts).bind fun _ _ => .ok _
  · exact (failsOnly_readScalar ts).bind fun _ _ => .ok _

theorem failsOnly_readOperand (ts : List Token) : FailsOnly IsRefusal (readOperand ts) := by
  unfold readOperand
  split
  · exact failsOnly_refuse _
  · exact (failsOnly_readItems _ _).bind fun _ _ => .ok _
  · exact (failsOnly_readReference _).bind fun _ _ => .ok _
  · refine (failsOnly_openCast _ _).bind fun _ _ => ?_
    refine (failsOnly_readCast _ _).bind fun _ _ => ?_
    exact (failsOnly_require _ _ _).bind fun _ _ => .ok _
  · exact (failsOnly_readLiteral _).bind fun _ _ => .ok _

/-! ### Reading conditions -/

theorem failsOnly_readOperator (field : String) (ts : List Token) :
    FailsOnly IsRefusal (readOperator field ts) := by
  unfold readOperator
  split
  · exact .ok _
  · exact failsOnly_refuse _

theorem failsOnly_readComparison (ts : List Token) : FailsOnly IsRefusal (readComparison ts) := by
  refine (failsOnly_readPath ts).bind fun a _ => ?_
  dsimp only
  split
  · exact failsOnly_refuse _
  · refine (failsOnly_readOperator _ _).bind fun _ _ => ?_
    exact (failsOnly_readOperand _).bind fun _ _ => .ok _

section group
variable {part : List Token → Except Failure (Condition × List Token)}

theorem failsOnly_readMore (hpart : ∀ ts, FailsOnly IsRefusal (part ts)) (sign : Token) :
    ∀ (count : Nat) (ts : List Token), FailsOnly IsRefusal (readMore sign part count ts)
  | 0, _ => .ok _
  | _ + 1, [] => .ok _
  | count + 1, t :: ts => by
      unfold readMore
      split
      · refine (hpart ts).bind fun _ _ => ?_
        exact (failsOnly_readMore hpart sign count _).bind fun _ _ => .ok _
      · exact .ok _

theorem failsOnly_readGroup (hpart : ∀ ts, FailsOnly IsRefusal (part ts)) (sign : Token)
    (join : List Condition → Condition) (ts : List Token) :
    FailsOnly IsRefusal (readGroup sign join part ts) := by
  refine (hpart ts).bind fun _ _ => ?_
  exact (failsOnly_readMore hpart sign _ _).bind fun _ _ => .ok _

end group

theorem failsOnly_readUnary : ∀ (count : Nat) (ts : List Token),
    FailsOnly IsRefusal (readUnary count ts) := by
  intro count
  induction count with
  | zero => exact failsOnly_readComparison
  | succ count ih =>
      intro ts
      unfold readUnary
      split
      · rename_i heq
        cases heq
        exact (ih _).bind fun _ _ => .ok _
      · rename_i heq
        cases heq
        have hinner := failsOnly_readGroup (failsOnly_readGroup ih .and all) .or any
        refine (hinner _).bind fun _ _ => ?_
        exact (failsOnly_require _ _ _).bind fun _ _ => .ok _
      · exact failsOnly_readComparison _

theorem failsOnly_ofTokens (ts : List Token) : FailsOnly IsRefusal (ofTokens ts) := by
  have hdisjunction : FailsOnly IsRefusal (readDisjunction ts) :=
    failsOnly_readGroup (failsOnly_readGroup (failsOnly_readUnary ts.length) .and all) .or any ts
  unfold ofTokens
  split
  · exact failsOnly_refuse _
  · refine hdisjunction.bind fun a _ => ?_
    split
    · exact .ok _
    · exact failsOnly_refuse _

/-! ### The whole reader -/

/-- A text is read as a condition exactly when it is cut into tokens, of which there are some, that
derive the condition.  Tokens derive at most one condition, and a text that is not read is refused as
an invalid condition. -/
theorem read_eq_ok_iff (text : String) :
    (∀ c, read text = .ok c ↔
      ∃ ts, Token.split text.toList = .ok ts ∧ ts ≠ [] ∧ IsGroup .or ts c) ∧
    (∀ ts c d, IsGroup .or ts c → IsGroup .or ts d → c = d) ∧
    ∀ e, read text = .error e → ∃ reason, e = .invalidCondition reason := by
  refine ⟨fun c => ?_, fun ts c d hc hd => ?_, ?_⟩
  · rw [read, bind_eq_ok]
    constructor
    · rintro ⟨ts, hsplit, hread⟩
      have hgroup := ofTokens_eq_ok.mp hread
      exact ⟨ts, hsplit, hgroup.ne_nil, hgroup⟩
    · rintro ⟨ts, hsplit, -, hgroup⟩
      exact ⟨ts, hsplit, ofTokens_eq_ok.mpr hgroup⟩
  · have hread := ofTokens_eq_ok.mpr hc
    rw [ofTokens_eq_ok.mpr hd] at hread
    exact (Except.ok.inj hread).symm
  · exact (Token.failsOnly_split text.toList).bind fun ts _ => failsOnly_ofTokens ts

/-- Records that are open, and those of other teams than the principal's. -/
def openOrForeign : Condition :=
  .any [.compare "open" .equals (.literal (.infer (.boolean true))),
    .not (.compare "team" .equals (.principal "team" .string))]
where
  /-- The tokens of this condition. -/
  tokens : List Token :=
    [.identifier "open", .equals, .yes, .or, .not, .openParen, .identifier "team", .equals,
      .identifier "principal", .dot, .identifier "team", .closeParen]

theorem isGroup_openOrForeign : IsGroup .or openOrForeign.tokens openOrForeign := by
  have hopen : IsComparison [.identifier "open", .equals, .yes]
      (.compare "open" .equals (.literal (.infer (.boolean true)))) :=
    @IsComparison.mk ["open"] .equals _ _ _ (List.cons_ne_nil _ _) (by decide) rfl
      (.literal (.bare .yes))
  have hown : IsComparison
      [.identifier "team", .equals, .identifier "principal", .dot, .identifier "team"]
      (.compare "team" .equals (.principal "team" .string)) :=
    @IsComparison.mk ["team"] .equals _ _ _ (List.cons_ne_nil _ _) (by decide) rfl (.principal "team")
  have hinner := IsGroup.mk (.group (.mk (.unary (.comparison hown)) .nil)) (.nil (j := .or))
  exact IsGroup.mk (.group (.mk (.unary (.comparison hopen)) .nil))
    (.cons (.group (.mk (.unary (.not (.parenthesized hinner))) .nil)) (.nil (j := .or)))

/-- A text with a derivation, and one that is not even cut into tokens. -/
theorem read_eq_ok_iff_openOrForeign :
    read "open == true || !(team == principal.team)" = .ok openOrForeign ∧
      (∀ c, IsGroup .or openOrForeign.tokens c → c = openOrForeign) ∧
      ∃ reason, read "team = 1" = .error (.invalidCondition reason) := by
  obtain ⟨haccept, hunique, -⟩ := read_eq_ok_iff "open == true || !(team == principal.team)"
  obtain ⟨-, -, hrefuse⟩ := read_eq_ok_iff "team = 1"
  have hsplit : Token.split "open == true || !(team == principal.team)".toList =
      .ok openOrForeign.tokens := by cbv
  have hcut : Token.split "team = 1".toList =
      .error (.invalidCondition "unexpected character `=`") := by cbv
  have hread : read "team = 1" = .error (.invalidCondition "unexpected character `=`") := by
    rw [read, hcut]
    rfl
  obtain ⟨reason, hreason⟩ := hrefuse _ hread
  exact ⟨(haccept _).mpr ⟨_, hsplit, List.cons_ne_nil _ _, isGroup_openOrForeign⟩,
    fun c hc => hunique _ _ _ hc isGroup_openOrForeign, reason, hread.trans (congrArg _ hreason)⟩

end Condition
end AccessControl
