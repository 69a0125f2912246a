import AccessControl.Condition
import AccessControl.Proofs.Catalog
import AccessControl.Proofs.Permission
import AccessControl.Proofs.Plan
import AccessControl.Proofs.Segments
import Mathlib.Data.List.TakeWhile

/-! # Policies are accepted exactly when they are well formed

A policy passes through several hands before a request is decided: its files are merged, a registry
is built of what they declare, and the permissions are checked against it one by one.
`Policy.WellFormed` says what all of this asks for, in terms of what is written and nothing else, and
`accepted_iff_wellFormed` that nothing more and nothing less is asked for.

Every stage has one lemma that says when it has an answer: `Plan.exists_compile_iff` for conditions,
`Catalog.registry_eq_ok` for declarations and `Permissions.exists_load_iff` for definitions. -/

namespace AccessControl

theorem exists_bind_eq_ok {ε α β : Type} {x : Except ε α} {f : α → Except ε β} :
    (∃ b, (x >>= f) = .ok b) ↔ ∃ a, x = .ok a ∧ ∃ b, f a = .ok b := by
  constructor
  · rintro ⟨b, h⟩
    obtain ⟨a, ha, hb⟩ := bind_eq_ok.mp h
    exact ⟨a, ha, b, hb⟩
  · rintro ⟨a, ha, b, hb⟩
    exact ⟨b, bind_eq_ok.mpr ⟨a, ha, hb⟩⟩

theorem exists_bind_pure_eq_ok {ε α β : Type} {x : Except ε α} {f : α → β} :
    (∃ b, (x >>= fun a => pure (f a)) = .ok b) ↔ ∃ a, x = .ok a := by
  rw [exists_bind_eq_ok]
  constructor
  · rintro ⟨a, ha, -⟩
    exact ⟨a, ha⟩
  · rintro ⟨a, ha⟩
    exact ⟨a, ha, f a, rfl⟩

/-! ### Comparisons as written -/

/-- A literal that can be read as its declared type. -/
def Literal.IsReadable (l : Literal) : Prop := ∃ v, l.value.coerce? l.declared = some v

/-- The operands that an operator takes: `in` takes a list of literals of one type that is not empty,
and any other operator one literal or a reference to the principal, declared a number or a date if
it asks for order. -/
inductive Operand.Fits : Operator → Operand → Prop where
  | list {first : Literal} {rest : List Literal} {declared : ValueType}
      (readable : ∀ l ∈ first :: rest, l.declared = declared ∧ l.IsReadable) :
      Fits .isIn (.list (first :: rest))
  | literal {operator : Operator} {l : Literal} (single : operator ≠ .isIn) (readable : l.IsReadable)
      (ordered : operator = .greater ∨ operator = .less →
        l.declared = .number ∨ l.declared = .date) :
      Fits operator (.literal l)
  | principal {operator : Operator} {name : String} {declared : ValueType}
      (single : operator ≠ .isIn)
      (ordered : operator = .greater ∨ operator = .less → declared = .number ∨ declared = .date) :
      Fits operator (.principal name declared)

/-- An operator that asks for order does not refuse a type exactly when the type is ordered. -/
theorem Operator.not_refused_iff (operator : Operator) (declared : ValueType) :
    ¬(operator.needsOrder && !declared.isOrdered) = true ↔
      (operator = .greater ∨ operator = .less → declared = .number ∨ declared = .date) := by
  cases operator <;> cases declared <;> decide

namespace Plan

section compile
variable {r : Registry} {type : String}

theorem exists_compileLiteral_iff (field : String) {l : Literal} :
    (∃ v, compileLiteral field l = .ok v) ↔ l.IsReadable := by
  simp only [compileLiteral_eq_ok, Literal.IsReadable]

theorem exists_compileItems_iff (field : String) {declared : ValueType} : ∀ items : List Literal,
    (∃ vs, compileItems field declared items = .ok vs) ↔
      ∀ l ∈ items, l.declared = declared ∧ l.IsReadable
  | [] => by simp [compileItems]
  | item :: rest => by
      rw [List.forall_mem_cons, ← exists_compileItems_iff field rest,
        ← exists_compileLiteral_iff field]
      simp only [compileItems_cons_eq_ok]
      constructor
      · rintro ⟨_, hdeclared, v, more, hv, hmore, -⟩
        exact ⟨⟨hdeclared, v, hv⟩, more, hmore⟩
      · rintro ⟨⟨hdeclared, v, hv⟩, more, hmore⟩
        exact ⟨v :: more, hdeclared, v, more, hv, hmore, rfl⟩

/-- An operand is compiled, with a type that the operator does not refuse, exactly when it fits the
operator. -/
theorem exists_compileOperand_iff (field : String) {operator : Operator} {operand : Operand} :
    (∃ bound declared, compileOperand field operator operand = .ok (bound, declared) ∧
        ¬(operator.needsOrder && !declared.isOrdered) = true) ↔ operand.Fits operator := by
  cases operand with
  | literal l =>
      simp only [compileOperand_literal_eq_ok]
      constructor
      · rintro ⟨_, _, ⟨hop, rfl, v, hv, rfl⟩, hordered⟩
        exact .literal hop ((exists_compileLiteral_iff field).mp ⟨v, hv⟩)
          ((operator.not_refused_iff _).mp hordered)
      · intro h
        cases h with
        | literal hop readable ordered =>
            obtain ⟨v, hv⟩ := (exists_compileLiteral_iff field).mpr readable
            exact ⟨.value v, l.declared, ⟨hop, rfl, v, hv, rfl⟩,
              (operator.not_refused_iff _).mpr ordered⟩
  | list items =>
      simp only [compileOperand_list_eq_ok]
      constructor
      · rintro ⟨_, _, ⟨rfl, hdeclared, vs, hvs, rfl⟩, -⟩
        cases items with
        | nil => cases hdeclared
        | cons first rest => exact .list ((exists_compileItems_iff field _).mp ⟨vs, hvs⟩)
      · intro h
        cases h with
        | @list first rest declared readable =>
            obtain ⟨vs, hvs⟩ := (exists_compileItems_iff field _).mpr readable
            have hdeclared : (first :: rest).head?.map (·.declared) = some declared :=
              congrArg some (readable first List.mem_cons_self).1
            exact ⟨.value (.list vs), declared, ⟨rfl, hdeclared, vs, hvs, rfl⟩, nofun⟩
  | principal name t =>
      simp only [compileOperand_principal_eq_ok]
      constructor
      · rintro ⟨_, _, ⟨hop, rfl, rfl⟩, hordered⟩
        exact .principal hop ((operator.not_refused_iff _).mp hordered)
      · intro h
        cases h with
        | principal hop ordered =>
            exact ⟨.attribute name, t, ⟨hop, rfl, rfl⟩, (operator.not_refused_iff _).mpr ordered⟩

/-- A dotted text is a path exactly when its segments are not empty and all but the last name
relations one after another. -/
theorem exists_compilePath_iff {field : String} :
    (∃ path, compilePath r type field = .ok path) ↔
      ∃ relations last, field = joinWith "." (relations ++ [last]) ∧
        (∀ s ∈ relations ++ [last], s ≠ "" ∧ '.' ∉ s.toList) ∧
        ∃ target, follow r type relations = .ok target := by
  rw [exists_path_iff (P := fun relations => ∃ target, follow r type relations = .ok target)]
  unfold compilePath
  by_cases hempty : "" ∈ segments field
  · rw [if_pos (by simpa using hempty)]
    constructor
    · rintro ⟨path, h⟩
      cases h
    · rintro ⟨h, -⟩
      exact absurd hempty h
  · rw [if_neg (by simpa using hempty)]
    dsimp only
    cases hfollow : follow r type (segments field).dropLast with
    | error e =>
        constructor
        · rintro ⟨path, h⟩
          cases h
        · rintro ⟨-, target, h⟩
          cases h
    | ok target => exact ⟨fun _ => ⟨hempty, target, rfl⟩, fun _ => ⟨_, rfl⟩⟩

theorem exists_compileComparison_iff {field : String} {operator : Operator} {operand : Operand} :
    (∃ c, compileComparison r type field operator operand = .ok c) ↔
      (∃ path, compilePath r type field = .ok path) ∧ operand.Fits operator := by
  simp only [← exists_compileOperand_iff field, compileComparison_eq_ok]
  constructor
  · rintro ⟨c, hpath, -, hoperand, hordered⟩
    exact ⟨⟨c.path, hpath⟩, c.operand, c.declared, hoperand, hordered⟩
  · rintro ⟨⟨path, hpath⟩, bound, declared, hoperand, hordered⟩
    exact ⟨⟨path, operator, bound, declared⟩, hpath, rfl, hoperand, hordered⟩

mutual

/-- A condition is compiled exactly when all its comparisons are. -/
theorem exists_compile_iff : ∀ condition : Condition,
    (∃ plan, compile r type condition = .ok plan) ↔ condition.Forall fun field operator operand =>
      (∃ path, compilePath r type field = .ok path) ∧ operand.Fits operator
  | .compare _ _ _ => exists_bind_pure_eq_ok.trans exists_compileComparison_iff
  | .all parts => exists_bind_pure_eq_ok.trans (exists_compileParts_iff parts)
  | .any parts => exists_bind_pure_eq_ok.trans (exists_compileParts_iff parts)
  | .not inner => exists_bind_pure_eq_ok.trans (exists_compile_iff inner)

theorem exists_compileParts_iff : ∀ parts : List Condition,
    (∃ plans, compileParts r type parts = .ok plans) ↔
      Condition.ForallParts (fun field operator operand =>
        (∃ path, compilePath r type field = .ok path) ∧ operand.Fits operator) parts
  | [] => ⟨fun _ => trivial, fun _ => ⟨[], rfl⟩⟩
  | part :: rest => by
      rw [compileParts, exists_bind_eq_ok, Condition.ForallParts, ← exists_compile_iff part,
        ← exists_compileParts_iff rest]
      constructor
      · rintro ⟨plan, hplan, h⟩
        exact ⟨⟨plan, hplan⟩, exists_bind_pure_eq_ok.mp h⟩
      · rintro ⟨⟨plan, hplan⟩, h⟩
        exact ⟨plan, hplan, exists_bind_pure_eq_ok.mpr h⟩

end

end compile

end Plan

/-! ### Declarations -/

namespace Policy

/-- A path of relations that are declared, each for the type that the one before leads to. -/
inductive Leads (declarations : List Declaration) : String → List String → Prop where
  | here (type : String) : Leads declarations type []
  | step {d : Declaration} {link : DeclaredRelation} {rest : List String} (declared : d ∈ declarations)
      (mem : link ∈ d.relations) (leads : Leads declarations link.target rest) :
      Leads declarations d.type (link.name :: rest)

/-- A text that names a field of a type, at the end of declared relations. -/
def IsPath (declarations : List Declaration) (type field : String) : Prop :=
  ∃ relations last, field = joinWith "." (relations ++ [last]) ∧
    (∀ s ∈ relations ++ [last], s ≠ "" ∧ '.' ∉ s.toList) ∧ Leads declarations type relations

end Policy

/-- A declaration of a type with some actions, no action or relation twice, and relations that lead to
declared types. -/
structure Declaration.WellFormed (declarations : List Declaration) (d : Declaration) : Prop where
  actions_ne_nil : d.actions ≠ []
  actions_nodup : d.actions.Nodup
  relations_nodup : (d.relations.map (·.name)).Nodup
  targets : ∀ link ∈ d.relations, ∃ target ∈ declarations, target.type = link.target

namespace Catalog
variable {c : Catalog} {declarations : List Declaration} {r : Registry}

theorem provider_wellDeclared_iff {d : Declaration} : (d.provider c).WellDeclared ↔
    d.actions ≠ [] ∧ d.actions.Nodup ∧ (d.relations.map (·.name)).Nodup := by
  have hkeys : (d.provider c).actions.map (·.key) = d.actions := by
    simp [Declaration.provider, Function.comp_def]
  have hnames : (d.provider c).relations.map (·.name) = d.relations.map (·.name) := by
    simp [Declaration.provider, Function.comp_def]
  constructor
  · intro h
    refine ⟨fun hnil => h.actions_ne_nil ?_, hkeys ▸ h.actions_nodup, hnames ▸ h.relations_nodup⟩
    simp [Declaration.provider, hnil]
  · rintro ⟨hne, hactions, hrelations⟩
    refine ⟨by simpa [Declaration.provider] using hne, ?_, hkeys ▸ hactions, hnames ▸ hrelations⟩
    intro a ha
    obtain ⟨key, -, rfl⟩ := List.mem_map.mp ha
    rfl

/-- Declarations make a registry exactly when their types are different and each is well formed. -/
theorem registry_eq_ok : c.registry declarations = .ok r ↔
    r = ⟨declarations.map (·.provider c)⟩ ∧ (declarations.map (·.type)).Nodup ∧
      ∀ d ∈ declarations, d.WellFormed declarations := by
  have htypes : (declarations.map (·.provider c)).map (·.type) = declarations.map (·.type) := by
    simp [Declaration.provider, Function.comp_def]
  rw [registry, Registry.build_eq_ok, htypes]
  simp only [List.forall_mem_map, provider_wellDeclared_iff]
  refine and_congr_right fun _ => and_congr_right fun _ => ?_
  constructor
  · rintro ⟨hdeclared, htargets⟩ d hd
    obtain ⟨hne, hactions, hrelations⟩ := hdeclared d hd
    refine ⟨hne, hactions, hrelations, fun link hlink => ?_⟩
    obtain ⟨q, hq, htarget⟩ := htargets d hd ⟨link.name, link.target⟩
      (List.mem_map.mpr ⟨link, hlink, rfl⟩)
    obtain ⟨target, hmem, rfl⟩ := List.mem_map.mp hq
    exact ⟨target, hmem, htarget⟩
  · intro h
    refine ⟨fun d hd => ⟨(h d hd).actions_ne_nil, (h d hd).actions_nodup, (h d hd).relations_nodup⟩,
      fun d hd found hfound => ?_⟩
    obtain ⟨link, hlink, rfl⟩ := List.mem_map.mp hfound
    obtain ⟨target, hmem, htarget⟩ := (h d hd).targets link hlink
    exact ⟨target.provider c, List.mem_map_of_mem hmem, htarget⟩

/-- The relations of a registry are those declared. -/
theorem relation_eq_ok (h : c.registry declarations = .ok r) {type name : String} {found : Relation} :
    r.relation type name = .ok found ↔ ∃ d ∈ declarations, d.type = type ∧
      ∃ link ∈ d.relations, link.name = name ∧ found = ⟨link.name, link.target⟩ := by
  rw [Registry.relation_eq_ok h]
  constructor
  · rintro ⟨p, hp, htype, hfound, hname⟩
    obtain ⟨d, hd, rfl⟩ := List.mem_map.mp hp
    obtain ⟨link, hlink, rfl⟩ := List.mem_map.mp hfound
    exact ⟨d, hd, htype, link, hlink, hname, rfl⟩
  · rintro ⟨d, hd, htype, link, hlink, hname, rfl⟩
    exact ⟨d.provider c, List.mem_map_of_mem hd, htype, List.mem_map.mpr ⟨link, hlink, rfl⟩, hname⟩

/-- A path can be followed exactly when its relations are declared one after another. -/
theorem exists_follow_iff (h : c.registry declarations = .ok r) : ∀ (path : List String)
    (type : String), (∃ target, Plan.follow r type path = .ok target) ↔
      Policy.Leads declarations type path
  | [], type => ⟨fun _ => .here type, fun _ => ⟨type, rfl⟩⟩
  | name :: rest, type => by
      rw [Plan.follow, exists_bind_eq_ok]
      constructor
      · rintro ⟨found, hfound, htarget⟩
        obtain ⟨d, hd, rfl, link, hlink, rfl, rfl⟩ := (relation_eq_ok h).mp hfound
        exact .step hd hlink ((exists_follow_iff h rest link.target).mp htarget)
      · intro hleads
        cases hleads with
        | @step d link _ hd hlink hrest =>
            exact ⟨⟨link.name, link.target⟩, (relation_eq_ok h).mpr ⟨d, hd, rfl, link, hlink, rfl, rfl⟩,
              (exists_follow_iff h rest link.target).mpr hrest⟩

/-- The actions of a type in a registry are those declared. -/
theorem actionsFor_eq_ok (h : c.registry declarations = .ok r) {type : String}
    {actions : List Action} : r.actionsFor type = .ok actions ↔
      ∃ d ∈ declarations, d.type = type ∧ actions = d.actions.map fun key => ⟨type, key⟩ := by
  rw [Registry.actionsFor, bind_eq_ok]
  constructor
  · rintro ⟨p, hp, hactions⟩
    obtain ⟨d, hd, htype, rfl⟩ := registry_provider h hp
    cases hactions
    exact ⟨d, hd, htype, by rw [← htype]; rfl⟩
  · rintro ⟨d, hd, rfl, rfl⟩
    exact ⟨d.provider c, Registry.build_provider h (List.mem_map_of_mem hd), rfl⟩

end Catalog

/-! ### Definitions -/

/-- A definition that gives a role, with a name that is not blank, one of the actions of a declared
type, where the condition compares fields of that type with operands that fit. -/
structure Definition.WellFormed (declarations : List Declaration) (d : Definition) : Prop where
  role : ∃ ch ∈ d.role.toList, Text.isBlank ch = false
  action : ∃ declared ∈ declarations, declared.type = d.type ∧ d.action ∈ declared.actions
  condition : ∀ c, d.condition = some c → c.Forall fun field operator operand =>
    Policy.IsPath declarations d.type field ∧ operand.Fits operator

/-- Nothing is left of a text without its blanks exactly when all of it is blank. -/
theorem Text.trim_eq_nil_iff {cs : List Char} : trim cs = [] ↔ ∀ ch ∈ cs, isBlank ch = true := by
  unfold trim trimLeft
  rw [List.reverse_eq_nil_iff, List.dropWhile_eq_nil_iff]
  simp only [List.mem_reverse]
  constructor
  · intro h
    -- whatever is left of the text starts with a character that is not blank
    cases hleft : cs.dropWhile isBlank with
    | nil => exact List.dropWhile_eq_nil_iff.mp hleft
    | cons first rest =>
        have hfirst := List.dropWhile_get_zero_not isBlank cs (by simp [hleft])
        simp only [hleft, List.get_eq_getElem, List.getElem_cons_zero] at hfirst
        exact absurd (h first (by simp [hleft])) hfirst
  · intro h ch hch
    exact h ch ((List.dropWhile_sublist isBlank).subset hch)

namespace Permissions
variable {r : Registry}

/-- A definition is accepted, whatever was before, exactly when its role is not blank, its action is
known and its condition is compiled. -/
theorem exists_accept_iff (loaded : Permissions) {d : Definition} :
    (∃ p, accept r loaded d = .ok p) ↔ (∃ ch ∈ d.role.toList, Text.isBlank ch = false) ∧
      (∃ a, actionOf r d = .ok a) ∧ ∃ plan, planOf r d = .ok plan := by
  have hblank : (Text.trim d.role.toList).isEmpty = true ↔
      ¬∃ ch ∈ d.role.toList, Text.isBlank ch = false := by
    rw [List.isEmpty_iff, Text.trim_eq_nil_iff]
    simp
  unfold accept
  by_cases hrole : ∃ ch ∈ d.role.toList, Text.isBlank ch = false
  · rw [if_neg (by rwa [hblank, Classical.not_not])]
    constructor
    · intro h
      obtain ⟨a, ha, h⟩ := exists_bind_eq_ok.mp h
      exact ⟨hrole, ⟨a, ha⟩, exists_bind_pure_eq_ok.mp h⟩
    · rintro ⟨-, ⟨a, ha⟩, h⟩
      exact exists_bind_eq_ok.mpr ⟨a, ha, exists_bind_pure_eq_ok.mpr h⟩
  · rw [if_pos (hblank.mpr hrole)]
    constructor
    · rintro ⟨p, h⟩
      cases h
    · rintro ⟨h, -⟩
      exact absurd h hrole

/-- A list of definitions is loaded exactly when each of them is accepted on its own. -/
theorem exists_foldlM_accept_iff : ∀ (ds : List Definition) (loaded : Permissions),
    (∃ all, ds.foldlM (fun loaded d => return loaded ++ [← accept r loaded d]) loaded = .ok all) ↔
      ∀ d ∈ ds, ∃ p, accept r [] d = .ok p
  | [], loaded => ⟨fun _ => by simp, fun _ => ⟨loaded, rfl⟩⟩
  | d :: rest, loaded => by
      rw [List.foldlM_cons, exists_bind_eq_ok, List.forall_mem_cons]
      constructor
      · rintro ⟨next, hp, h⟩
        have hp := exists_bind_pure_eq_ok.mp ⟨next, hp⟩
        exact ⟨(exists_accept_iff []).mpr ((exists_accept_iff loaded).mp hp),
          (exists_foldlM_accept_iff rest next).mp h⟩
      · rintro ⟨hp, h⟩
        obtain ⟨p, hp⟩ := (exists_accept_iff loaded).mpr ((exists_accept_iff []).mp hp)
        exact ⟨loaded ++ [p], bind_eq_ok.mpr ⟨p, hp, rfl⟩, (exists_foldlM_accept_iff rest _).mpr h⟩

variable {c : Catalog} {declarations : List Declaration}

theorem exists_actionOf_iff (h : c.registry declarations = .ok r) {d : Definition} :
    (∃ a, actionOf r d = .ok a) ↔
      ∃ declared ∈ declarations, declared.type = d.type ∧ d.action ∈ declared.actions := by
  rw [actionOf, exists_bind_eq_ok]
  constructor
  · rintro ⟨actions, hactions, a, ha⟩
    obtain ⟨declared, hmem, htype, rfl⟩ := (Catalog.actionsFor_eq_ok h).mp hactions
    refine ⟨declared, hmem, htype, ?_⟩
    split at ha
    · rename_i found hfound
      obtain ⟨key, hkey, rfl⟩ := List.mem_map.mp (List.mem_of_find?_eq_some hfound)
      have hname : key = d.action := by simpa using List.find?_some hfound
      rwa [← hname]
    · cases ha
  · rintro ⟨declared, hmem, htype, haction⟩
    refine ⟨_, (Catalog.actionsFor_eq_ok h).mpr ⟨declared, hmem, htype, rfl⟩, ?_⟩
    split
    · exact ⟨_, rfl⟩
    · rename_i hnone
      have hnot := List.find?_eq_none.mp hnone ⟨d.type, d.action⟩
        (List.mem_map.mpr ⟨d.action, haction, rfl⟩)
      simp at hnot

theorem exists_planOf_iff (h : c.registry declarations = .ok r) {d : Definition} :
    (∃ plan, planOf r d = .ok plan) ↔ ∀ condition, d.condition = some condition →
      condition.Forall fun field operator operand =>
        Policy.IsPath declarations d.type field ∧ operand.Fits operator := by
  have hpath : ∀ field, (∃ path, Plan.compilePath r d.type field = .ok path) ↔
      Policy.IsPath declarations d.type field := by
    intro field
    simp only [Plan.exists_compilePath_iff, Catalog.exists_follow_iff h]
    rfl
  unfold planOf
  cases hcondition : d.condition with
  | none => simp
  | some condition =>
      have hcompile := @Plan.exists_compile_iff r d.type condition
      simp only [hpath] at hcompile
      simp only [Option.some.injEq, forall_eq']
      rw [← hcompile]
      cases Plan.compile r d.type condition with
      | error e => simp [Except.map]
      | ok plan => simp [Except.map]

/-- Over declared types, definitions are loaded exactly when each is well formed. -/
theorem exists_load_iff (h : c.registry declarations = .ok r) {ds : List Definition} :
    (∃ ps, load r ds = .ok ps) ↔ ∀ d ∈ ds, d.WellFormed declarations := by
  rw [load, exists_foldlM_accept_iff]
  refine forall_congr' fun d => forall_congr' fun _ => ?_
  rw [exists_accept_iff, exists_actionOf_iff h, exists_planOf_iff h]
  exact ⟨fun ⟨hrole, haction, hcondition⟩ => ⟨hrole, haction, hcondition⟩,
    fun hd => ⟨hd.role, hd.action, hd.condition⟩⟩

end Permissions

/-! ### Policies -/

namespace Policy

/-- What a policy has to be: its types are different, and its declarations and definitions are well
formed. -/
structure WellFormed (p : Policy) : Prop where
  types_nodup : (p.resources.map (·.type)).Nodup
  declarations : ∀ d ∈ p.resources, d.WellFormed p.resources
  definitions : ∀ d ∈ p.permissions, d.WellFormed p.resources

/-- Several policies are merged exactly when no type is declared twice. -/
theorem merge_eq_ok {policies : List Policy} {p : Policy} : merge policies = .ok p ↔
    p = ⟨policies.flatMap (·.resources), policies.flatMap (·.permissions)⟩ ∧
      ((policies.flatMap (·.resources)).map (·.type)).Nodup := by
  have hnodup : repeatedName? [] ((policies.flatMap (·.resources)).map (·.type)) = none ↔
      ((policies.flatMap (·.resources)).map (·.type)).Nodup := by
    rw [repeatedName?_eq_none]
    simp
  unfold merge
  rw [← hnodup]
  dsimp only
  split
  · rename_i type htype
    simp [htype]
  · rename_i hnone
    simp [hnone, eq_comm]

/-- Policies are merged, their declarations make a registry and their definitions are loaded exactly
when all of it together is well formed. -/
theorem accepted_iff_wellFormed (policies : List Policy) (c : Catalog) :
    (∃ p r ps, merge policies = .ok p ∧ c.registry p.resources = .ok r ∧
      Permissions.load r p.permissions = .ok ps) ↔
    WellFormed ⟨policies.flatMap (·.resources), policies.flatMap (·.permissions)⟩ := by
  constructor
  · rintro ⟨p, r, ps, hmerge, hr, hps⟩
    obtain ⟨rfl, htypes⟩ := merge_eq_ok.mp hmerge
    obtain ⟨-, -, hdeclarations⟩ := Catalog.registry_eq_ok.mp hr
    exact ⟨htypes, hdeclarations, (Permissions.exists_load_iff hr).mp ⟨ps, hps⟩⟩
  · intro h
    have hmerge := merge_eq_ok.mpr ⟨rfl, h.types_nodup⟩
    have hr := (Catalog.registry_eq_ok (c := c)).mpr ⟨rfl, h.types_nodup, h.declarations⟩
    obtain ⟨ps, hps⟩ := (Permissions.exists_load_iff hr).mpr h.definitions
    exact ⟨_, _, ps, hmerge, hr, hps⟩

end Policy
end AccessControl
