import AccessControl.Proofs.Registry

/-! # Registering providers in any order

A registry can be kept in three tables, for the actions, the relations and the provider of each
type, which are filled as providers are registered (`Tables.enter`).  Every registration either fails
as `Registry.register` does, or leaves the tables of one more provider (`enter_tablesOf`).  So the
tables of a built registry are those of its providers (`build_tables`); they have its answers
(`answer_tablesOf`) and are for the same types (`Tables.Sound`).

The order of registration decides at which provider a bad list fails, but not whether it fails: a
registry is built in every order of its providers or in none, and has one answer to every question
(`build_perm`). -/

namespace AccessControl

/-! ### Tables -/

section entries
variable {α β : Type} {key name : String} {value : α}

/-- A value under a new key comes last. -/
theorem putEntry_of_notMem : ∀ {entries : List (String × α)}, key ∉ entries.map Prod.fst →
    putEntry key value entries = entries ++ [(key, value)]
  | [], _ => rfl
  | entry :: rest, h => by
      rw [List.map_cons, List.mem_cons, not_or] at h
      rw [putEntry, if_neg (Ne.symm h.1), putEntry_of_notMem h.2, List.cons_append]

/-- A value put under a key is what is found there, and nothing else changes. -/
theorem lookup_putEntry (key name : String) (value : α) : ∀ entries : List (String × α),
    (putEntry key value entries).lookup name =
      if name = key then some value else entries.lookup name
  | [] => by
      by_cases hname : name = key
      · simp [putEntry, hname]
      · simp [putEntry, hname, List.lookup_cons, beq_false_of_ne hname]
  | entry :: rest => by
      rw [putEntry]
      by_cases hentry : entry.1 = key
      · subst hentry
        by_cases hname : name = entry.1
        · simp [hname]
        · rw [if_pos rfl, if_neg hname, List.lookup_cons, List.lookup_cons, beq_false_of_ne hname]
      · rw [if_neg hentry, List.lookup_cons, List.lookup_cons, lookup_putEntry key name value rest]
        by_cases hname : name = entry.1
        · simp [hname, hentry]
        · rw [beq_false_of_ne hname]

/-- What a table made of a list has under a name. -/
theorem lookup_map (key : β → String) (value : β → α) : ∀ xs : List β,
    (xs.map fun x => (key x, value x)).lookup name = (xs.find? (key · == name)).map value
  | [] => rfl
  | x :: xs => by
      rw [List.map_cons, List.lookup_cons, List.find?_cons, BEq.comm, lookup_map key value xs]
      cases key x == name <;> rfl

/-- The names under which a table made of a list has something. -/
theorem keys_map (key : β → String) (value : β → α) (xs : List β) :
    (xs.map fun x => (key x, value x)).map Prod.fst = xs.map key := by
  rw [List.map_map]
  rfl

/-- A table made of a list has something under a name if an entry of the list has that name. -/
theorem isSome_lookup_map (key : β → String) (value : β → α) (xs : List β) :
    ((xs.map fun x => (key x, value x)).lookup name).isSome = xs.any (key · == name) := by
  rw [lookup_map, Option.isSome_map, List.isSome_find?]

end entries

namespace Registry

/-- The tables of a registry: for each type its actions, its relations under their names, and its
provider. -/
structure Tables where
  actions : ActionTable
  relations : List (String × List (String × Relation))
  providers : List (String × Provider)

namespace Tables

/-- The tables without types. -/
def empty : Tables := ⟨.empty, [], []⟩

/-- A relation entered among those of a type. -/
def enterRelation (type : String) (table : List (String × Relation)) (found : Relation) :
    Except Failure (List (String × Relation)) :=
  if (table.lookup found.name).isSome then
    .error (.invalidProvider type ("relation " ++ backquoted found.name ++ " declared twice"))
  else .ok (putEntry found.name found table)

/-- A provider entered in the tables. -/
def enter (t : Tables) (p : Provider) : Except Failure Tables := do
  if (t.providers.lookup p.type).isSome then
    throw (.invalidProvider p.type "a provider is already registered for this resource type")
  if p.actions.isEmpty then throw (.invalidProvider p.type "no actions declared")
  let actions ← t.actions.register p.type p.actions
  let relations ← p.relations.foldlM (enterRelation p.type) []
  return ⟨actions, putEntry p.type relations t.relations, putEntry p.type p t.providers⟩

/-- The first relation target without a provider. -/
def danglingTarget? (t : Tables) : Option String :=
  t.relations.findSome? fun entry =>
    (entry.2.find? fun found => !(t.providers.lookup found.2.target).isSome).map (·.2.target)

/-- The tables once all providers are entered. -/
def close (t : Tables) : Except Failure Tables :=
  match t.danglingTarget? with
  | some target => .error (.unknownType target)
  | none => .ok t

/-- The tables of a list of providers. -/
def build (ps : List Provider) : Except Failure Tables := do close (← ps.foldlM enter empty)

/-- The provider of a type. -/
def provider (t : Tables) (type : String) : Except Failure Provider :=
  match t.providers.lookup type with
  | some p => .ok p
  | none => .error (.unknownType type)

/-- Whether a type has a provider. -/
def contains (t : Tables) (type : String) : Bool := (t.providers.lookup type).isSome

/-- The relation of a type with a name. -/
def relation (t : Tables) (type name : String) : Except Failure Relation :=
  match t.relations.lookup type with
  | some table =>
    match table.lookup name with
    | some found => .ok found
    | none => .error (.unknownRelation type name)
  | none => .error (.unknownType type)

end Tables

/-- Relations under their names. -/
def relationTable (relations : List Relation) : List (String × Relation) :=
  relations.map fun found => (found.name, found)

/-- The tables that hold some providers. -/
def tablesOf (ps : List Provider) : Tables where
  actions := ⟨ps.map fun p => (p.type, p.actions)⟩
  relations := ps.map fun p => (p.type, relationTable p.relations)
  providers := ps.map fun p => (p.type, p)

/-! ### Filling the tables -/

/-- The actions of a new type are entered as they are admitted. -/
theorem register_actions {ps : List Provider} {p : Provider} (hnew : p.type ∉ ps.map (·.type)) :
    (tablesOf ps).actions.register p.type p.actions =
      (admitActions p.type [] p.actions).map fun _ => (tablesOf (ps ++ [p])).actions := by
  have hlookup : (tablesOf ps).actions.entries.lookup p.type = none := by
    rw [tablesOf, lookup_map, Option.map_eq_none_iff, List.find?_eq_none]
    intro q hq htype
    exact hnew (beq_iff_eq.mp htype ▸ List.mem_map_of_mem hq)
  have hkeys : p.type ∉ (tablesOf ps).actions.entries.map Prod.fst := by
    rwa [tablesOf, keys_map]
  rw [ActionTable.register, hlookup, Option.getD_none]
  cases hadmit : admitActions p.type [] p.actions with
  | error e => rfl
  | ok actions =>
      have hnodup : (([] : List Action).map (·.key)).Nodup := List.nodup_nil
      obtain ⟨rfl, -⟩ := (admitActions_eq_ok hnodup).mp hadmit
      refine congrArg (fun entries => Except.ok (ActionTable.mk entries)) ?_
      rw [putEntry_of_notMem hkeys]
      simp [tablesOf]

/-- Relations are entered until a name is repeated.  The names that were seen are those in the table,
in whatever order. -/
theorem foldlM_enterRelation (type : String) : ∀ (relations before : List Relation)
    (seen : List String), (∀ name, name ∈ seen ↔ name ∈ before.map (·.name)) →
    relations.foldlM (Tables.enterRelation type) (relationTable before) =
      match repeatedRelation? seen relations with
      | some name =>
        .error (.invalidProvider type ("relation " ++ backquoted name ++ " declared twice"))
      | none => .ok (relationTable (before ++ relations))
  | [], before, seen, _ => by
      rw [List.append_nil]
      rfl
  | found :: rest, before, seen, hseen => by
      have htaken : ((relationTable before).lookup found.name).isSome =
          seen.contains found.name := by
        rw [relationTable, isSome_lookup_map, Bool.eq_iff_iff, List.contains_iff_mem, hseen]
        simp
      rw [List.foldlM_cons, Tables.enterRelation, htaken, repeatedRelation?]
      cases hfound : seen.contains found.name with
      | true => rfl
      | false =>
          have hkeys : found.name ∉ (relationTable before).map Prod.fst := by
            rw [relationTable, keys_map, ← hseen]
            simpa using hfound
          have hnext : putEntry found.name found (relationTable before) =
              relationTable (before ++ [found]) := by
            rw [putEntry_of_notMem hkeys]
            simp [relationTable]
          have hseen' : ∀ name, name ∈ found.name :: seen ↔
              name ∈ (before ++ [found]).map (·.name) := by
            intro name
            simp [hseen, or_comm]
          have hrest := foldlM_enterRelation type rest (before ++ [found]) _ hseen'
          rw [List.append_assoc, List.singleton_append] at hrest
          simp only [hnext, Bool.false_eq_true, if_false]
          exact hrest

/-- Entering a provider fails as registering it does, or leaves the tables of one more provider. -/
theorem enter_tablesOf (registered : List Provider) (p : Provider) :
    (tablesOf registered).enter p = (register registered p).map tablesOf := by
  have htaken : ((tablesOf registered).providers.lookup p.type).isSome =
      registered.any (·.type == p.type) := isSome_lookup_map _ _ _
  have hrelations : p.relations.foldlM (Tables.enterRelation p.type) [] = _ :=
    foldlM_enterRelation p.type p.relations [] [] (by simp)
  rw [Tables.enter, register, htaken, checkDeclarations]
  cases hany : registered.any (·.type == p.type) with
  | true => rfl
  | false =>
      have hnew : p.type ∉ registered.map (·.type) := by simpa using hany
      -- the remaining checks come in one order on both sides
      cases p.actions.isEmpty with
      | true => rfl
      | false =>
          rw [register_actions hnew, hrelations]
          cases admitActions p.type [] p.actions with
          | error e => rfl
          | ok actions =>
              cases repeatedRelation? [] p.relations with
              | some name => rfl
              | none =>
                  -- a type without a provider is new in the other tables too
                  have hkeys : p.type ∉ (tablesOf registered).relations.map Prod.fst ∧
                      p.type ∉ (tablesOf registered).providers.map Prod.fst := by
                    simp only [tablesOf, keys_map]
                    exact ⟨hnew, hnew⟩
                  show Except.ok (Tables.mk _ _ _) = Except.ok (tablesOf (registered ++ [p]))
                  rw [putEntry_of_notMem hkeys.1, putEntry_of_notMem hkeys.2]
                  simp [tablesOf]

/-- So does entering several, one after another. -/
theorem foldlM_enter : ∀ (ps registered : List Provider),
    ps.foldlM Tables.enter (tablesOf registered) = (ps.foldlM register registered).map tablesOf
  | [], registered => rfl
  | p :: rest, registered => by
      rw [List.foldlM_cons, List.foldlM_cons, enter_tablesOf]
      cases register registered p with
      | error e => rfl
      | ok next => exact foldlM_enter rest next

/-- The same targets are dangling. -/
theorem danglingTarget?_tablesOf (ps : List Provider) :
    (tablesOf ps).danglingTarget? = danglingTarget? ps := by
  rw [Tables.danglingTarget?, tablesOf, List.findSome?_map, danglingTarget?]
  congr 1
  funext p
  simp only [Function.comp_apply, relationTable, List.find?_map, isSome_lookup_map, Option.map_map]
  rfl

/-- The tables of a list of providers are those of its registry, and building them fails as building
it does. -/
theorem build_tables (ps : List Provider) :
    Tables.build ps = (build ps).map fun r => tablesOf r.providers := by
  have hempty : Tables.empty = tablesOf [] := rfl
  rw [Tables.build, build, hempty, foldlM_enter]
  cases ps.foldlM register [] with
  | error e => rfl
  | ok registered =>
      show (tablesOf registered).close = (close registered).map _
      rw [Tables.close, close, danglingTarget?_tablesOf]
      cases danglingTarget? registered <;> rfl

/-! ### Answers -/

/-- Whether tables have the answers of a registry. -/
structure Tables.Answer (t : Tables) (r : Registry) : Prop where
  actionsFor : ∀ type, t.actions.actionsFor type = r.actionsFor type
  resolveAction : ∀ type key, t.actions.resolve type key = r.resolveAction type key
  relation : ∀ type name, t.relation type name = r.relation type name
  provider : ∀ type, t.provider type = r.provider type
  contains : ∀ type, t.contains type = r.contains type

theorem answer_tablesOf (r : Registry) : (tablesOf r.providers).Answer r := by
  have hactions : ∀ type, (tablesOf r.providers).actions.actionsFor type = r.actionsFor type := by
    intro type
    rw [ActionTable.actionsFor, tablesOf, lookup_map, actionsFor, provider]
    cases r.providers.find? (·.type == type) <;> rfl
  constructor
  case actionsFor => exact hactions
  case resolveAction =>
    intro type key
    rw [ActionTable.resolve, hactions, resolveAction]
  case relation =>
    intro type name
    rw [Tables.relation, tablesOf, lookup_map, relation, provider]
    cases r.providers.find? (·.type == type) with
    | none => rfl
    | some p =>
        dsimp only [Option.map_some, bind, Except.bind]
        rw [relationTable, lookup_map]
        cases p.relations.find? (·.name == name) <;> rfl
  case provider =>
    intro type
    rw [Tables.provider, tablesOf, lookup_map, provider]
    cases r.providers.find? (·.type == type) <;> rfl
  case contains => exact fun type => isSome_lookup_map _ _ _

/-- What holds of the tables of every registry that was built.  They are for the same types.  The
provider of a type is well declared, so that the type has some actions, which are its own and have
different keys.  The actions and the relations of a type are those that its provider declares, and a
relation leads to a type that has a provider. -/
structure Tables.Sound (t : Tables) : Prop where
  types_nodup : (t.providers.map Prod.fst).Nodup
  types_actions : t.actions.entries.map Prod.fst = t.providers.map Prod.fst
  types_relations : t.relations.map Prod.fst = t.providers.map Prod.fst
  declared : ∀ {type p}, t.provider type = .ok p → p.type = type ∧ p.WellDeclared
  actions : ∀ {type actions}, t.actions.actionsFor type = .ok actions ↔
    ∃ p, t.provider type = .ok p ∧ p.actions = actions
  relation : ∀ {type name found}, t.relation type name = .ok found ↔
    ∃ p, t.provider type = .ok p ∧ found ∈ p.relations ∧ found.name = name
  target : ∀ {type name found}, t.relation type name = .ok found → t.contains found.target = true

section build
variable {ps : List Provider} {r : Registry}

/-- A type has a provider in a registry if it is that of one of the providers. -/
theorem contains_eq_true {type : String} :
    r.contains type = true ↔ ∃ p ∈ r.providers, p.type = type := by
  rw [contains, List.any_eq_true]
  simp only [beq_iff_eq]

/-- The actions of a type are those that its provider declares. -/
theorem actionsFor_eq_ok {type : String} {actions : List Action} :
    r.actionsFor type = .ok actions ↔ ∃ p, r.provider type = .ok p ∧ p.actions = actions := by
  rw [actionsFor, bind_eq_ok]
  simp only [pure, Except.pure, Except.ok.injEq]

/-- The registry finds exactly the providers that it was built of, by their types. -/
theorem provider_eq_ok (h : build ps = .ok r) {type : String} {p : Provider} :
    r.provider type = .ok p ↔ p ∈ ps ∧ p.type = type := by
  constructor
  · intro hp
    rw [← build_providers h]
    exact provider_ok hp
  · rintro ⟨hp, rfl⟩
    exact build_provider h hp

theorem tables_sound (h : build ps = .ok r) : (tablesOf r.providers).Sound := by
  obtain ⟨hactions, -, hrelation, hprovider, hcontains⟩ := answer_tablesOf r
  obtain ⟨-, htypes, hdeclared, -⟩ := build_eq_ok.mp h
  constructor
  case types_nodup => rwa [tablesOf, keys_map, build_providers h]
  case types_actions => rw [tablesOf, keys_map, keys_map]
  case types_relations => rw [tablesOf, keys_map, keys_map]
  case declared =>
    intro type p hp
    obtain ⟨hmem, htype⟩ := (provider_eq_ok h).mp ((hprovider type).symm.trans hp)
    exact ⟨htype, hdeclared p hmem⟩
  case actions =>
    intro type actions
    rw [hactions, hprovider]
    exact actionsFor_eq_ok
  case relation =>
    intro type name found
    simp only [hrelation, hprovider, relation_eq_ok h, provider_eq_ok h, and_assoc]
  case target =>
    intro type name found hfound
    rw [hrelation] at hfound
    rw [hcontains, contains_eq_true, build_providers h]
    exact build_target h hfound

end build

/-! ### Order -/

/-- Whether two registries have the same answers. -/
structure Alike (r r' : Registry) : Prop where
  actionsFor : ∀ type, r.actionsFor type = r'.actionsFor type
  resolveAction : ∀ type key, r.resolveAction type key = r'.resolveAction type key
  relation : ∀ type name, r.relation type name = r'.relation type name
  provider : ∀ type, r.provider type = r'.provider type
  contains : ∀ type, r.contains type = r'.contains type

/-- Registries are alike if they find the same providers. -/
theorem alike_of_provider {r r' : Registry} (hprovider : ∀ type, r.provider type = r'.provider type)
    (hcontains : ∀ type, r.contains type = r'.contains type) : Alike r r' := by
  have hactions : ∀ type, r.actionsFor type = r'.actionsFor type := by
    intro type
    rw [actionsFor, actionsFor, hprovider]
  refine ⟨hactions, fun type key => ?_, fun type name => ?_, hprovider, hcontains⟩
  · rw [resolveAction, resolveAction, hactions]
  · rw [relation, relation, hprovider]

section perm
variable {ps ps' : List Provider} {r r' : Registry}

/-- What is required of the providers of a registry does not depend on their order. -/
theorem build_perm_ok (h : ps.Perm ps') (hr : build ps = .ok r) : build ps' = .ok ⟨ps'⟩ := by
  obtain ⟨-, htypes, hdeclared, hclosed⟩ := build_eq_ok.mp hr
  simp only [h.mem_iff] at hdeclared hclosed
  exact build_eq_ok.mpr ⟨rfl, (h.map _).nodup_iff.mp htypes, hdeclared, hclosed⟩

/-- Neither do the answers of the registry. -/
theorem alike_of_perm (h : ps.Perm ps') (hr : build ps = .ok r) (hr' : build ps' = .ok r') :
    Alike r r' := by
  refine alike_of_provider (fun type => ?_) (fun type => ?_)
  · have hfind : r.providers.find? (·.type == type) = r'.providers.find? (·.type == type) := by
      rw [build_providers hr, build_providers hr']
      refine Option.ext fun p => ?_
      rw [find?_key_eq_some (build_eq_ok.mp hr).2.1, find?_key_eq_some (build_eq_ok.mp hr').2.1,
        h.mem_iff]
    rw [provider, provider, hfind]
  · rw [contains, contains, build_providers hr, build_providers hr', h.any_eq]

/-- In whatever order providers are registered, they can all be registered and the registry be
built, or not; and if so, the registry has the same answers.  The tables that are filled meanwhile
have these answers, are for the same types, and have what the providers declare. -/
theorem build_perm (h : ps.Perm ps') :
    ((∃ r, build ps = .ok r) ↔ ∃ r', build ps' = .ok r') ∧
    ∀ r, build ps = .ok r →
      (∀ r', build ps' = .ok r' → Alike r r') ∧
      ∃ t, Tables.build ps = .ok t ∧ t.Answer r ∧ t.Sound := by
  refine ⟨⟨?forward, ?backward⟩, fun r hr => ⟨fun r' => alike_of_perm h hr, ?tables⟩⟩
  case forward => exact fun ⟨r, hr⟩ => ⟨_, build_perm_ok h hr⟩
  case backward => exact fun ⟨r', hr'⟩ => ⟨_, build_perm_ok h.symm hr'⟩
  case tables =>
    refine ⟨tablesOf r.providers, ?_, answer_tablesOf r, tables_sound hr⟩
    rw [build_tables, hr]
    rfl

end perm

end Registry

/-! ### A harbour -/

namespace Harbour

/-- Ships lie at berths. -/
def ship : Provider := ⟨"ship", [⟨"ship", "board"⟩], [⟨"berth", "berth"⟩], noRelations "ship"⟩

def berth : Provider := ⟨"berth", [⟨"berth", "lease"⟩], [], noRelations "berth"⟩

end Harbour

namespace Registry

/-- Ships can be registered before the berths that they lie at, or after them. -/
theorem build_perm_harbour :
    [Harbour.ship, Harbour.berth].Perm [Harbour.berth, Harbour.ship] ∧
    build [Harbour.ship, Harbour.berth] = .ok ⟨[Harbour.ship, Harbour.berth]⟩ ∧
    build [Harbour.berth, Harbour.ship] = .ok ⟨[Harbour.berth, Harbour.ship]⟩ ∧
    Alike ⟨[Harbour.ship, Harbour.berth]⟩ ⟨[Harbour.berth, Harbour.ship]⟩ ∧
    ∃ t, Tables.build [Harbour.ship, Harbour.berth] = .ok t ∧ t.Sound ∧
      t.relation "ship" "berth" = .ok ⟨"berth", "berth"⟩ := by
  have hship : build [Harbour.ship, Harbour.berth] = .ok ⟨[Harbour.ship, Harbour.berth]⟩ := rfl
  have hberth : build [Harbour.berth, Harbour.ship] = .ok ⟨[Harbour.berth, Harbour.ship]⟩ := rfl
  have hperm : [Harbour.ship, Harbour.berth].Perm [Harbour.berth, Harbour.ship] := .swap _ _ _
  obtain ⟨-, hbuilt⟩ := build_perm hperm
  obtain ⟨halike, t, ht, hanswer, hsound⟩ := hbuilt _ hship
  exact ⟨hperm, hship, hberth, halike _ hberth, t, ht, hsound, hanswer.relation "ship" "berth"⟩

end Registry
end AccessControl
