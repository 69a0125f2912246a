import AccessControl.Proofs.Registration

/-! # Batches of actions, taken or refused

A table of actions is filled by a run of batches, of which some are refused.  A refused batch could
leave its first actions behind, so registering is described here as a program that changes a table in
place and whose changes stay when it fails (`ActionTable.registerInPlace`).  It writes nothing before
it has seen the whole batch, so it comes to `ActionTable.register` (`offer_eq`).

A table is `FilledBy` the batches that it has taken if it has their actions, type by type and in their
order, and nothing else.  One batch more is taken exactly if it `Fits` those before it, and otherwise
leaves the table as it was (`FilledBy.offer`).  Hence, by induction on the run, every table that was
empty once is filled by the batches that it took (`FilledBy.after`). -/

namespace AccessControl

/-- Some actions that are offered for a type. -/
structure Batch where
  type : String
  actions : List Action

/-- The actions of the batches for a type, one batch after another. -/
def Batch.actionsFor (batches : List Batch) (type : String) : List Action :=
  (batches.filter (·.type == type)).flatMap (·.actions)

/-- Whether a batch can be taken after others: its actions belong to its type, and their keys are
different from each other and from those that were taken for the type. -/
structure Batch.Fits (b : Batch) (taken : List Batch) : Prop where
  types : ∀ a ∈ b.actions, a.type = b.type
  keys : (b.actions.map (·.key)).Nodup
  new : ∀ a ∈ b.actions, ∀ c ∈ taken, c.type = b.type → ∀ d ∈ c.actions, d.key ≠ a.key

namespace ActionTable

/-! ### Runs -/

/-- A batch registered in a table that is changed in place. -/
def registerInPlace (b : Batch) : ExceptT Failure (StateM ActionTable) Unit := do
  let entries := (← get).entries
  let actions ← ofExcept (admitActions b.type ((entries.lookup b.type).getD []) b.actions)
  set (ActionTable.mk (putEntry b.type actions entries))

/-- The answer to a batch, and the table after it. -/
def offer (t : ActionTable) (b : Batch) : Except Failure Unit × ActionTable :=
  (registerInPlace b).run.run t

/-- The table after a run of batches. -/
def after (t : ActionTable) : List Batch → ActionTable
  | [] => t
  | b :: rest => (t.offer b).2.after rest

/-- The batches of a run that are taken. -/
def taken (t : ActionTable) : List Batch → List Batch
  | [] => []
  | b :: rest =>
    match t.offer b with
    | (.ok _, next) => b :: next.taken rest
    | (.error _, next) => next.taken rest

/-- Registering in place does what registering does, and nothing when that fails. -/
theorem offer_eq (t : ActionTable) (b : Batch) :
    t.offer b = match t.register b.type b.actions with
      | .ok next => (.ok (), next)
      | .error e => (.error e, t) := by
  have hread : t.offer b = (do
      let actions ← ofExcept (admitActions b.type ((t.entries.lookup b.type).getD []) b.actions)
      set (ActionTable.mk (putEntry b.type actions t.entries)) :
        ExceptT Failure (StateM ActionTable) Unit).run.run t := rfl
  rw [hread, register]
  cases admitActions b.type ((t.entries.lookup b.type).getD []) b.actions <;> rfl

theorem after_append (t : ActionTable) (run more : List Batch) :
    t.after (run ++ more) = (t.after run).after more := by
  induction run generalizing t with
  | nil => rfl
  | cons b rest ih => exact ih (t.offer b).2

theorem taken_append (t : ActionTable) (run more : List Batch) :
    t.taken (run ++ more) = t.taken run ++ (t.after run).taken more := by
  induction run generalizing t with
  | nil => rfl
  | cons b rest ih =>
      rw [List.cons_append, taken, taken, after]
      obtain ⟨answer, next⟩ := t.offer b
      cases answer with
      | error e => exact ih next
      | ok u => exact congrArg (b :: ·) (ih next)

/-! ### What fills a table -/

/-- Whether a table holds exactly the actions of some batches, each of which belonged into it. -/
structure FilledBy (t : ActionTable) (taken : List Batch) : Prop where
  entries : ∀ type, t.entries.lookup type =
    if taken.any (·.type == type) then some (Batch.actionsFor taken type) else none
  types : ∀ b ∈ taken, ∀ a ∈ b.actions, a.type = b.type
  keys : ∀ type, ((Batch.actionsFor taken type).map (·.key)).Nodup

end ActionTable

/-- An action of the batches for a type is one of some batch for the type. -/
theorem Batch.mem_actionsFor {batches : List Batch} {type : String} {a : Action} :
    a ∈ actionsFor batches type ↔ ∃ b ∈ batches, b.type = type ∧ a ∈ b.actions := by
  unfold actionsFor
  simp only [List.mem_flatMap, List.mem_filter, beq_iff_eq, and_assoc]

/-- A batch comes behind those before it, if it is for the type. -/
theorem Batch.actionsFor_concat (batches : List Batch) (b : Batch) (type : String) :
    actionsFor (batches ++ [b]) type =
      actionsFor batches type ++ if b.type = type then b.actions else [] := by
  unfold actionsFor
  rw [List.filter_append, List.flatMap_append]
  by_cases h : b.type = type <;> simp [h]

namespace ActionTable

theorem filledBy_empty : empty.FilledBy [] :=
  ⟨fun _ => rfl, fun _ hb => (nomatch hb), fun _ => List.nodup_nil⟩

namespace FilledBy

variable {t : ActionTable} {taken : List Batch}

/-- The actions known for a type; a type without a batch has none. -/
theorem known (h : t.FilledBy taken) (type : String) :
    (t.entries.lookup type).getD [] = Batch.actionsFor taken type := by
  rw [h.entries]
  by_cases hany : taken.any (·.type == type) = true
  · rw [if_pos hany, Option.getD_some]
  · have hnone : taken.filter (·.type == type) = [] := by
      rw [List.filter_eq_nil_iff]
      intro b hb htype
      exact hany (List.any_eq_true.mpr ⟨b, hb, htype⟩)
    rw [if_neg hany, Option.getD_none, Batch.actionsFor, hnone, List.flatMap_nil]

/-- The keys of a batch that fits stay different beside those known. -/
theorem fits_iff (h : t.FilledBy taken) (b : Batch) :
    b.Fits taken ↔ (∀ a ∈ b.actions, a.type = b.type) ∧
      ((Batch.actionsFor taken b.type ++ b.actions).map (·.key)).Nodup := by
  rw [List.map_append, List.nodup_append]
  constructor
  · rintro ⟨htypes, hkeys, hnew⟩
    refine ⟨htypes, h.keys b.type, hkeys, ?_⟩
    intro known hknown key hkey
    obtain ⟨d, hd, rfl⟩ := List.mem_map.mp hknown
    obtain ⟨a, ha, rfl⟩ := List.mem_map.mp hkey
    obtain ⟨c, hc, htype, hd⟩ := Batch.mem_actionsFor.mp hd
    exact hnew a ha c hc htype d hd
  · rintro ⟨htypes, -, hkeys, hnew⟩
    refine ⟨htypes, hkeys, ?_⟩
    intro a ha c hc htype d hd
    have hknown : d ∈ Batch.actionsFor taken b.type := Batch.mem_actionsFor.mpr ⟨c, hc, htype, hd⟩
    exact hnew _ (List.mem_map_of_mem hknown) _ (List.mem_map_of_mem ha)

/-- A table with a batch that fits is filled by it too. -/
theorem put (h : t.FilledBy taken) {b : Batch} (hb : b.Fits taken) :
    (ActionTable.mk (putEntry b.type (Batch.actionsFor taken b.type ++ b.actions) t.entries)).FilledBy
      (taken ++ [b]) := by
  constructor
  case entries =>
    intro type
    rw [lookup_putEntry, h.entries, List.any_append, Batch.actionsFor_concat]
    by_cases htype : type = b.type
    · simp [htype]
    · have hne : b.type ≠ type := Ne.symm htype
      simp [htype, hne]
  case types =>
    intro c hc
    rcases List.mem_append.mp hc with hc | hc
    · exact h.types c hc
    · rw [List.mem_singleton.mp hc]
      exact hb.types
  case keys =>
    intro type
    rw [Batch.actionsFor_concat]
    by_cases htype : b.type = type
    · rw [if_pos htype, ← htype]
      exact ((h.fits_iff b).mp hb).2
    · rw [if_neg htype, List.append_nil]
      exact h.keys type

/-- One batch is taken whole if it fits, and otherwise leaves the table as it was. -/
theorem offer (h : t.FilledBy taken) (b : Batch) :
    (b.Fits taken ∧ ∃ next, t.offer b = (.ok (), next) ∧ next.FilledBy (taken ++ [b])) ∨
      (¬ b.Fits taken ∧ ∃ e, t.offer b = (.error e, t)) := by
  have haccepts : ∀ {all : List Action},
      admitActions b.type (Batch.actionsFor taken b.type) b.actions = .ok all ↔
        all = Batch.actionsFor taken b.type ++ b.actions ∧ (∀ a ∈ b.actions, a.type = b.type) ∧
          (all.map (·.key)).Nodup :=
    admitActions_eq_ok (h.keys b.type)
  have hoffer := offer_eq t b
  rw [register, h.known] at hoffer
  cases hresult : admitActions b.type (Batch.actionsFor taken b.type) b.actions with
  | ok all =>
      obtain ⟨rfl, hfits⟩ := haccepts.mp hresult
      have hb := (h.fits_iff b).mpr hfits
      rw [hresult] at hoffer
      exact .inl ⟨hb, _, hoffer, h.put hb⟩
  | error e =>
      rw [hresult] at hoffer
      refine .inr ⟨fun hb => ?_, e, hoffer⟩
      cases hresult.symm.trans (haccepts.mpr ⟨rfl, (h.fits_iff b).mp hb⟩)

/-- A run fills a table with the batches that are taken. -/
theorem after (h : t.FilledBy taken) (run : List Batch) :
    (t.after run).FilledBy (taken ++ t.taken run) := by
  induction run generalizing t taken with
  | nil =>
      rw [ActionTable.taken, List.append_nil]
      exact h
  | cons b rest ih =>
      rw [ActionTable.after, ActionTable.taken]
      rcases h.offer b with ⟨-, next, hoffer, hnext⟩ | ⟨-, e, hoffer⟩
      · rw [hoffer]
        have hrest := ih hnext
        rwa [List.append_assoc] at hrest
      · rw [hoffer]
        exact ih h

theorem actionsFor_eq (h : t.FilledBy taken) (type : String) :
    t.actionsFor type = if taken.any (·.type == type) then .ok (Batch.actionsFor taken type)
      else .error (.unknownType type) := by
  rw [actionsFor, h.entries]
  by_cases hany : taken.any (·.type == type) = true
  · rw [if_pos hany, if_pos hany]
  · rw [if_neg hany, if_neg hany]

/-- The action with a key is one that a batch for the type has brought. -/
theorem resolve_eq_ok (h : t.FilledBy taken) {type key : String} {a : Action} :
    t.resolve type key = .ok a ↔ ∃ b ∈ taken, b.type = type ∧ a ∈ b.actions ∧ a.key = key := by
  have hfind : findAction type key (Batch.actionsFor taken type) = .ok a ↔
      a ∈ Batch.actionsFor taken type ∧ a.key = key := by
    rw [← find?_key_eq_some (h.keys type), findAction]
    cases (Batch.actionsFor taken type).find? (·.key == key) <;> simp
  rw [resolve, h.actionsFor_eq]
  by_cases hany : taken.any (·.type == type) = true
  · rw [if_pos hany, ok_bind, hfind, Batch.mem_actionsFor]
    constructor
    · rintro ⟨⟨b, hb, htype, ha⟩, hkey⟩
      exact ⟨b, hb, htype, ha, hkey⟩
    · rintro ⟨b, hb, htype, ha, hkey⟩
      exact ⟨⟨b, hb, htype, ha⟩, hkey⟩
  · rw [if_neg hany]
    constructor
    · intro hresolved
      cases hresolved
    · rintro ⟨b, hb, htype, -⟩
      have hsome : taken.any (·.type == type) = true :=
        List.any_eq_true.mpr ⟨b, hb, beq_iff_eq.mpr htype⟩
      exact absurd hsome hany

end FilledBy

/-! ### All or nothing -/

/-- Over every run of batches, whatever is refused on the way, a table takes batches whole or not at
all.  A batch that is refused makes no difference to anything later.  A batch is taken exactly if its
actions belong to its type and their keys are different from each other and from those taken for the
type.  The actions of a type are those of the batches taken for it, one after another, and unknown
exactly if there is no such batch; they belong to the type, and each is found by its key. -/
theorem all_or_nothing (run : List Batch) :
    let t := empty.after run
    let batches := empty.taken run
    (∀ b e, (t.offer b).1 = .error e → (t.offer b).2 = t ∧ ∀ later,
      empty.after (run ++ b :: later) = empty.after (run ++ later) ∧
        empty.taken (run ++ b :: later) = empty.taken (run ++ later)) ∧
    (∀ b, (t.offer b).1 = .ok () ↔ b.Fits batches) ∧
    (∀ type, t.actionsFor type = if batches.any (·.type == type)
      then .ok (Batch.actionsFor batches type) else .error (.unknownType type)) ∧
    (∀ type actions, t.actionsFor type = .ok actions →
      (∀ a ∈ actions, a.type = type) ∧ (actions.map (·.key)).Nodup) ∧
    ∀ type key a, t.resolve type key = .ok a ↔
      ∃ b ∈ batches, b.type = type ∧ a ∈ b.actions ∧ a.key = key := by
  intro t batches
  have hfilled : t.FilledBy batches := filledBy_empty.after run
  refine ⟨?refused, ?fits, hfilled.actionsFor_eq, ?actions, fun _ _ _ => hfilled.resolve_eq_ok⟩
  case refused =>
    intro b e he
    have hoffer : t.offer b = (.error e, t) := by
      rcases hfilled.offer b with ⟨-, next, hoffer, -⟩ | ⟨-, e', hoffer⟩
      · rw [hoffer] at he
        cases he
      · rw [hoffer] at he
        cases he
        exact hoffer
    refine ⟨congrArg Prod.snd hoffer, fun later => ?_⟩
    rw [after_append, after_append, taken_append, taken_append]
    show (t.offer b).2.after later = _ ∧ batches ++ t.taken (b :: later) = _
    rw [taken, hoffer]
    exact ⟨rfl, rfl⟩
  case fits =>
    intro b
    rcases hfilled.offer b with ⟨hfits, next, hoffer, -⟩ | ⟨hfits, e, hoffer⟩
    · rw [hoffer]
      exact ⟨fun _ => hfits, fun _ => rfl⟩
    · rw [hoffer]
      exact ⟨fun h => (nomatch h), fun h => absurd h hfits⟩
  case actions =>
    intro type actions hactions
    rw [hfilled.actionsFor_eq] at hactions
    split at hactions
    · cases hactions
      refine ⟨fun a ha => ?_, hfilled.keys type⟩
      obtain ⟨b, hb, rfl, hmem⟩ := Batch.mem_actionsFor.mp ha
      exact hfilled.types b hb a hmem
    · cases hactions

end ActionTable

/-! ### Notes -/

namespace Notes

def viewing : Batch := ⟨"note", [⟨"note", "view"⟩]⟩

/-- Deleting is new, viewing is not. -/
def deleting : Batch := ⟨"note", [⟨"note", "delete"⟩, ⟨"note", "view"⟩]⟩

def editing : Batch := ⟨"note", [⟨"note", "edit"⟩]⟩

end Notes

namespace ActionTable

/-- Notes can be viewed; that they can be deleted and viewed is refused, so that deleting remains
unknown, and then they can be edited as if nothing had happened. -/
theorem all_or_nothing_notes :
    (empty.offer Notes.viewing).1 = .ok () ∧
    ((empty.after [Notes.viewing]).offer Notes.deleting).1 = .error (.duplicateAction "note" "view") ∧
    empty.after [Notes.viewing, Notes.deleting, Notes.editing] =
      empty.after [Notes.viewing, Notes.editing] ∧
    (¬ ∃ a, (empty.after [Notes.viewing, Notes.deleting]).resolve "note" "delete" = .ok a) ∧
    (empty.after [Notes.viewing, Notes.editing]).resolve "note" "edit" = .ok ⟨"note", "edit"⟩ := by
  have hrefused : ((empty.after [Notes.viewing]).offer Notes.deleting).1 =
      .error (.duplicateAction "note" "view") := rfl
  obtain ⟨hnothing, -⟩ := all_or_nothing [Notes.viewing]
  obtain ⟨-, -, -, -, hresolve⟩ := all_or_nothing [Notes.viewing, Notes.deleting]
  obtain ⟨-, -, -, -, hresolve'⟩ := all_or_nothing [Notes.viewing, Notes.editing]
  refine ⟨rfl, hrefused, ((hnothing _ _ hrefused).2 [Notes.editing]).1, ?_, ?_⟩
  · rintro ⟨a, ha⟩
    obtain ⟨b, hb, -, hmem, hkey⟩ := (hresolve _ _ _).mp ha
    have htaken : empty.taken [Notes.viewing, Notes.deleting] = [Notes.viewing] := rfl
    rw [htaken, List.mem_singleton] at hb
    subst hb
    rw [List.mem_singleton.mp hmem] at hkey
    exact absurd hkey (by decide)
  · exact (hresolve' _ _ _).mpr ⟨Notes.editing, by
      have htaken : empty.taken [Notes.viewing, Notes.editing] = [Notes.viewing, Notes.editing] := rfl
      rw [htaken]
      exact List.mem_cons_of_mem _ List.mem_cons_self, rfl, List.mem_cons_self, rfl⟩

end ActionTable
end AccessControl
