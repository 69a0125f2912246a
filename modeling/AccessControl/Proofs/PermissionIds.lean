import AccessControl.Proofs.Decision
import AccessControl.Proofs.Digits
import AccessControl.Proofs.Permission
import AccessControl.Proofs.Rules
import Mathlib.Data.List.Nodup

/-! # The ids of permissions

An id is the text of a role, a type and an action, and the number of permissions for these that were
loaded before.  That number tells the permissions of one role and action apart
(`Numbered.distinct`).  The text does not tell roles, types and actions apart, because a colon
between two names looks like one inside a name: the ids of loaded permissions are different exactly
if no two roles, types and actions that are written have the same text (`ids_nodup_iff`). -/

namespace AccessControl

/-- What permissions are for: a role and an action of a type. -/
structure Slot where
  role : String
  action : Action

/-- A slot as the ids of its permissions start. -/
def Slot.write (s : Slot) : String := s.role ++ ":" ++ s.action.write

/-- What a definition is for. -/
def Definition.slot (d : Definition) : Slot := ⟨d.role, d.type, d.action⟩

/-- What a permission is for. -/
def Permission.slot (p : Permission) : Slot := ⟨p.role, p.action⟩

theorem Permission.Enacts.slot_eq {r : Registry} {d : Definition} {p : Permission}
    (h : p.Enacts r d) : p.slot = d.slot := by
  obtain ⟨hrole, htype, hkey, -, -⟩ := h
  rw [slot, Definition.slot, ← hrole, ← htype, ← hkey]

theorem Permission.isFor_iff {p q : Permission} :
    q.isFor p.role p.action.type p.action.key = true ↔ q.slot = p.slot := by
  obtain ⟨-, role, ⟨type, key⟩, -, -⟩ := p
  obtain ⟨-, role', ⟨type', key'⟩, -, -⟩ := q
  simp [isFor, slot, and_assoc]

/-! ### Texts with a separator -/

section separator
variable {α : Type} {separator : α} {xs xs' ys ys' : List α}

/-- What stands in front of the first separator can be told from the whole. -/
theorem append_separator_inj_left : ∀ {xs xs' : List α}, separator ∉ xs → separator ∉ xs' →
    xs ++ separator :: ys = xs' ++ separator :: ys' → xs = xs' ∧ ys = ys'
  | [], [], _, _, h => ⟨rfl, (List.cons.inj h).2⟩
  | [], _ :: _, _, hxs', h => absurd ((List.cons.inj h).1 ▸ List.mem_cons_self) hxs'
  | _ :: _, [], hxs, _, h => absurd ((List.cons.inj h).1 ▸ List.mem_cons_self) hxs
  | x :: xs, x' :: xs', hxs, hxs', h => by
      obtain ⟨hx, hrest⟩ := List.cons.inj h
      obtain ⟨hxs, hys⟩ := append_separator_inj_left (List.not_mem_of_not_mem_cons hxs)
        (List.not_mem_of_not_mem_cons hxs') hrest
      exact ⟨by rw [hx, hxs], hys⟩

/-- So can what stands behind the last separator. -/
theorem append_separator_inj_right (hys : separator ∉ ys) (hys' : separator ∉ ys')
    (h : xs ++ separator :: ys = xs' ++ separator :: ys') : xs = xs' ∧ ys = ys' := by
  have hreverse := congrArg List.reverse h
  simp only [List.reverse_append, List.reverse_cons, List.append_assoc, List.singleton_append]
    at hreverse
  obtain ⟨hy, hx⟩ := append_separator_inj_left (by simpa) (by simpa) hreverse
  exact ⟨List.reverse_inj.mp hx, List.reverse_inj.mp hy⟩

end separator

/-! ### Slots and their texts -/

/-- Whether a name cannot be mistaken for two names with a colon between them. -/
def IsPlain (name : String) : Prop := ':' ∉ name.toList

instance (name : String) : Decidable (IsPlain name) :=
  inferInstanceAs (Decidable (':' ∉ name.toList))

namespace Slot

theorem toList_write (s : Slot) :
    s.write.toList =
      s.role.toList ++ ':' :: (s.action.type.toList ++ ':' :: s.action.key.toList) := by
  simp [write, Action.write]

/-- A slot can be told from its text where two of its three names are plain. -/
theorem write_inj {s s' : Slot} (h : s.write = s'.write)
    (hplain : (IsPlain s.role ∧ IsPlain s'.role ∧ IsPlain s.action.type ∧ IsPlain s'.action.type) ∨
      (IsPlain s.role ∧ IsPlain s'.role ∧ IsPlain s.action.key ∧ IsPlain s'.action.key) ∨
      (IsPlain s.action.type ∧ IsPlain s'.action.type ∧ IsPlain s.action.key ∧
        IsPlain s'.action.key)) : s = s' := by
  have htext := congrArg String.toList h
  rw [toList_write, toList_write] at htext
  suffices hnames : s.role.toList = s'.role.toList ∧
      s.action.type.toList = s'.action.type.toList ∧ s.action.key.toList = s'.action.key.toList by
    obtain ⟨role, type, key⟩ := s
    obtain ⟨role', type', key'⟩ := s'
    simp only [String.toList_inj] at hnames
    obtain ⟨rfl, rfl, rfl⟩ := hnames
    rfl
  rcases hplain with ⟨hr, hr', ht, ht'⟩ | ⟨hr, hr', hk, hk'⟩ | ⟨ht, ht', hk, hk'⟩
  · obtain ⟨hrole, hrest⟩ := append_separator_inj_left hr hr' htext
    exact ⟨hrole, append_separator_inj_left ht ht' hrest⟩
  · obtain ⟨hrole, hrest⟩ := append_separator_inj_left hr hr' htext
    exact ⟨hrole, append_separator_inj_right hk hk' hrest⟩
  · rw [← List.cons_append, ← List.append_assoc, ← List.cons_append, ← List.append_assoc] at htext
    obtain ⟨hrest, hkey⟩ := append_separator_inj_right hk hk' htext
    obtain ⟨hrole, htype⟩ := append_separator_inj_right ht ht' hrest
    exact ⟨hrole, htype, hkey⟩

end Slot

namespace Permissions

/-! ### What loading keeps -/

/-- The text of a slot and the number behind it can be told from an id. -/
theorem idOf_inj (s t : Slot) {m n : Nat} :
    idOf s.role s.action m = idOf t.role t.action n ↔ s.write = t.write ∧ m = n := by
  have hmark : ∀ k, '#' ∉ Text.decimal k := by
    intro k hk
    exact absurd (Text.isDigit_of_mem_decimal hk) (by decide)
  have hid : ∀ (s : Slot) (k : Nat),
      (idOf s.role s.action k).toList = s.write.toList ++ '#' :: Text.decimal k := by
    intro s k
    simp [idOf, Slot.write]
  constructor
  · intro h
    have htext := congrArg String.toList h
    rw [hid, hid] at htext
    obtain ⟨hwrite, hnumber⟩ := append_separator_inj_right (hmark m) (hmark n) htext
    exact ⟨String.toList_inj.mp hwrite, Text.decimal_inj hnumber⟩
  · rintro ⟨hwrite, rfl⟩
    exact String.toList_inj.mp (by rw [hid, hid, hwrite])

/-- How many permissions are for a slot. -/
def countFor (ps : Permissions) (s : Slot) : Nat :=
  ps.countP fun p => p.isFor s.role s.action.type s.action.key

theorem countFor_concat_self (ps : Permissions) (p : Permission) :
    (ps ++ [p]).countFor p.slot = ps.countFor p.slot + 1 := by
  have hp : p.isFor p.slot.role p.slot.action.type p.slot.action.key = true :=
    Permission.isFor_iff.mpr rfl
  rw [countFor, List.countP_append, List.countP_singleton, if_pos hp, countFor]

theorem countFor_le_concat (ps : Permissions) (p : Permission) (s : Slot) :
    ps.countFor s ≤ (ps ++ [p]).countFor s := by
  rw [countFor, countFor, List.countP_append]
  exact Nat.le_add_right _ _

/-- Permissions whose ids have numbers that go up from zero in each slot. -/
structure Numbered (ps : Permissions) : Prop where
  distinct : ps.Pairwise fun p q => p.slot = q.slot → p.id ≠ q.id
  below : ∀ p ∈ ps, ∃ n < ps.countFor p.slot, p.id = idOf p.role p.action n
  zero : ∀ p ∈ ps, ∃ q ∈ ps, q.slot = p.slot ∧ q.id = idOf p.role p.action 0

theorem numbered_nil : Numbered [] := ⟨List.Pairwise.nil, by simp, by simp⟩

/-- A permission with the next number of its slot may follow. -/
theorem Numbered.concat {ps : Permissions} {p : Permission} (h : Numbered ps)
    (hid : p.id = idOf p.role p.action (ps.countFor p.slot)) : Numbered (ps ++ [p]) := by
  constructor
  case distinct =>
    refine List.pairwise_append.mpr ⟨h.distinct, List.pairwise_singleton _ _, ?_⟩
    intro q hq q' hq' hslot heq
    rw [List.mem_singleton.mp hq'] at hslot heq
    -- the numbers of those before are smaller
    obtain ⟨n, hn, hqid⟩ := h.below q hq
    rw [hqid, hid] at heq
    obtain ⟨-, rfl⟩ := (idOf_inj q.slot p.slot).mp heq
    exact Nat.lt_irrefl _ (hslot ▸ hn)
  case below =>
    intro q hq
    rcases List.mem_append.mp hq with hq | hq
    · obtain ⟨n, hn, hqid⟩ := h.below q hq
      exact ⟨n, Nat.lt_of_lt_of_le hn (countFor_le_concat ps p q.slot), hqid⟩
    · rw [List.mem_singleton.mp hq, countFor_concat_self]
      exact ⟨ps.countFor p.slot, Nat.lt_succ_self _, hid⟩
  case zero =>
    have hold : ∀ q ∈ ps, ∃ q' ∈ ps ++ [p], q'.slot = q.slot ∧ q'.id = idOf q.role q.action 0 := by
      intro q hq
      obtain ⟨q', hq', hzero⟩ := h.zero q hq
      exact ⟨q', List.mem_append_left _ hq', hzero⟩
    intro q hq
    rcases List.mem_append.mp hq with hq | hq
    · exact hold q hq
    · rw [List.mem_singleton.mp hq]
      rcases Nat.eq_zero_or_pos (ps.countFor p.slot) with hnone | hsome
      · exact ⟨p, by simp, rfl, by rw [hid, hnone]⟩
      · obtain ⟨q', hq', hfor⟩ := List.countP_pos_iff.mp hsome
        have hslot : q'.slot = p.slot := Permission.isFor_iff.mp hfor
        obtain ⟨first, hfirst, hsame, hzero⟩ := h.zero q' hq'
        refine ⟨first, List.mem_append_left _ hfirst, hsame.trans hslot, hzero.trans ?_⟩
        exact (idOf_inj q'.slot p.slot).mpr ⟨congrArg Slot.write hslot, rfl⟩

section load
variable {providers : List Provider} {r : Registry} {ds : List Definition} {ps : Permissions}

/-- A definition is given the next number of its slot. -/
theorem accept_id (hr : Registry.build providers = .ok r) {loaded : Permissions} {d : Definition}
    {p : Permission} (h : accept r loaded d = .ok p) :
    p.id = idOf p.role p.action (loaded.countFor p.slot) := by
  have hslot := (accept_ok hr h).slot_eq
  unfold accept at h
  split at h
  · cases h
  · obtain ⟨a, ha, h⟩ := bind_eq_ok.mp h
    obtain ⟨plan, -, h⟩ := bind_eq_ok.mp h
    cases h
    rw [hslot, countFor, Definition.slot, (actionOf_ok hr ha).2]

theorem foldlM_accept_numbered (hr : Registry.build providers = .ok r) : ∀ (ds : List Definition)
    {loaded all : Permissions}, Numbered loaded →
    ds.foldlM (fun loaded d => return loaded ++ [← accept r loaded d]) loaded = .ok all →
    Numbered all
  | [], _, _, hloaded, h => by
      cases h
      exact hloaded
  | d :: rest, loaded, all, hloaded, h => by
      rw [List.foldlM_cons] at h
      obtain ⟨next, hnext, h⟩ := bind_eq_ok.mp h
      obtain ⟨p, hp, hnext⟩ := bind_eq_ok.mp hnext
      cases hnext
      exact foldlM_accept_numbered hr rest (hloaded.concat (accept_id hr hp)) h

/-- Loaded permissions are numbered in each slot. -/
theorem load_numbered (hr : Registry.build providers = .ok r) (hps : load r ds = .ok ps) :
    Numbered ps :=
  foldlM_accept_numbered hr ds numbered_nil hps

/-! ### Different ids -/

/-- Numbered permissions have different ids exactly if different slots have different texts. -/
theorem Numbered.nodup_iff (h : Numbered ps) : (ps.map (·.id)).Nodup ↔
    ∀ p ∈ ps, ∀ q ∈ ps, p.slot.write = q.slot.write → p.slot = q.slot := by
  constructor
  · intro hdiffer p hp q hq hwrite
    -- the first permissions of the two slots have one id, and so are one permission
    obtain ⟨first, hfirst, hslot, hid⟩ := h.zero p hp
    obtain ⟨first', hfirst', hslot', hid'⟩ := h.zero q hq
    have hsame : first.id = first'.id := by
      rw [hid, hid']
      exact (idOf_inj p.slot q.slot).mpr ⟨hwrite, rfl⟩
    rw [← hslot, ← hslot', List.inj_on_of_nodup_map hdiffer hfirst hfirst' hsame]
  · intro htexts
    rw [List.Nodup, List.pairwise_map]
    refine h.distinct.imp_of_mem fun {p q} hp hq hdistinct hid => hdistinct ?_ hid
    obtain ⟨m, -, hm⟩ := h.below p hp
    obtain ⟨n, -, hn⟩ := h.below q hq
    rw [hm, hn] at hid
    exact htexts p hp q hq ((idOf_inj p.slot q.slot).mp hid).1

/-- The permission that grants a request is among those loaded. -/
theorem mem_of_check {q : Request} {subject : Resource} {context : Context} {g : Permission}
    (hg : (q.check r ps subject context).outcome = .ok ⟨some g⟩) : g ∈ ps := by
  obtain ⟨a, ha⟩ := Request.resolveAction_of_check hg
  rw [Request.check_eq_firstGrant ha, Inquiry.outcome_map_pure, Request.map_mk_eq_ok,
    ← List.map_id (candidates _ _ _ _)] at hg
  obtain ⟨before, p, after, hfound, rfl, -⟩ :=
    (Request.firstGrant_eq_some_iff (fun _ _ => rfl) g).mp hg
  have hp : p ∈ ps.candidates q.principal q.type q.action := by
    rw [hfound]
    exact List.mem_append_right before List.mem_cons_self
  exact (mem_candidates.mp hp).1

/-- Two permissions of one role and action have different ids.  The ids of all loaded permissions
are different exactly if different roles, types and actions that are written have different texts,
which is so if two of the three kinds of names have no colons.  If the ids are different, the id of
the permission that grants a request is that of one definition only. -/
theorem ids_nodup_iff (hr : Registry.build providers = .ok r) (hps : load r ds = .ok ps) :
    (ps.Pairwise fun p q => p.role = q.role → p.action = q.action → p.id ≠ q.id) ∧
    ((ps.map (·.id)).Nodup ↔
      ∀ d ∈ ds, ∀ e ∈ ds, d.slot.write = e.slot.write → d.slot = e.slot) ∧
    ((∀ d ∈ ds, IsPlain d.role ∧ IsPlain d.type) ∨ (∀ d ∈ ds, IsPlain d.role ∧ IsPlain d.action) ∨
      (∀ d ∈ ds, IsPlain d.type ∧ IsPlain d.action) → (ps.map (·.id)).Nodup) ∧
    ((ps.map (·.id)).Nodup → ∀ (q : Request) subject context g,
      (q.check r ps subject context).outcome = .ok ⟨some g⟩ →
      ∃ d, (d, g) ∈ ds.zip ps ∧ ∀ x ∈ ds.zip ps, x.2.id = g.id → x = (d, g)) := by
  have hnumbered := load_numbered hr hps
  have hslots : (∀ p ∈ ps, ∀ q ∈ ps, p.slot.write = q.slot.write → p.slot = q.slot) ↔
      ∀ d ∈ ds, ∀ e ∈ ds, d.slot.write = e.slot.write → d.slot = e.slot := by
    constructor
    · intro h d hd e he
      obtain ⟨p, hp, henacts⟩ := exists_enacted hr hps hd
      obtain ⟨q, hq, henacts'⟩ := exists_enacted hr hps he
      rw [← henacts.slot_eq, ← henacts'.slot_eq]
      exact h p hp q hq
    · intro h p hp q hq
      obtain ⟨d, hd, henacts⟩ := exists_enacts hr hps hp
      obtain ⟨e, he, henacts'⟩ := exists_enacts hr hps hq
      rw [henacts.slot_eq, henacts'.slot_eq]
      exact h d hd e he
  have hnodup := hnumbered.nodup_iff.trans hslots
  refine ⟨?slot, hnodup, fun hplain => hnodup.mpr fun d hd e he hwrite => ?plain,
    fun hids q subject context g hg => ?named⟩
  case slot =>
    refine hnumbered.distinct.imp fun {p q} h hrole haction => h ?_
    rw [Permission.slot, Permission.slot, hrole, haction]
  case plain =>
    refine Slot.write_inj hwrite ?_
    rcases hplain with h | h | h
    · exact .inl ⟨(h d hd).1, (h e he).1, (h d hd).2, (h e he).2⟩
    · exact .inr (.inl ⟨(h d hd).1, (h e he).1, (h d hd).2, (h e he).2⟩)
    · exact .inr (.inr ⟨(h d hd).1, (h e he).1, (h d hd).2, (h e he).2⟩)
  case named =>
    have hlength := (load_ok hr hps).1
    have hsnd : (ds.zip ps).map Prod.snd = ps := List.map_snd_zip (Nat.le_of_eq hlength.symm)
    have hpairs : ((ds.zip ps).map fun x => x.2.id).Nodup := by
      rw [← hsnd, List.map_map] at hids
      exact hids
    have hmem : g ∈ (ds.zip ps).map Prod.snd := hsnd.symm ▸ mem_of_check hg
    obtain ⟨⟨d, p⟩, hd, rfl⟩ := List.mem_map.mp hmem
    exact ⟨d, hd, fun x hx hid => List.inj_on_of_nodup_map hpairs hx hd hid⟩

end load

/-- In the office the ids of all rules are different, and the id of the rule that lets a clerk view
an open task is that of one definition. -/
theorem ids_nodup_iff_office :
    load Office.registry Office.definitions =
      .ok [Office.urgentRule, Office.looseRule, Office.anyRule] ∧
    ([Office.urgentRule, Office.looseRule, Office.anyRule].map (·.id)).Nodup ∧
    (Office.clerk.check Office.registry [Office.urgentRule, Office.looseRule, Office.anyRule]
      Office.openTask.view []).outcome = .ok ⟨some Office.urgentRule⟩ ∧
    ∃ d, (d, Office.urgentRule) ∈
        Office.definitions.zip [Office.urgentRule, Office.looseRule, Office.anyRule] ∧
      ∀ x ∈ Office.definitions.zip [Office.urgentRule, Office.looseRule, Office.anyRule],
        x.2.id = Office.urgentRule.id → x = (d, Office.urgentRule) := by
  have hr : Registry.build (Office.declarations.map (·.provider Office.catalog)) =
      .ok Office.registry := rfl
  have hps : load Office.registry Office.definitions =
      .ok [Office.urgentRule, Office.looseRule, Office.anyRule] := rfl
  have hg : (Office.clerk.check Office.registry
      [Office.urgentRule, Office.looseRule, Office.anyRule] Office.openTask.view []).outcome =
        .ok ⟨some Office.urgentRule⟩ := rfl
  have hplain : ∀ d ∈ Office.definitions, IsPlain d.type ∧ IsPlain d.action := by
    have htask : IsPlain "task" := by decide
    have hview : IsPlain "view" := by decide
    simp [Office.definitions, htask, hview]
  obtain ⟨-, -, hnodup, hnamed⟩ := ids_nodup_iff hr hps
  have hids := hnodup (.inr (.inr hplain))
  exact ⟨hps, hids, hg, hnamed hids Office.clerk Office.openTask.view [] Office.urgentRule hg⟩

end Permissions

/-! ### Names with colons -/

namespace Clinic

def declarations : List Declaration := [⟨"note", ["view"], []⟩, ⟨"ward:note", ["view"], []⟩]

def registry : Registry := ⟨declarations.map (·.provider ⟨[]⟩)⟩

/-- Nurses of the ward may view notes, and nurses the notes of the ward. -/
def definitions : List Definition :=
  [⟨"nurse:ward", "note", "view", none⟩, ⟨"nurse", "ward:note", "view", none⟩]

def noteRule : Permission :=
  ⟨Permissions.idOf "nurse:ward" ⟨"note", "view"⟩ 0, "nurse:ward", ⟨"note", "view"⟩, none, none⟩

def wardRule : Permission :=
  ⟨Permissions.idOf "nurse" ⟨"ward:note", "view"⟩ 0, "nurse", ⟨"ward:note", "view"⟩, none, none⟩

/-- The request of a nurse of the ward. -/
def request : Request := ⟨⟨"alice", ["nurse:ward"], []⟩, "note", "view"⟩

end Clinic

namespace Permissions

/-- Two rules for different roles and types have one id, which so does not tell by which of them a
request was granted. -/
theorem same_id_clinic :
    Registry.build (Clinic.declarations.map (·.provider ⟨[]⟩)) = .ok Clinic.registry ∧
    load Clinic.registry Clinic.definitions = .ok [Clinic.noteRule, Clinic.wardRule] ∧
    Clinic.noteRule.role ≠ Clinic.wardRule.role ∧
    ¬ ([Clinic.noteRule, Clinic.wardRule].map (·.id)).Nodup ∧
    (Clinic.request.check Clinic.registry [Clinic.noteRule, Clinic.wardRule] ⟨fun _ => none⟩
      []).outcome = .ok ⟨some Clinic.noteRule⟩ ∧
    ∀ x ∈ Clinic.definitions.zip [Clinic.noteRule, Clinic.wardRule],
      x.2.id = Clinic.noteRule.id := by
  have hid : Clinic.wardRule.id = Clinic.noteRule.id :=
    (idOf_inj Clinic.wardRule.slot Clinic.noteRule.slot).mpr ⟨by decide, rfl⟩
  refine ⟨rfl, rfl, by decide, ?_, rfl, ?_⟩
  · simp [hid]
  · simp [Clinic.definitions, hid]

end Permissions
end AccessControl
