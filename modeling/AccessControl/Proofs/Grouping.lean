import AccessControl.Proofs.Permission
import AccessControl.Proofs.Registration

/-! # Permissions in groups

Loaded permissions can be kept in groups, by type, action and role, with a group for each of these that
a definition names (`Permissions.Groups`).  A definition is accepted by looking at its own group alone,
and a request finds its candidates without a search.

Loading into groups fails as loading does, and otherwise leaves the groups of the loaded permissions
(`load_groups`).  Each group has the permissions that are for it in the order loaded, so that they get
the same ids, and every request has the same candidates (`exists_load_hold`). -/

namespace AccessControl

/-! ### Lists under keys -/

section entries
variable {α β : Type} {key : String} {value : List α}

/-- What is under a key, which is nothing before there is an entry. -/
def under (entries : List (String × List α)) (key : String) : List α := (entries.lookup key).getD []

/-- A change of what is under a key. -/
def changeUnder (key : String) (change : List α → List α) (entries : List (String × List α)) :
    List (String × List α) := putEntry key (change (under entries key)) entries

theorem under_changeUnder (key name : String) (change : List α → List α)
    (entries : List (String × List α)) : under (changeUnder key change entries) name =
      if name = key then change (under entries key) else under entries name := by
  rw [changeUnder, under, lookup_putEntry]
  split <;> rfl

theorem under_cons (entry : String × List α) (rest : List (String × List α)) :
    under (entry :: rest) key = if entry.1 = key then entry.2 else under rest key := by
  rw [under, List.lookup_cons]
  by_cases h : entry.1 = key
  · rw [if_pos h, h, beq_self_eq_true]
    rfl
  · rw [if_neg h, beq_false_of_ne (Ne.symm h)]
    rfl

/-- All that stands in a table, given what stands in each of its lists. -/
def contents (content : List α → List β) (entries : List (String × List α)) : List β :=
  entries.flatMap fun entry => content entry.2

/-- What is added under a key is added to all that stands in a table. -/
theorem contents_putEntry_perm {content : List α → List β} {more : List β} (hnil : content [] = []) :
    ∀ {entries : List (String × List α)},
      (content value).Perm (content (under entries key) ++ more) →
      (contents content (putEntry key value entries)).Perm (contents content entries ++ more)
  | [], h => by
      have hnone : content (under [] key) = [] := hnil
      rw [hnone] at h
      simpa [putEntry, contents] using h
  | entry :: rest, h => by
      rw [under_cons] at h
      rw [putEntry, contents, contents]
      by_cases hkey : entry.1 = key
      · rw [if_pos hkey] at h
        rw [if_pos hkey, List.flatMap_cons, List.flatMap_cons]
        calc (content value ++ contents content rest).Perm
              (content entry.2 ++ more ++ contents content rest) := h.append_right _
          _ = content entry.2 ++ (more ++ contents content rest) := List.append_assoc _ _ _
          (content entry.2 ++ (more ++ contents content rest)).Perm
              (content entry.2 ++ (contents content rest ++ more)) :=
            List.perm_append_comm.append_left _
          _ = content entry.2 ++ contents content rest ++ more := (List.append_assoc _ _ _).symm
      · rw [if_neg hkey] at h
        rw [if_neg hkey, List.flatMap_cons, List.flatMap_cons, List.append_assoc]
        exact (contents_putEntry_perm hnil h).append_left _

/-- The lists under several keys, where keys without an entry are left out. -/
theorem flatten_filterMap_lookup (entries : List (String × List α)) (keys : List String) :
    (keys.filterMap fun key => entries.lookup key).flatten = keys.flatMap (under entries) := by
  induction keys with
  | nil => rfl
  | cons key keys ih =>
      rw [List.filterMap_cons, List.flatMap_cons, under, ← ih]
      cases entries.lookup key <;> rfl

end entries

namespace Permissions

/-! ### Groups -/

/-- Permissions by type, action and role, and how many there are. -/
structure Groups where
  types : List (String × List (String × List (String × List Permission)))
  count : Nat

namespace Groups

/-- The groups of no permissions. -/
def empty : Groups := ⟨[], 0⟩

/-- The permissions of a role for an action of a type. -/
def slot (g : Groups) (type action role : String) : List Permission :=
  under (under (under g.types type) action) role

/-- A permission added to the group of a type, an action and a role. -/
def add (g : Groups) (type action role : String) (p : Permission) : Groups where
  types := changeUnder type (changeUnder action (changeUnder role (· ++ [p]))) g.types
  count := g.count + 1

/-- A definition accepted into its group. -/
def enter (r : Registry) (g : Groups) (d : Definition) : Except Failure Groups := do
  if (Text.trim d.role.toList).isEmpty then
    throw (.invalidPermission
      ("permission on " ++ d.type ++ ":" ++ d.action ++ " has an empty role"))
  let action ← actionOf r d
  let plan ← planOf r d
  let earlier := (g.slot d.type action.key d.role).length
  return g.add d.type action.key d.role ⟨idOf d.role action earlier, d.role, action, d.condition, plan⟩

/-- The groups of a list of definitions. -/
def load (r : Registry) (definitions : List Definition) : Except Failure Groups :=
  definitions.foldlM (enter r) empty

/-- The permissions that the roles of a principal hold for an action. -/
def candidates (g : Groups) (p : Principal) (type action : String) : List Permission :=
  match g.types.lookup type with
  | none => []
  | some actions =>
    match actions.lookup action with
    | none => []
    | some roles => (p.sortedRoles.filterMap fun role => roles.lookup role).flatten

/-- All permissions, group by group. -/
def all (g : Groups) : List Permission := contents (contents (contents id)) g.types

end Groups

/-- A permission added to the group that it is for. -/
def Groups.push (g : Groups) (p : Permission) : Groups := g.add p.action.type p.action.key p.role p

/-- The groups that hold some permissions. -/
def groupsOf (ps : Permissions) : Groups := ps.foldl Groups.push .empty

/-! ### What is in the groups -/

namespace Groups

/-- A permission more in its own group, and no other group is changed. -/
theorem slot_push (g : Groups) (p : Permission) (type action role : String) :
    (g.push p).slot type action role =
      g.slot type action role ++ if p.isFor role type action then [p] else [] := by
  simp only [slot, push, add, under_changeUnder]
  by_cases hfor : p.isFor role type action = true
  · have hnames : (p.role = role ∧ p.action.type = type) ∧ p.action.key = action := by
      simpa [Permission.isFor] using hfor
    obtain ⟨⟨rfl, rfl⟩, rfl⟩ := hnames
    simp [hfor, under_changeUnder]
  · rw [if_neg hfor, List.append_nil]
    simp only [Permission.isFor, Bool.and_eq_true, beq_iff_eq, not_and] at hfor
    by_cases htype : type = p.action.type
    · subst htype
      by_cases haction : action = p.action.key
      · subst haction
        have hrole : role ≠ p.role := fun h => hfor ⟨h.symm, rfl⟩ rfl
        simp [under_changeUnder, hrole]
      · simp [under_changeUnder, haction]
    · simp [htype]

theorem all_push_perm (g : Groups) (p : Permission) : (g.push p).all.Perm (g.all ++ [p]) := by
  apply contents_putEntry_perm rfl
  apply contents_putEntry_perm rfl
  apply contents_putEntry_perm rfl
  exact List.Perm.refl _

/-- Each group has the permissions that are for it, in their order. -/
theorem slot_foldl_push (type action role : String) : ∀ (ps : Permissions) (g : Groups),
    (ps.foldl push g).slot type action role =
      g.slot type action role ++ ps.filter (·.isFor role type action)
  | [], g => (List.append_nil _).symm
  | p :: ps, g => by
      rw [List.foldl_cons, slot_foldl_push type action role ps, slot_push, List.append_assoc,
        List.filter_cons]
      split <;> rfl

theorem all_foldl_push_perm : ∀ (ps : Permissions) (g : Groups),
    (ps.foldl push g).all.Perm (g.all ++ ps)
  | [], g => by rw [List.append_nil]; exact List.Perm.refl _
  | p :: ps, g => by
      refine (all_foldl_push_perm ps (g.push p)).trans ?_
      rw [← List.singleton_append, ← List.append_assoc]
      exact (g.all_push_perm p).append_right ps

theorem count_foldl_push : ∀ (ps : Permissions) (g : Groups),
    (ps.foldl push g).count = g.count + ps.length
  | [], g => rfl
  | p :: ps, g => by
      have hpush : (g.push p).count = g.count + 1 := rfl
      rw [List.foldl_cons, count_foldl_push ps, hpush, List.length_cons]
      omega

/-- The candidates of a request are those of the groups of its roles. -/
theorem candidates_eq_slots (g : Groups) (p : Principal) (type action : String) :
    g.candidates p type action = p.sortedRoles.flatMap (g.slot type action) := by
  have hnone : p.sortedRoles.flatMap (fun _ => ([] : List Permission)) = [] := by simp
  have hslot : g.slot type action = under (under (under g.types type) action) := rfl
  rw [candidates, hslot]
  cases htype : g.types.lookup type with
  | none =>
      have hempty : under g.types type = [] := by rw [under, htype, Option.getD_none]
      rw [hempty]
      exact hnone.symm
  | some actions =>
      have hactions : under g.types type = actions := by rw [under, htype, Option.getD_some]
      rw [hactions]
      dsimp only
      cases haction : actions.lookup action with
      | none =>
          have hempty : under actions action = [] := by rw [under, haction, Option.getD_none]
          rw [hempty]
          exact hnone.symm
      | some roles =>
          have hroles : under actions action = roles := by rw [under, haction, Option.getD_some]
          rw [hroles]
          exact flatten_filterMap_lookup roles p.sortedRoles

end Groups

theorem slot_groupsOf (ps : Permissions) (type action role : String) :
    (groupsOf ps).slot type action role = ps.filter (·.isFor role type action) :=
  Groups.slot_foldl_push type action role ps .empty

/-- Whether groups have what a list of permissions has: the same candidates for every request, and the
same permissions, with the same ids, in each group and in all. -/
structure Groups.Hold (g : Groups) (ps : Permissions) : Prop where
  candidates : ∀ p type action, g.candidates p type action = ps.candidates p type action
  slot : ∀ type action role, g.slot type action role = ps.filter (·.isFor role type action)
  all : g.all.Perm ps
  ids : (g.all.map (·.id)).Perm (ps.map (·.id))
  count : g.count = ps.length

theorem hold_groupsOf (ps : Permissions) : (groupsOf ps).Hold ps where
  candidates := by
    intro p type action
    rw [Groups.candidates_eq_slots, Permissions.candidates]
    congr 1
    funext role
    exact slot_groupsOf ps type action role
  slot := slot_groupsOf ps
  all := Groups.all_foldl_push_perm ps .empty
  ids := (Groups.all_foldl_push_perm ps .empty).map _
  count := (Groups.count_foldl_push ps .empty).trans (Nat.zero_add _)

/-! ### Loading -/

section load
variable {providers : List Provider} {r : Registry}

/-- Entering a definition fails as accepting it does, or leaves the groups of one permission more. -/
theorem enter_groupsOf (hr : Registry.build providers = .ok r) (loaded : Permissions) (d : Definition) :
    (groupsOf loaded).enter r d = (accept r loaded d).map fun p => groupsOf (loaded ++ [p]) := by
  rw [Groups.enter, accept]
  split
  · rfl
  cases haction : actionOf r d with
  | error e => rfl
  | ok action =>
      cases hplan : planOf r d with
      | error e => rfl
      | ok plan =>
          -- the action is one of the type, so that the permission is for the group that it is put in
          obtain ⟨htype, -⟩ := actionOf_ok hr haction
          have hcount : ((groupsOf loaded).slot d.type action.key d.role).length =
              loaded.countP fun p => p.isFor d.role d.type action.key := by
            rw [slot_groupsOf, List.countP_eq_length_filter]
          have hpush : ∀ p : Permission, p.role = d.role → p.action = action →
              groupsOf (loaded ++ [p]) = (groupsOf loaded).add d.type action.key d.role p := by
            rintro p hrole rfl
            rw [← htype, ← hrole, groupsOf, List.foldl_append]
            rfl
          simp only [ok_bind, hcount]
          exact congrArg Except.ok (hpush _ rfl rfl).symm

/-- Loading definitions into groups fails as loading them does, and otherwise makes the groups of the
loaded permissions. -/
theorem load_groups (hr : Registry.build providers = .ok r) (ds : List Definition) :
    Groups.load r ds = (load r ds).map groupsOf := by
  have hfold : ∀ (ds : List Definition) (loaded : Permissions),
      ds.foldlM (Groups.enter r) (groupsOf loaded) =
        (ds.foldlM (fun loaded d => return loaded ++ [← accept r loaded d]) loaded).map groupsOf := by
    intro ds
    induction ds with
    | nil => exact fun _ => rfl
    | cons d ds ih =>
        intro loaded
        rw [List.foldlM_cons, List.foldlM_cons, enter_groupsOf hr]
        cases accept r loaded d with
        | error e => rfl
        | ok p => exact ih (loaded ++ [p])
  exact hfold ds []

/-- Where permissions are loaded the groups are too, and hold them. -/
theorem exists_load_hold (hr : Registry.build providers = .ok r) {ds : List Definition}
    {ps : Permissions} (hps : load r ds = .ok ps) : ∃ g, Groups.load r ds = .ok g ∧ g.Hold ps := by
  refine ⟨groupsOf ps, ?_, hold_groupsOf ps⟩
  rw [load_groups hr, hps]
  rfl

end load

end Permissions
end AccessControl
