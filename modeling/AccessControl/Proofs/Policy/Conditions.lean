import AccessControl.Proofs.Condition.Text
import AccessControl.Proofs.Policy.Nodes

/-! # Which conditions of a permission are kept

A permission node makes definitions that all have one condition: that of the first argument of its
`condition` node, of which it has at most one, or none if it has no `condition` node
(`readPermission_ok`).  So what is written in a further argument of that node, or in a property of
the permission, is not part of the definitions (`overlooked`).  If a condition is written in neither
of these ways, all that is written is kept, and a definition is unconditional exactly if nothing is
(`conditions_of_read`). -/

namespace AccessControl

open Kdl (Node Scalar)

/-! ### Arguments and properties -/

namespace Kdl.Node

/-- The values of the arguments of a node. -/
def arguments (n : Node) : List Scalar := (n.entries.filter (·.name.isNone)).map (·.value)

/-- The values of the properties of a node that have a name. -/
def values (n : Node) (key : String) : List Scalar :=
  (n.entries.filter (·.name == some key)).map (·.value)

/-- The first argument of a node that is read as a string is a string. -/
theorem arguments_of_argument? {n : Node} {text : String} (h : n.argument? = some text) :
    ∃ more, n.arguments = .string text :: more := by
  rw [argument?, ← List.head?_filter] at h
  rw [arguments]
  cases hentries : n.entries.filter (·.name.isNone) with
  | nil =>
      rw [hentries] at h
      cases h
  | cons first rest =>
      rw [hentries, List.head?_cons, Option.bind_some] at h
      refine ⟨rest.map (·.value), ?_⟩
      rw [List.map_cons]
      cases hvalue : first.value with
      | string s =>
          rw [hvalue] at h
          cases h
          rfl
      | _ =>
          rw [hvalue] at h
          cases h

end Kdl.Node

namespace Policy

/-- The nodes inside a permission that hold its condition. -/
def conditionNodes (n : Node) : List Node := n.children.filter (·.name == "condition")

/-- All texts of conditions in a permission node: in arguments of its `condition` nodes, and in
properties of that name. -/
def conditionTexts (n : Node) : List String :=
  ((conditionNodes n).flatMap (·.arguments)).filterMap Scalar.text? ++
    (n.values "condition").filterMap Scalar.text?

/-- The texts of conditions in a permission node that are not read: in any argument of a `condition`
node but the first, and in properties of that name. -/
def overlooked (n : Node) : List String :=
  ((conditionNodes n).flatMap (·.arguments.tail)).filterMap Scalar.text? ++
    (n.values "condition").filterMap Scalar.text?

theorem conditionTexts_of_nil {n : Node} (h : conditionNodes n = []) :
    conditionTexts n = overlooked n := by
  rw [conditionTexts, overlooked, h]
  rfl

theorem conditionTexts_of_singleton {n child : Node} {text : String}
    (h : conditionNodes n = [child]) (htext : child.argument? = some text) :
    conditionTexts n = text :: overlooked n := by
  obtain ⟨more, hmore⟩ := Kdl.Node.arguments_of_argument? htext
  simp [conditionTexts, overlooked, h, hmore, Scalar.text?]

/-! ### Reading a permission -/

variable {role type : String}

/-- A node inside a permission leaves its condition as it is, or is for its condition and gives it
the first one. -/
theorem readPermissionChild_ok {g g' : Grant} {n : Node}
    (h : readPermissionChild role type g n = .ok g') :
    (n.name ≠ "condition" ∧ g'.condition = g.condition) ∨
      n.name = "condition" ∧ g.condition = none ∧
        ∃ text c, n.argument? = some text ∧ Condition.read text = .ok c ∧
          g'.condition = some c := by
  unfold readPermissionChild at h
  split at h
  · rename_i hactions
    cases h
    exact .inl ⟨by rw [hactions]; decide, rfl⟩
  · split at h
    · rename_i hcondition
      refine .inr ⟨hcondition, ?_⟩
      cases hbefore : g.condition with
      | some c =>
          rw [hbefore] at h
          cases h
      | none =>
          rw [hbefore] at h
          cases htext : n.argument? with
          | none =>
              rw [htext] at h
              cases h
          | some text =>
              rw [htext] at h
              obtain ⟨_, hread, h⟩ := bind_eq_ok.mp h
              cases hread
              obtain ⟨c, hc, h⟩ := bind_eq_ok.mp h
              cases h
              exact ⟨rfl, text, c, rfl, hc, rfl⟩
    · cases h

/-- The nodes inside a permission give it the condition of the only `condition` node, if there is
one. -/
theorem foldlM_readPermissionChild_ok : ∀ {children : List Node} {g g' : Grant},
    children.foldlM (readPermissionChild role type) g = .ok g' →
    (children.filter (·.name == "condition") = [] ∧ g'.condition = g.condition) ∨
      g.condition = none ∧ ∃ child text c, children.filter (·.name == "condition") = [child] ∧
        child.argument? = some text ∧ Condition.read text = .ok c ∧ g'.condition = some c
  | [], g, g', h => by
      cases h
      exact .inl ⟨rfl, rfl⟩
  | n :: rest, g, g', h => by
      rw [List.foldlM_cons] at h
      obtain ⟨next, hn, h⟩ := bind_eq_ok.mp h
      have hrest := foldlM_readPermissionChild_ok h
      rcases readPermissionChild_ok hn with
        ⟨hname, hsame⟩ | ⟨hname, hnone, text, c, htext, hc, hnext⟩
      · rw [List.filter_cons_of_neg (by simpa using hname), ← hsame]
        exact hrest
      · -- no condition may follow the one that was read
        rcases hrest with ⟨hempty, hkept⟩ | ⟨hnot, -⟩
        · refine .inr ⟨hnone, n, text, c, ?_, htext, hc, hkept.trans hnext⟩
          rw [List.filter_cons_of_pos (by simpa using hname), hempty]
        · rw [hnext] at hnot
          cases hnot

/-- The definitions of a permission have no condition if it has no node for one, and otherwise that
of the first argument of its only such node. -/
theorem readPermission_ok {n : Node} {ds : List Definition} (h : readPermission n = .ok ds) :
    ds ≠ [] ∧ ((conditionNodes n = [] ∧ ∀ d ∈ ds, d.condition = none) ∨
      ∃ child text c, conditionNodes n = [child] ∧ child.argument? = some text ∧
        Condition.read text = .ok c ∧ ∀ d ∈ ds, d.condition = some c) := by
  unfold readPermission at h
  obtain ⟨role, -, h⟩ := bind_eq_ok.mp h
  obtain ⟨type, -, h⟩ := bind_eq_ok.mp h
  obtain ⟨grant, hgrant, h⟩ := bind_eq_ok.mp h
  split at h
  · cases h
  · rename_i hactions
    cases h
    have hcondition : ∀ d ∈ grant.actions.map fun action => Definition.mk role type action
        grant.condition, d.condition = grant.condition := by
      intro d hd
      obtain ⟨action, -, rfl⟩ := List.mem_map.mp hd
      rfl
    refine ⟨by simpa using hactions, ?_⟩
    rcases foldlM_readPermissionChild_ok hgrant with
      ⟨hempty, hnone⟩ | ⟨-, child, text, c, hchild, htext, hc, hsome⟩
    · exact .inl ⟨hempty, fun d hd => (hcondition d hd).trans hnone⟩
    · exact .inr ⟨child, text, c, hchild, htext, hc, fun d hd => (hcondition d hd).trans hsome⟩

/-! ### Reading a document -/

theorem read_ok {text : String} {p : Policy} (h : read text = .ok p) :
    ∃ nodes, Kdl.read? text = some nodes ∧ ofNodes nodes = .ok p := by
  unfold read at h
  cases hnodes : Kdl.read? text with
  | none =>
      rw [hnodes] at h
      cases h
  | some nodes =>
      rw [hnodes] at h
      exact ⟨nodes, rfl, h⟩

/-- The definitions of every permission are in the policy. -/
theorem Makes.readPermission {nodes : List Node} {p : Policy} (h : Makes nodes p) {n : Node}
    (hn : n ∈ nodes) (hname : n.name = "permission") :
    ∃ ds, Policy.readPermission n = .ok ds ∧ ∀ d ∈ ds, d ∈ p.permissions := by
  obtain ⟨made, hmade, hpermissions⟩ := h.permissions
  have hmem : n ∈ nodes.filter (·.name == "permission") :=
    List.mem_filter.mpr ⟨hn, by simpa using hname⟩
  obtain ⟨i, rfl⟩ := List.mem_iff_get.mp hmem
  have hlength := hmade.length_eq
  refine ⟨made[i], hmade.get i.2 (hlength ▸ i.2), fun d hd => ?_⟩
  rw [hpermissions]
  exact List.mem_flatten.mpr ⟨_, List.getElem_mem _, hd⟩

/-- The conditions that are written in a permission are the one that is read, if there is a node for
it, and those overlooked. -/
theorem conditionTexts_of_readPermission {n : Node} {ds : List Definition}
    (h : readPermission n = .ok ds) : ds ≠ [] ∧
      ((conditionTexts n = overlooked n ∧ ∀ d ∈ ds, d.condition = none) ∨
        ∃ first c, conditionTexts n = first :: overlooked n ∧ Condition.read first = .ok c ∧
          ∀ d ∈ ds, d.condition = some c) := by
  obtain ⟨hne, ⟨hnodes, hnone⟩ | ⟨child, first, c, hnodes, hfirst, hc, hsome⟩⟩ :=
    readPermission_ok h
  · exact ⟨hne, .inl ⟨conditionTexts_of_nil hnodes, hnone⟩⟩
  · exact ⟨hne, .inr ⟨first, c, conditionTexts_of_singleton hnodes hfirst, hc, hsome⟩⟩

/-- What every permission of a document makes of the conditions that are written in it.  Its
definitions are all unconditional if it has no `condition` node, and otherwise they all have the
first condition of that node.  If there are no further conditions, in other arguments of that node
or in a property, then a definition is unconditional exactly if no condition is written, and every
condition that is written is that of all the definitions. -/
theorem conditions_of_read {text : String} {p : Policy} (h : read text = .ok p) :
    ∃ nodes, Kdl.read? text = some nodes ∧ Makes nodes p ∧
      ∀ n ∈ nodes, n.name = "permission" → ∃ ds, readPermission n = .ok ds ∧ ds ≠ [] ∧
        (∀ d ∈ ds, d ∈ p.permissions) ∧
        ((conditionTexts n = overlooked n ∧ ∀ d ∈ ds, d.condition = none) ∨
          ∃ first c, conditionTexts n = first :: overlooked n ∧ Condition.read first = .ok c ∧
            ∀ d ∈ ds, d.condition = some c) ∧
        (overlooked n = [] →
          (∀ d ∈ ds, d.condition = none ↔ conditionTexts n = []) ∧
          ∀ written ∈ conditionTexts n, ∃ c, Condition.read written = .ok c ∧
            ∀ d ∈ ds, d.condition = some c) := by
  obtain ⟨nodes, hnodes, hp⟩ := read_ok h
  have hmakes := ofNodes_ok hp
  refine ⟨nodes, hnodes, hmakes, fun n hn hname => ?_⟩
  obtain ⟨ds, hds, hkept⟩ := hmakes.readPermission hn hname
  obtain ⟨hne, hconditions⟩ := conditionTexts_of_readPermission hds
  refine ⟨ds, hds, hne, hkept, hconditions, fun hall => ?_⟩
  rcases hconditions with ⟨htexts, hnone⟩ | ⟨first, c, htexts, hc, hsome⟩
  · rw [htexts, hall]
    exact ⟨fun d hd => iff_of_true (hnone d hd) rfl, nofun⟩
  · rw [htexts, hall]
    refine ⟨fun d hd => ?_, List.forall_mem_singleton.mpr ⟨c, hc, hsome⟩⟩
    rw [hsome d hd]
    exact iff_of_false nofun nofun

/-! ### Notes of their own -/

/-- A node for a condition that is read, in a permission that has none. -/
theorem readPermissionChild_condition {role type text : String} {c : Condition}
    (h : Condition.read text = .ok c) (actions : List String) (others : List Kdl.Entry) :
    readPermissionChild role type ⟨actions, none⟩
      (.mk "condition" (⟨none, .string text⟩ :: others) []) = .ok ⟨actions, some c⟩ := by
  show (Condition.read text >>= fun c => Except.ok (Grant.mk actions (some c))) = _
  rw [h]
  rfl

/-- A document of one permission is read as its definitions. -/
theorem read_of_readPermission {text : String} {n : Node} {ds : List Definition}
    (hnodes : Kdl.read? text = some [n]) (hname : n.name = "permission")
    (hds : readPermission n = .ok ds) : read text = .ok ⟨[], ds⟩ := by
  rw [read, hnodes]
  show ofNodes [n] = _
  rw [ofNodes_singleton, readNode, if_neg (by rw [hname]; decide), if_pos hname, hds]
  rfl

end Policy

namespace Diary

/-- The text of a rule by which users may view their own notes. -/
def guarded : String :=
  "permission \"user\" on=\"note\" action=\"view\" \x7b condition \"assignee == principal.id\" \x7d"

/-- The same with the condition beside the action. -/
def beside : String :=
  "permission \"user\" on=\"note\" action=\"view\" condition=\"assignee == principal.id\""

/-- The same with the condition behind another one. -/
def behind : String :=
  "permission \"user\" on=\"note\" action=\"view\" " ++
    "\x7b condition \"draft == false\" \"assignee == principal.id\" \x7d"

/-- The entries that all three have. -/
def entries : List Kdl.Entry :=
  [⟨none, .string "user"⟩, ⟨some "on", .string "note"⟩, ⟨some "action", .string "view"⟩]

def guardedNode : Node :=
  .mk "permission" entries [.mk "condition" [⟨none, .string "assignee == principal.id"⟩] []]

def besideNode : Node :=
  .mk "permission" (entries ++ [⟨some "condition", .string "assignee == principal.id"⟩]) []

def behindNode : Node :=
  .mk "permission" entries [.mk "condition"
    [⟨none, .string "draft == false"⟩, ⟨none, .string "assignee == principal.id"⟩] []]

/-- That a note is the principal's own. -/
def own : Condition := .equalsPrincipal "assignee" "id"

/-- That a note is finished. -/
def finished : Condition := .compare "draft" .equals (.literal ⟨.boolean, .boolean false⟩)

/-- The definition that a user may view a note under a condition. -/
def view (condition : Option Condition) : Definition := ⟨"user", "note", "view", condition⟩

theorem nodes_guarded : Kdl.read? guarded = some [guardedNode] := by decide +kernel

theorem nodes_beside : Kdl.read? beside = some [besideNode] := by decide +kernel

theorem nodes_behind : Kdl.read? behind = some [behindNode] := by decide +kernel

theorem read_own : Condition.read "assignee == principal.id" = .ok own := by
  have hfield : Condition.IsField "assignee" := Condition.isField_name (by decide) (by decide)
  have htext : own.write = "assignee == principal.id" := by decide +kernel
  rw [← htext]
  exact Condition.read_write_normal ⟨hfield, .principal (by decide) .string⟩

theorem read_finished : Condition.read "draft == false" = .ok finished := by
  have hfield : Condition.IsField "draft" := Condition.isField_name (by decide) (by decide)
  have htext : finished.write = "draft == false" := by decide +kernel
  rw [← htext]
  exact Condition.read_write_normal ⟨hfield, .literal (.boolean .boolean false)⟩

/-- A rule for notes whose only child gives it a condition has one definition. -/
theorem readPermission_entries {child : Node} {c : Condition}
    (h : Policy.readPermissionChild "user" "note" ⟨["view"], none⟩ child = .ok ⟨["view"], some c⟩) :
    Policy.readPermission (.mk "permission" entries [child]) = .ok [view (some c)] := by
  have hchildren : [child].foldlM (Policy.readPermissionChild "user" "note") ⟨["view"], none⟩ =
      .ok ⟨["view"], some c⟩ := by
    rw [List.foldlM_cons, h]
    rfl
  exact bind_eq_ok.mpr ⟨_, rfl, bind_eq_ok.mpr ⟨_, rfl, bind_eq_ok.mpr ⟨_, hchildren, rfl⟩⟩⟩

theorem readPermission_guarded : Policy.readPermission guardedNode = .ok [view (some own)] :=
  readPermission_entries (Policy.readPermissionChild_condition read_own _ _)

theorem readPermission_behind : Policy.readPermission behindNode = .ok [view (some finished)] :=
  readPermission_entries (Policy.readPermissionChild_condition read_finished _ _)

end Diary

namespace Policy

/-- The condition of a rule for users' own notes is read, and is that of its only definition. -/
theorem conditions_of_read_diary :
    read Diary.guarded = .ok ⟨[], [Diary.view (some Diary.own)]⟩ ∧
    overlooked Diary.guardedNode = [] ∧
    ∃ ds, readPermission Diary.guardedNode = .ok ds ∧
      (∀ d ∈ ds, d.condition = none ↔ conditionTexts Diary.guardedNode = []) ∧
      ∀ d ∈ ds, d.condition = some Diary.own := by
  have hread : read Diary.guarded = .ok ⟨[], [Diary.view (some Diary.own)]⟩ :=
    read_of_readPermission Diary.nodes_guarded rfl Diary.readPermission_guarded
  have hall : overlooked Diary.guardedNode = [] := by decide +kernel
  have hwritten : "assignee == principal.id" ∈ conditionTexts Diary.guardedNode := by decide +kernel
  obtain ⟨nodes, hnodes, -, hpermissions⟩ := conditions_of_read hread
  cases Diary.nodes_guarded.symm.trans hnodes
  obtain ⟨ds, hds, -, -, -, hkept⟩ := hpermissions _ List.mem_cons_self rfl
  obtain ⟨hnone, htexts⟩ := hkept hall
  obtain ⟨c, hc, hsome⟩ := htexts _ hwritten
  cases Diary.read_own.symm.trans hc
  exact ⟨hread, hall, ds, hds, hnone, hsome⟩

/-- A condition beside the action is not read, so that the definition is unconditional, and neither
is one behind another one, so that the definition has only the other one. -/
theorem conditions_overlooked :
    (Kdl.read? Diary.beside = some [Diary.besideNode] ∧
      conditionTexts Diary.besideNode = ["assignee == principal.id"] ∧
      readPermission Diary.besideNode = .ok [Diary.view none] ∧
      read Diary.beside = .ok ⟨[], [Diary.view none]⟩) ∧
    (Kdl.read? Diary.behind = some [Diary.behindNode] ∧
      conditionTexts Diary.behindNode = ["draft == false", "assignee == principal.id"] ∧
      readPermission Diary.behindNode = .ok [Diary.view (some Diary.finished)] ∧
      read Diary.behind = .ok ⟨[], [Diary.view (some Diary.finished)]⟩) := by
  have hbeside : readPermission Diary.besideNode = .ok [Diary.view none] := rfl
  exact ⟨⟨Diary.nodes_beside, by decide +kernel, hbeside,
      read_of_readPermission Diary.nodes_beside rfl hbeside⟩,
    Diary.nodes_behind, by decide +kernel, Diary.readPermission_behind,
      read_of_readPermission Diary.nodes_behind rfl Diary.readPermission_behind⟩

end Policy
end AccessControl
