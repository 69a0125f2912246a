import AccessControl.Policy.Reader
import AccessControl.Proofs.Inquiry
import Mathlib.Data.List.Forall2

/-! # What the nodes of a document make

A policy is made of the nodes of a document one after another: every `resource` node makes one
declaration and every `permission` node some definitions, in their order, and nothing else is in the
policy (`Policy.Makes`, `ofNodes_ok`).  The nodes of one document after those of another make one
policy after the other (`ofNodes_append`), or fail as the first node that fails. -/

namespace AccessControl

open Kdl (Node)

/-! ### Telling nodes apart -/

namespace Kdl

deriving instance DecidableEq for Scalar, Entry

mutual

/-- Whether two nodes are the same. -/
def Node.decide : (a b : Node) → Decidable (a = b)
  | .mk name entries children, .mk name' entries' children' =>
    match decEq (name, entries) (name', entries'), decideNodes children children' with
    | isTrue h, isTrue h' => isTrue (by cases h; cases h'; rfl)
    | isFalse h, _ => isFalse (by rintro ⟨⟩; exact h rfl)
    | _, isFalse h => isFalse (by rintro ⟨⟩; exact h rfl)

def decideNodes : (xs ys : List Node) → Decidable (xs = ys)
  | [], [] => isTrue rfl
  | [], _ :: _ => isFalse nofun
  | _ :: _, [] => isFalse nofun
  | x :: xs, y :: ys =>
    match Node.decide x y, decideNodes xs ys with
    | isTrue h, isTrue h' => isTrue (by rw [h, h'])
    | isFalse h, _ => isFalse (fun heq => h (List.cons.inj heq).1)
    | _, isFalse h => isFalse (fun heq => h (List.cons.inj heq).2)

end

instance : DecidableEq Node := Node.decide

end Kdl

namespace Policy

/-! ### One policy after another -/

/-- What two policies declare together. -/
def append (p q : Policy) : Policy := ⟨p.resources ++ q.resources, p.permissions ++ q.permissions⟩

@[simp] theorem append_empty (p : Policy) : p.append empty = p := by
  simp [append, empty]

theorem append_assoc (p q s : Policy) : (p.append q).append s = p.append (q.append s) := by
  simp [append]

/-! ### Reading nodes in order -/

/-- What a node adds does not depend on what is there. -/
theorem readNode_eq (p : Policy) (n : Node) :
    readNode p n = (readNode empty n).map (p.append ·) := by
  unfold readNode
  split
  · cases readResource n with
    | error e => rfl
    | ok d => simp [append, empty, Except.map, bind, Except.bind, pure, Except.pure]
  · split
    · cases readPermission n with
      | error e => rfl
      | ok ds => simp [append, empty, Except.map, bind, Except.bind, pure, Except.pure]
    · simp [Except.map]

theorem foldlM_readNode : ∀ (nodes : List Node) (p : Policy),
    nodes.foldlM readNode p = (ofNodes nodes).map (p.append ·)
  | [], p => by simp [ofNodes, pure, Except.pure, Except.map]
  | n :: rest, p => by
      rw [ofNodes, List.foldlM_cons, List.foldlM_cons, readNode_eq]
      cases readNode empty n with
      | error e => rfl
      | ok q =>
          have hp := foldlM_readNode rest (p.append q)
          have hq := foldlM_readNode rest q
          simp only [Except.map, bind, Except.bind] at hp hq ⊢
          rw [hp, hq]
          cases ofNodes rest with
          | error e => rfl
          | ok s => simp only [append_assoc]

/-- The nodes of two documents make one policy after the other. -/
theorem ofNodes_append (xs ys : List Node) :
    ofNodes (xs ++ ys) = ofNodes xs >>= fun p => (ofNodes ys).map (p.append ·) := by
  rw [ofNodes, List.foldlM_append]
  show (ofNodes xs >>= fun p => ys.foldlM readNode p) = _
  simp only [foldlM_readNode]

theorem ofNodes_singleton (n : Node) : ofNodes [n] = readNode empty n := by
  rw [ofNodes, List.foldlM_cons]
  cases readNode empty n <;> rfl

/-! ### What is made -/

/-- Whether a policy is what nodes make: a declaration of each `resource` node, and the definitions
of each `permission` node, in the order of the nodes. -/
structure Makes (nodes : List Node) (p : Policy) : Prop where
  resources : List.Forall₂ (fun n d => readResource n = .ok d)
    (nodes.filter (·.name == "resource")) p.resources
  permissions : ∃ made, List.Forall₂ (fun n ds => readPermission n = .ok ds)
    (nodes.filter (·.name == "permission")) made ∧ p.permissions = made.flatten

theorem makes_nil : Makes [] empty := ⟨.nil, [], .nil, rfl⟩

/-- What a node makes stands in front of what the nodes after it make. -/
theorem Makes.append {xs ys : List Node} {p q : Policy} (hp : Makes xs p) (hq : Makes ys q) :
    Makes (xs ++ ys) (p.append q) := by
  obtain ⟨hresources, made, hmade, hpermissions⟩ := hp
  obtain ⟨hresources', made', hmade', hpermissions'⟩ := hq
  constructor
  · rw [List.filter_append]
    exact List.rel_append hresources hresources'
  · refine ⟨made ++ made', ?_, ?_⟩
    · rw [List.filter_append]
      exact List.rel_append hmade hmade'
    · rw [Policy.append, hpermissions, hpermissions', List.flatten_append]

/-- One node makes what is read of it. -/
theorem makes_singleton {n : Node} {p : Policy} (h : readNode empty n = .ok p) : Makes [n] p := by
  unfold readNode at h
  split at h
  · rename_i hname
    obtain ⟨d, hd, h⟩ := bind_eq_ok.mp h
    cases h
    exact ⟨by simpa [hname, empty] using hd, [], by simp [hname], rfl⟩
  · split at h
    · rename_i hresource hname
      obtain ⟨ds, hds, h⟩ := bind_eq_ok.mp h
      cases h
      exact ⟨by simp [hname, empty], [ds], by simpa [hname] using hds, by simp [empty]⟩
    · rename_i hresource hpermission
      cases h
      exact ⟨by simp [hresource, empty], [], by simp [hpermission], rfl⟩

/-- The policy of a document is made of its nodes. -/
theorem ofNodes_ok : ∀ {nodes : List Node} {p : Policy}, ofNodes nodes = .ok p → Makes nodes p
  | [], p, h => by
      cases h
      exact makes_nil
  | n :: rest, p, h => by
      rw [← List.singleton_append, ofNodes_append, ofNodes_singleton] at h
      obtain ⟨q, hq, h⟩ := bind_eq_ok.mp h
      cases hrest : ofNodes rest with
      | error e =>
          rw [hrest] at h
          cases h
      | ok s =>
          rw [hrest] at h
          cases h
          exact (makes_singleton hq).append (ofNodes_ok hrest)

end Policy
end AccessControl
