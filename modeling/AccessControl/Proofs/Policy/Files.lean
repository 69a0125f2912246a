import AccessControl.Policy.Reader
import AccessControl.Proofs.Acceptance
import AccessControl.Proofs.Names
import AccessControl.Proofs.Policy.Nodes

/-! # Policies in several files

It makes no difference how the nodes of a policy are distributed over files, as long as the order of
the names of the files is that of the nodes: loading the directory has the same answer as loading
one file with all nodes, be it a policy or a failure (`load_of_holds`).  Neither the order in which
the directory is listed matters, nor what else is in it.

Files are read up to the first that is refused, and types are compared afterwards; so the failure is
that of the first node that is refused, and only if there is none that of a type declared twice, in
one file as in several. -/

namespace AccessControl

open Kdl (Node)

/-- Names that are listed in any order are sorted into their ascending order. -/
theorem sortedNames_of_perm {names sorted : List String} (h : names.Perm sorted)
    (hsorted : sorted.Pairwise (· < ·)) : sortedNames names = sorted := by
  refine eq_of_pairwise (sortedNames_pairwise names) hsorted fun name => ?_
  rw [mem_sortedNames, h.mem_iff]

namespace Policy

/-! ### Documents one after another -/

/-- What several policies declare together. -/
def joined (policies : List Policy) : Policy :=
  ⟨policies.flatMap (·.resources), policies.flatMap (·.permissions)⟩

theorem joined_cons (p : Policy) (rest : List Policy) :
    joined (p :: rest) = p.append (joined rest) := by
  simp [joined, append]

/-- Merging depends only on what is declared together. -/
theorem merge_eq (policies : List Policy) : merge policies = merge [joined policies] := by
  simp [merge, joined]

/-- The nodes of several documents make what the policies of the documents declare together. -/
theorem ofNodes_flatten : ∀ documents : List (List Node),
    ofNodes documents.flatten = (documents.mapM ofNodes).map joined
  | [] => rfl
  | nodes :: rest => by
      rw [List.flatten_cons, ofNodes_append, ofNodes_flatten rest, List.mapM_cons]
      cases ofNodes nodes with
      | error e => rfl
      | ok p =>
          cases rest.mapM ofNodes with
          | error e => rfl
          | ok policies => exact congrArg Except.ok (joined_cons p policies).symm

/-- Merging the policies of several documents is merging the policy of all their nodes. -/
theorem mapM_ofNodes_merge (documents : List (List Node)) :
    documents.mapM ofNodes >>= merge = ofNodes documents.flatten >>= fun p => merge [p] := by
  rw [ofNodes_flatten]
  cases documents.mapM ofNodes with
  | error e => rfl
  | ok policies => exact merge_eq policies

/-! ### Directories of documents -/

/-- A policy file: its name, its text, and the nodes that the text is read as. -/
structure Document where
  name : String
  text : String
  nodes : List Node

variable {m : Type → Type} [Monad m]

/-- Whether the policy files of a directory are some documents, in ascending order of their names.
The directory can be listed in any order, and other entries can be in it. -/
structure Holds (fs : FileSystem m) (path : String) (documents : List Document) : Prop where
  listed : ∃ names, fs.look path = pure (some (.directory names)) ∧
    (names.filter isPolicyFile).Perm (documents.map (·.name))
  ascending : (documents.map (·.name)).Pairwise (· < ·)
  found : ∀ d ∈ documents,
    fs.look (FileSystem.join path d.name) = pure (some (.file (.text d.text)))
  parsed : ∀ d ∈ documents, Kdl.read? d.text = some d.nodes

section load
variable [LawfulMonad m] {fs fs' : FileSystem m} {path path' : String}

/-- Documents are read one after another. -/
theorem readFiles_eq : ∀ {documents : List Document},
    (∀ d ∈ documents, fs.look (FileSystem.join path d.name) = pure (some (.file (.text d.text)))) →
    (∀ d ∈ documents, Kdl.read? d.text = some d.nodes) →
    readFiles fs ((documents.map (·.name)).map (FileSystem.join path)) =
      pure ((documents.map (·.nodes)).mapM ofNodes)
  | [], _, _ => rfl
  | d :: rest, hfound, hparsed => by
      obtain ⟨hd, hfound⟩ := List.forall_mem_cons.mp hfound
      obtain ⟨hnodes, hparsed⟩ := List.forall_mem_cons.mp hparsed
      have hpolicy : ofEntry (FileSystem.join path d.name) (some (.file (.text d.text))) =
          ofNodes d.nodes := by
        rw [ofEntry, read, hnodes]
      rw [List.map_cons, List.map_cons, List.map_cons, List.mapM_cons, readFiles, hd, pure_bind,
        hpolicy]
      cases ofNodes d.nodes with
      | error e => rfl
      | ok p =>
          dsimp only
          rw [readFiles_eq hfound hparsed, pure_bind]
          rfl

/-- A directory is loaded as the nodes of all its documents, one after another. -/
theorem load_eq {documents : List Document} (h : Holds fs path documents) :
    load fs path = pure (ofNodes (documents.flatMap (·.nodes)) >>= fun p => merge [p]) := by
  obtain ⟨names, hlook, hlisted⟩ := h.listed
  have hfiles : policyFiles names = documents.map (·.name) :=
    sortedNames_of_perm hlisted h.ascending
  rw [load, hlook, pure_bind, List.flatMap_def, ← mapM_ofNodes_merge]
  dsimp only
  rw [hfiles, readFiles_eq h.found h.parsed, pure_bind]

/-- A policy has one answer, whether its nodes are in one file or in several whose names are in the
order of the nodes.  If the answer is a policy, its types are different, and it has every
declaration and every definition that the nodes make, in the order of the nodes. -/
theorem load_of_holds {documents : List Document} {whole : Document} (h : Holds fs path documents)
    (hwhole : Holds fs' path' [whole]) (hnodes : whole.nodes = documents.flatMap (·.nodes)) :
    ∃ answer, load fs path = pure answer ∧ load fs' path' = pure answer ∧
      ∀ p, answer = .ok p → (p.resources.map (·.type)).Nodup ∧ Makes whole.nodes p := by
  refine ⟨_, load_eq h, ?_, fun p hp => ?_⟩
  · rw [load_eq hwhole, List.flatMap_singleton, hnodes]
  · rw [← hnodes] at hp
    obtain ⟨q, hq, hmerge⟩ := bind_eq_ok.mp hp
    obtain ⟨rfl, htypes⟩ := merge_eq_ok.mp hmerge
    simp only [List.flatMap_singleton] at htypes ⊢
    exact ⟨htypes, ofNodes_ok hq⟩

end load

end Policy

/-! ### A shelf of policies -/

deriving instance DecidableEq for Content, Entry

namespace Shelf

def typeNode : Node :=
  .mk "resource" [⟨none, .string "note"⟩]
    [.mk "actions" [] [.mk "-" [⟨none, .string "view"⟩] []]]

def ruleNode : Node :=
  .mk "permission" [⟨none, .string "user"⟩, ⟨some "on", .string "note"⟩,
    ⟨some "action", .string "view"⟩] []

def types : Policy.Document := ⟨"a.kdl", "resource note { actions { - view } }", [typeNode]⟩

def rules : Policy.Document := ⟨"b.kdl", "permission user on=note action=view", [ruleNode]⟩

def whole : Policy.Document := ⟨"all.kdl", types.text ++ "\n" ++ rules.text, [typeNode, ruleNode]⟩

/-- A directory with a file of types and one of rules, which is listed first, and a directory with
one file of both. -/
def tree : FileTree := .directory
  [("several", .directory [("b.kdl", .file (.text rules.text)), ("notes.txt", .file (.text "")),
      ("a.kdl", .file (.text types.text))]),
   ("one", .directory [("all.kdl", .file (.text whole.text))])]

def policy : Policy := ⟨[⟨"note", ["view"], []⟩], [⟨"user", "note", "view", none⟩]⟩

theorem holds_several : Policy.Holds tree.fileSystem "several" [types, rules] := by
  have hlook : tree.look? "several" = some (.directory ["b.kdl", "notes.txt", "a.kdl"]) := by
    decide +kernel
  have htypes : tree.look? "several/a.kdl" = some (.file (.text types.text)) := by decide +kernel
  have hrules : tree.look? "several/b.kdl" = some (.file (.text rules.text)) := by decide +kernel
  have hjoin : FileSystem.join "several" types.name = "several/a.kdl" ∧
      FileSystem.join "several" rules.name = "several/b.kdl" := by decide +kernel
  constructor
  case listed => exact ⟨_, hlook, by decide +kernel⟩
  case ascending => exact List.pairwise_pair.mpr (by decide)
  case found =>
    refine List.forall_mem_cons.mpr ⟨?_, List.forall_mem_singleton.mpr ?_⟩
    · rw [hjoin.1]
      exact htypes
    · rw [hjoin.2]
      exact hrules
  case parsed =>
    refine List.forall_mem_cons.mpr ⟨?_, List.forall_mem_singleton.mpr ?_⟩ <;> decide +kernel

theorem holds_one : Policy.Holds tree.fileSystem "one" [whole] := by
  have hlook : tree.look? "one" = some (.directory ["all.kdl"]) := by decide +kernel
  have hwhole : tree.look? "one/all.kdl" = some (.file (.text whole.text)) := by decide +kernel
  have hjoin : FileSystem.join "one" whole.name = "one/all.kdl" := by decide +kernel
  constructor
  case listed => exact ⟨_, hlook, by decide +kernel⟩
  case ascending => exact List.pairwise_singleton _ _
  case found =>
    refine List.forall_mem_singleton.mpr ?_
    rw [hjoin]
    exact hwhole
  case parsed => exact List.forall_mem_singleton.mpr (by decide +kernel)

end Shelf

namespace Policy

/-- The types and the rules on the shelf are loaded as one policy from two files and from one. -/
theorem load_of_holds_shelf :
    Holds Shelf.tree.fileSystem "several" [Shelf.types, Shelf.rules] ∧
    Holds Shelf.tree.fileSystem "one" [Shelf.whole] ∧
    load Shelf.tree.fileSystem "several" = .ok Shelf.policy ∧
    load Shelf.tree.fileSystem "one" = .ok Shelf.policy ∧
    Makes [Shelf.typeNode, Shelf.ruleNode] Shelf.policy := by
  obtain ⟨answer, hseveral, hone, hmade⟩ :=
    load_of_holds Shelf.holds_several Shelf.holds_one rfl
  have hanswer : answer = .ok Shelf.policy := hone.symm.trans (load_eq Shelf.holds_one)
  rw [hanswer] at hseveral hone
  exact ⟨Shelf.holds_several, Shelf.holds_one, hseveral, hone, (hmade _ hanswer).2⟩

end Policy
end AccessControl
