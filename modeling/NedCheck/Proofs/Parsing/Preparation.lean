import NedCheck.Parsing
import NedCheck.Proofs.ParseTree.Repair

/-!
# Preparing a tree

Before a tree is checked, the root of an MSG file gets the name of the file, and a tree that came with messages is repaired. Neither adds nodes, and a node keeps its kind, its location and its region; it may lose its place, and the root may get another value for one of its attributes. Of the problems of a tree, repair leaves those of the root.
-/

namespace NedCheck

namespace ParseRequest

variable {request : ParseRequest} {messages : List Message} {tree : ParseTree}

/-- The tree as it came, with the file name in an MSG file. -/
def named (request : ParseRequest) (tree : ParseTree) : ParseTree :=
  if request.kind = .msg ∧ (tree.node ParseTree.root).tag? = some .msgFile then
    (tree.setValue? ParseTree.root "filename" request.displayName).getD tree
  else tree

/-- A tree is repaired if there are messages, unless the options say otherwise. -/
def Repairs (request : ParseRequest) (messages : List Message) : Prop :=
  messages ≠ [] ∧ request.options.repair = true

theorem prepare_of_repairs (h : request.Repairs messages) :
    request.prepare messages tree = (request.named tree).repair.1 := by
  have hrepairs : (!messages.isEmpty && request.options.repair) = true := by simpa [Repairs] using h
  rw [prepare, named, if_pos hrepairs]

theorem prepare_of_not_repairs (h : ¬request.Repairs messages) :
    request.prepare messages tree = request.named tree := by
  have hkeeps : ¬(!messages.isEmpty && request.options.repair) = true := by simpa [Repairs] using h
  rw [prepare, named, if_neg hkeeps]

theorem named_eq (request : ParseRequest) (tree : ParseTree) : request.named tree = tree ∨
    ∃ index value, request.named tree = tree.modify ParseTree.root fun node =>
      { node with attributes := node.attributes.set index value } := by
  unfold named
  split_ifs
  · cases hset : tree.setValue? ParseTree.root "filename" request.displayName with
    | none => exact .inl rfl
    | some changed =>
      obtain ⟨index, hset⟩ := ParseTree.exists_setValueAt_of_setValue hset
      exact .inr ⟨index, _, ParseTree.eq_modify_of_setValueAt hset⟩
  · exact .inl rfl

theorem size_named (request : ParseRequest) (tree : ParseTree) : (request.named tree).size = tree.size := by
  rcases request.named_eq tree with hnamed | ⟨index, value, hnamed⟩
  · rw [hnamed]
  · rw [hnamed, ParseTree.size_modify]

theorem node_named (request : ParseRequest) (hsize : ParseTree.root < tree.size) (id : Nat) :
    ∃ attributes, (request.named tree).node id = { tree.node id with attributes } ∧
      (id ≠ ParseTree.root → attributes = (tree.node id).attributes) := by
  rcases request.named_eq tree with hnamed | ⟨index, value, hnamed⟩
  · exact ⟨_, by rw [hnamed], fun _ => rfl⟩
  · rw [hnamed, ParseTree.node_modify_of_lt hsize]
    split_ifs with hroot
    · exact ⟨_, rfl, fun hne => absurd hroot hne⟩
    · exact ⟨_, rfl, fun _ => rfl⟩

theorem built_named (h : tree.Built) (request : ParseRequest) : (request.named tree).Built := by
  unfold named
  split_ifs
  · cases hset : tree.setValue? ParseTree.root "filename" request.displayName with
    | none => exact h
    | some changed => exact .setValue h hset
  · exact h

/-- A tree that is prepared loses nodes to repair, or none. -/
theorem exists_prepare_eq (h : tree.Built) (request : ParseRequest) (messages : List Message) :
    ∃ detached, request.prepare messages tree = (request.named tree).prune detached := by
  by_cases hrepairs : request.Repairs messages
  · exact ⟨_, by rw [prepare_of_repairs hrepairs, (built_named h request).linked.repair_eq]⟩
  · exact ⟨[], by rw [prepare_of_not_repairs hrepairs, ParseTree.prune_nil]⟩

theorem linked_prepare (h : tree.Built) (request : ParseRequest) (messages : List Message) :
    (request.prepare messages tree).Linked := by
  obtain ⟨detached, hprepare⟩ := exists_prepare_eq h request messages
  exact hprepare ▸ (built_named h request).linked.prune detached

theorem complete_prepare (h : tree.Built) (request : ParseRequest) (messages : List Message) :
    (request.prepare messages tree).Complete := by
  obtain ⟨detached, hprepare⟩ := exists_prepare_eq h request messages
  exact hprepare ▸ (built_named h request).complete.prune detached

theorem size_prepare (h : tree.Built) (request : ParseRequest) (messages : List Message) :
    (request.prepare messages tree).size = tree.size := by
  obtain ⟨detached, hprepare⟩ := exists_prepare_eq h request messages
  rw [hprepare, ParseTree.size_prune, size_named]

/-- What becomes of a node while its tree is prepared: it may lose its place, and the root may get a name. -/
theorem node_prepare (h : tree.Built) (request : ParseRequest) (messages : List Message) (id : Nat) :
    ∃ attributes parent children,
      (request.prepare messages tree).node id = { tree.node id with attributes, parent, children } ∧
        (id ≠ ParseTree.root → attributes = (tree.node id).attributes) := by
  obtain ⟨detached, hprepare⟩ := exists_prepare_eq h request messages
  obtain ⟨attributes, hnode, hattributes⟩ := node_named request h.linked.size_pos id
  rw [hprepare, ParseTree.node_prune, hnode]
  exact ⟨attributes, _, _, rfl, hattributes⟩

/-! ### What is wrong with a prepared tree -/

theorem problems_prepare_of_repairs (h : tree.Built) (hrepairs : request.Repairs messages) :
    (request.prepare messages tree).problems =
      (request.named tree).problems.filter fun found => found.1 = ParseTree.root := by
  have hnamed := (built_named h request).linked
  rw [prepare_of_repairs hrepairs, hnamed.repair_eq, hnamed.problems_prune_culprits, hnamed.filter_problems]

theorem problems_prepare_ne_nil_iff (h : tree.Built) : (request.prepare messages tree).problems ≠ [] ↔
    (¬request.Repairs messages ∧ (request.named tree).problems ≠ []) ∨
      (request.Repairs messages ∧ (request.named tree).Flagged ParseTree.root) := by
  by_cases hrepairs : request.Repairs messages
  · rw [problems_prepare_of_repairs h hrepairs, Ne, List.filter_eq_nil_iff]
    simp [hrepairs, ParseTree.Flagged]
  · simp [prepare_of_not_repairs hrepairs, hrepairs]

end ParseRequest

theorem ParseTree.Built.not_flagged_root {tree : ParseTree} (h : tree.Built) {kind : FileKind}
    (htag : (tree.node root).tag? = some kind.rootTag) : ¬ tree.Flagged root := by
  have hvalues : ∀ spec ∈ kind.rootTag.attributes, ∀ value, valueProblem? kind.rootTag spec value = none := by
    have hattributes : kind.rootTag.attributes = [.text "filename", ⟨"version", some "2", .text⟩] := by
      cases kind <;> rfl
    simp only [hattributes, List.forall_mem_cons]
    exact ⟨fun _ => rfl, fun _ => rfl, by simp⟩
  have hown : tree.ownProblems root = [] := by
    rw [ownProblems, htag]
    dsimp only
    rw [if_neg (not_not.2 (h.complete root _ htag)), List.filterMap_eq_nil_iff]
    exact fun pair hpair => hvalues pair.1 (List.of_mem_zip hpair).1 pair.2
  rintro ⟨problem, hproblem⟩
  have hfound : (root, problem) ∈ tree.problems.filter fun found => found.1 = root :=
    List.mem_filter.2 ⟨hproblem, by simp⟩
  rw [h.linked.filter_problems, hown] at hfound
  cases hfound

end NedCheck
