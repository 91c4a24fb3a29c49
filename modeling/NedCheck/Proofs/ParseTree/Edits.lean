import NedCheck.Proofs.ParseTree.Walk

/-!
# Sequences of calls

A tree that is used as it is meant to be comes about by calls that each name a node of the tree as it then is. Unlike in `Built`, a new node then cannot name itself as its parent, so every parent has a smaller number than its children. Every node is grounded, and what is known of walks holds of the walk from any node.

The traversal itself knows no numbers: it takes a node off a stack and puts the children of the node there in its place, until the stack is empty. `Traversal` says that it ends, and with which order. It ends because the nodes on the stack are grounded, and what it lists is the walks from the nodes on the stack, one after another.
-/

namespace NedCheck

namespace ParseTree

/-- A call that changes a tree. -/
inductive Edit where
  | appendChild (parent code : Nat)
  | detach (id : Nat)
  | setValueAt (id index : Nat) (value : String)
  | setValue (id : Nat) (name value : String)
  | setLocation (id : Nat) (location : String)
  | setRegion (id : Nat) (region : Region)

/-- The node that is named in a call. -/
def Edit.target : Edit → Nat
  | .appendChild parent _ => parent
  | .detach id | .setValueAt id _ _ | .setValue id _ _ | .setLocation id _ | .setRegion id _ => id

/-- The tree after a call that succeeds. -/
def edit? (tree : ParseTree) : Edit → Option ParseTree
  | .appendChild parent code => some (tree.appendChild parent code)
  | .detach id => tree.detach? id
  | .setValueAt id index value => tree.setValueAt? id index value
  | .setValue id name value => tree.setValue? id name value
  | .setLocation id location => some (tree.setLocation id location)
  | .setRegion id region => some (tree.setRegion id region)

/-- The tree after a call; one that fails changes nothing. -/
def edit (tree : ParseTree) (call : Edit) : ParseTree := (tree.edit? call).getD tree

/-- Each of the calls names a node of the tree as the calls before have left it. -/
def Accepts (tree : ParseTree) : List Edit → Prop
  | [] => True
  | call :: rest => call.target < tree.size ∧ (tree.edit call).Accepts rest

instance decidableAccepts (tree : ParseTree) : (edits : List Edit) → Decidable (tree.Accepts edits)
  | [] => inferInstanceAs (Decidable True)
  | call :: rest =>
    have := decidableAccepts (tree.edit call) rest
    inferInstanceAs (Decidable (_ ∧ _))

/-- Every parent has a smaller number than its children. -/
def Descending (tree : ParseTree) : Prop :=
  ∀ parent child, (tree.node child).parent = some parent → parent < child

variable {tree changed : ParseTree} {call : Edit}

/-! ### One call -/

theorem Built.edit? (h : tree.Built) (hcall : call.target < tree.size) (hedit : tree.edit? call = some changed) :
    changed.Built := by
  cases call with
  | appendChild parent code => exact Option.some.inj hedit ▸ .appendChild code h (Nat.le_of_lt hcall)
  | detach id => exact .detach h hedit
  | setValueAt id index value => exact .setValueAt h hedit
  | setValue id name value => exact .setValue h hedit
  | setLocation id location => exact Option.some.inj hedit ▸ .setLocation id location h
  | setRegion id region => exact Option.some.inj hedit ▸ .setRegion id region h

namespace Descending

theorem new (code : Nat) : (ParseTree.new code).Descending := by
  intro parent child hparent
  cases child <;> cases hparent

theorem of_parents (h : tree.Descending)
    (hparents : ∀ id parent, (changed.node id).parent = some parent → (tree.node id).parent = some parent) :
    changed.Descending :=
  fun parent child hparent => h parent child (hparents child parent hparent)

theorem modify (h : tree.Descending) (id : Nat) {change : Node → Node}
    (hparent : ∀ node, (change node).parent = node.parent) : (tree.modify id change).Descending := by
  refine h.of_parents fun other parent hlink => ?_
  rwa [apply_node_modify hparent] at hlink

theorem setValueAt (h : tree.Descending) {id index : Nat} {value : String}
    (hset : tree.setValueAt? id index value = some changed) : changed.Descending := by
  rw [eq_modify_of_setValueAt hset]
  exact h.modify id fun _ => rfl

theorem appendChild (h : tree.Descending) {parent : Nat} (hparent : parent < tree.size) (code : Nat) :
    (tree.appendChild parent code).Descending := by
  intro above child hlink
  rw [parent_node_appendChild (Nat.le_of_lt hparent)] at hlink
  split_ifs at hlink with hnew
  · rw [hnew, ← Option.some.inj hlink]
    exact hparent
  · exact h above child hlink

theorem detach (h : tree.Descending) (hlinked : tree.Linked) {id : Nat} (hdetach : tree.detach? id = some changed) :
    changed.Descending := by
  obtain ⟨parent, hparent, -⟩ := Option.map_eq_some_iff.1 hdetach
  rw [hlinked.detach?_eq hparent, Option.some.injEq] at hdetach
  rw [← hdetach]
  refine h.of_parents fun other above hlink => ?_
  rw [node_prune] at hlink
  dsimp only at hlink
  split_ifs at hlink
  exact hlink

theorem edit? (h : tree.Descending) (hlinked : tree.Linked) (hcall : call.target < tree.size)
    (hedit : tree.edit? call = some changed) : changed.Descending := by
  cases call with
  | appendChild parent code => exact Option.some.inj hedit ▸ h.appendChild hcall code
  | detach id => exact h.detach hlinked hedit
  | setValueAt id index value => exact h.setValueAt hedit
  | setValue id name value =>
    obtain ⟨index, hset⟩ := exists_setValueAt_of_setValue hedit
    exact h.setValueAt hset
  | setLocation id location => exact Option.some.inj hedit ▸ h.modify id fun _ => rfl
  | setRegion id region => exact Option.some.inj hedit ▸ h.modify id fun _ => rfl

theorem grounded (h : tree.Descending) (id : Nat) : tree.Grounded id :=
  fun below _ hself => Nat.lt_irrefl below (h below below hself)

end Descending

/-! ### Many calls -/

theorem built_and_descending (hbuilt : tree.Built) (hdescending : tree.Descending) {edits : List Edit}
    (haccepts : tree.Accepts edits) : (edits.foldl edit tree).Built ∧ (edits.foldl edit tree).Descending := by
  induction edits generalizing tree with
  | nil => exact ⟨hbuilt, hdescending⟩
  | cons call rest ih =>
    obtain ⟨hcall, hrest⟩ := haccepts
    rw [List.foldl_cons]
    cases hedit : tree.edit? call with
    | none =>
      have hsame : tree.edit call = tree := by rw [edit, hedit, Option.getD_none]
      rw [hsame] at hrest ⊢
      exact ih hbuilt hdescending hrest
    | some changed =>
      have hchanged : tree.edit call = changed := by rw [edit, hedit, Option.getD_some]
      rw [hchanged] at hrest ⊢
      exact ih (hbuilt.edit? hcall hedit) (hdescending.edit? hbuilt.linked hcall hedit) hrest

/-! ### Traversals -/

/-- The traversal with the nodes on a stack ends, and lists nodes in the given order: as long as there is a node on the stack, the topmost one is listed and its children take its place. -/
inductive Traversal (tree : ParseTree) : (stack order : List Nat) → Prop where
  | done : Traversal tree [] []
  | visit {id : Nat} {stack order : List Nat} : Traversal tree ((tree.node id).children ++ stack) order →
    Traversal tree (id :: stack) (id :: order)

theorem Traversal.unique {stack order other : List Nat} (h : tree.Traversal stack order)
    (hother : tree.Traversal stack other) : order = other := by
  induction h generalizing other with
  | done =>
    cases hother
    rfl
  | visit _ ih =>
    cases hother with
    | visit hother => rw [ih hother]

/-- In front of a traversal that ends, the walk from a grounded node ends as well. -/
theorem Linked.traversal_cons (h : tree.Linked) {id : Nat} (hground : tree.Grounded id) {stack order : List Nat}
    (htraversal : tree.Traversal stack order) : tree.Traversal (id :: stack) (tree.walk id ++ order) := by
  refine h.grounded_induction (P := fun id => ∀ stack order, tree.Traversal stack order →
    tree.Traversal (id :: stack) (tree.walk id ++ order)) ?_ hground stack order htraversal
  intro id hground ih stack order htraversal
  have along : ∀ children ⊆ (tree.node id).children,
      tree.Traversal (children ++ stack) (children.flatMap tree.walk ++ order) := by
    intro children
    induction children with
    | nil => exact fun _ => htraversal
    | cons child rest ihRest =>
      intro hchildren
      obtain ⟨hchild, hrest⟩ := List.cons_subset.1 hchildren
      rw [List.flatMap_cons, List.append_assoc]
      exact ih child hchild _ _ (ihRest hrest)
  rw [h.walk_eq hground]
  exact .visit (along _ (List.Subset.refl _))

theorem Linked.traversal_iff (h : tree.Linked) {id : Nat} (hground : tree.Grounded id) (order : List Nat) :
    tree.Traversal [id] order ↔ order = tree.walk id := by
  have hwalk := h.traversal_cons hground .done
  rw [List.append_nil] at hwalk
  exact ⟨fun htraversal => htraversal.unique hwalk, fun heq => heq ▸ hwalk⟩

/-- After any calls that name nodes of the tree, a node stands among the children of another one, once, if and only if it names that one as its parent; parents have smaller numbers than their children, children are in the order of their numbers, the root has no parent, and every node has as many values as its kind has attributes. The traversal from any node ends with its walk, which is the node with the walks of its children after it, and lists the nodes from which one gets to the node along parents, each once. -/
theorem linked_edits {code : Nat} {edits : List Edit} (haccepts : (ParseTree.new code).Accepts edits) :
    let tree := edits.foldl edit (.new code)
    (∀ parent child, (tree.node parent).children.count child = if (tree.node child).parent = some parent then 1 else 0) ∧
    (∀ parent child, (tree.node child).parent = some parent → parent < child) ∧
    (∀ id, (tree.node id).children.Pairwise (· < ·)) ∧
    (tree.node root).parent = none ∧
    (∀ id, (tree.node id).attributes.length = (tree.node id).arity) ∧
    (∀ id order, tree.Traversal [id] order ↔ order = tree.walk id) ∧
    (∀ id, (tree.walk id).Nodup) ∧
    (∀ id below, below ∈ tree.walk id ↔ tree.Under below id) ∧
    ∀ id, tree.walk id = id :: (tree.node id).children.flatMap tree.walk := by
  obtain ⟨hbuilt, hdescending⟩ := built_and_descending (.new code) (.new code) haccepts
  have h := hbuilt.linked
  refine ⟨fun parent child => ?_, hdescending, h.increasing, h.root_free, hbuilt.schematic,
    fun id => h.traversal_iff (hdescending.grounded id), fun id => h.walk_nodup (hdescending.grounded id),
    fun id below => h.mem_walk_iff (hdescending.grounded id), fun id => h.walk_eq (hdescending.grounded id)⟩
  split_ifs with hparent
  · exact List.count_eq_one_of_mem ((h.increasing parent).imp Nat.ne_of_lt) (h.mem_children_iff.2 hparent)
  · exact List.count_eq_zero_of_not_mem fun hmem => hparent (h.mem_children_iff.1 hmem)

/-- A module is detached before its second section is appended; of the last two calls one fails. -/
def detachedModuleEdits : List Edit :=
  [.appendChild 0 9, .appendChild 1 14, .detach 1, .appendChild 1 19, .appendChild 0 99, .setValueAt 4 0 "A",
    .setValue 1 "name" "A"]

/-- The file has lost the module, and the walk from the module has both sections. -/
theorem linked_edits_detachedModule :
    (ParseTree.new 2).Accepts detachedModuleEdits ∧
      (detachedModuleEdits.foldl edit (.new 2)).Traversal [root] [0, 4] ∧
      (detachedModuleEdits.foldl edit (.new 2)).Traversal [1] [1, 2, 3] := by
  have haccepts : (ParseTree.new 2).Accepts detachedModuleEdits := by decide +kernel
  obtain ⟨-, -, -, -, -, htraversal, -⟩ := linked_edits haccepts
  exact ⟨haccepts, (htraversal root _).2 (by decide +kernel), (htraversal 1 _).2 (by decide +kernel)⟩

end ParseTree

end NedCheck
