import Mathlib.Data.List.Basic
import NedCheck.ParseTree.Basic

/-!
# Trees that are built

`ParseTree.Built` holds of the trees that come out of a single root by appending nodes, detaching nodes and setting what nodes carry. In all of them the links agree: a node stands among the children of another if and only if it names that one as its parent, children stand in the order of their numbers, and no parent has a higher number than its child. `ParseTree.Linked` collects these facts; the rest of the theory reaches built trees through them.

Detaching is described once for any number of nodes at a time: `ParseTree.prune` takes nodes off their parents and changes nothing else.
-/

namespace NedCheck

namespace Node

/-- The number of attributes of the node's kind; an unknown kind has none. -/
def arity (node : Node) : Nat := (node.tag?.map fun tag => tag.attributes.length).getD 0

theorem length_attributes_new (code : Nat) (parent : Option Nat) :
    (new code parent).attributes.length = (new code parent).arity := by
  unfold arity tag? new
  cases Tag.ofCode? code with
  | none => rfl
  | some tag => simp

end Node

namespace ParseTree

/-- A tree made by the operations. The parent named for a new node may be the new node's own number, which then is its own parent and out of reach of the root. -/
inductive Built : ParseTree → Prop where
  | new (code : Nat) : Built (.new code)
  | appendChild {tree : ParseTree} {parent : Nat} (code : Nat) :
    Built tree → parent ≤ tree.size → Built (tree.appendChild parent code)
  | detach {tree detached : ParseTree} {id : Nat} :
    Built tree → tree.detach? id = some detached → Built detached
  | setValueAt {tree changed : ParseTree} {id index : Nat} {value : String} :
    Built tree → tree.setValueAt? id index value = some changed → Built changed
  | setValue {tree changed : ParseTree} {id : Nat} {name value : String} :
    Built tree → tree.setValue? id name value = some changed → Built changed
  | setLocation {tree : ParseTree} (id : Nat) (location : String) :
    Built tree → Built (tree.setLocation id location)
  | setRegion {tree : ParseTree} (id : Nat) (region : Region) :
    Built tree → Built (tree.setRegion id region)

/-- The links between nodes agree with one another. -/
structure Linked (tree : ParseTree) : Prop where
  size_pos : 0 < tree.size
  root_free : (tree.node root).parent = none
  mem_children_iff {parent child : Nat} :
    child ∈ (tree.node parent).children ↔ (tree.node child).parent = some parent
  increasing (id : Nat) : (tree.node id).children.Pairwise (· < ·)
  parent_le {parent child : Nat} : (tree.node child).parent = some parent → parent ≤ child

/-! ### Nodes after an operation -/

theorem ext_node {left right : ParseTree} (hsize : left.size = right.size)
    (hnode : ∀ id, left.node id = right.node id) : left = right := by
  obtain ⟨leftNodes⟩ := left
  obtain ⟨rightNodes⟩ := right
  congr 1
  apply Array.ext hsize
  intro id hleft hright
  have h := hnode id
  simp only [ParseTree.node, Array.getD_eq_getD_getElem?] at h
  rwa [Array.getElem?_eq_getElem hleft, Array.getElem?_eq_getElem hright] at h

theorem node_of_size_le {tree : ParseTree} {id : Nat} (h : tree.size ≤ id) : tree.node id = default := by
  rw [ParseTree.node, Array.getD_eq_getD_getElem?, Array.getElem?_eq_none h, Option.getD_none]

theorem lt_size_of_parent {tree : ParseTree} {id parent : Nat} (h : (tree.node id).parent = some parent) :
    id < tree.size := by
  by_contra hle
  rw [node_of_size_le (Nat.le_of_not_lt hle)] at h
  exact absurd h (by simp [default, instInhabitedNode.default])

theorem size_modify (tree : ParseTree) (id : Nat) (change : Node → Node) :
    (tree.modify id change).size = tree.size := by
  simp [modify, ParseTree.size]

theorem node_modify_of_lt {tree : ParseTree} {id : Nat} (h : id < tree.size) (change : Node → Node)
    (other : Nat) :
    (tree.modify id change).node other = if other = id then change (tree.node other) else tree.node other := by
  simp only [ParseTree.node, modify, Array.getD_eq_getD_getElem?, Array.getElem?_modify]
  by_cases heq : other = id
  · subst heq
    rw [if_pos rfl, if_pos rfl, Array.getElem?_eq_getElem h]
    rfl
  · rw [if_neg heq, if_neg (Ne.symm heq)]

theorem modify_of_size_le {tree : ParseTree} {id : Nat} (h : tree.size ≤ id) (change : Node → Node) :
    tree.modify id change = tree := by
  apply ext_node (size_modify tree id change)
  intro other
  simp only [ParseTree.node, modify, Array.getD_eq_getD_getElem?, Array.getElem?_modify]
  by_cases heq : id = other
  · rw [if_pos heq, ← heq, Array.getElem?_eq_none h]
    rfl
  · rw [if_neg heq]

theorem node_modify_cases (tree : ParseTree) (id : Nat) (change : Node → Node) (other : Nat) :
    (tree.modify id change).node other = tree.node other ∨
      (tree.modify id change).node other = change (tree.node other) := by
  by_cases hid : id < tree.size
  · rw [node_modify_of_lt hid]
    split
    · exact .inr rfl
    · exact .inl rfl
  · rw [modify_of_size_le (Nat.le_of_not_lt hid)]
    exact .inl rfl

theorem apply_node_modify {α : Type} {f : Node → α} {change : Node → Node} (h : ∀ node, f (change node) = f node)
    (tree : ParseTree) (id other : Nat) : f ((tree.modify id change).node other) = f (tree.node other) := by
  rcases tree.node_modify_cases id change other with heq | heq
  · rw [heq]
  · rw [heq, h]

theorem eq_modify_of_setValueAt {tree changed : ParseTree} {id index : Nat} {value : String}
    (h : tree.setValueAt? id index value = some changed) :
    changed = tree.modify id fun node => { node with attributes := node.attributes.set index value } := by
  rw [setValueAt?] at h
  split at h
  · exact (Option.some.inj h).symm
  · cases h

theorem exists_setValueAt_of_setValue {tree changed : ParseTree} {id : Nat} {name value : String}
    (h : tree.setValue? id name value = some changed) : ∃ index, tree.setValueAt? id index value = some changed := by
  obtain ⟨tag, -, h⟩ := Option.bind_eq_some_iff.1 h
  obtain ⟨index, -, h⟩ := Option.bind_eq_some_iff.1 h
  exact ⟨index, h⟩

theorem node_push (tree : ParseTree) (node : Node) (id : Nat) :
    ParseTree.node ⟨tree.nodes.push node⟩ id = if id = tree.size then node else tree.node id := by
  simp only [ParseTree.node, Array.getD_eq_getD_getElem?, Array.getElem?_push, ParseTree.size]
  split <;> rfl

theorem size_appendChild (tree : ParseTree) (parent code : Nat) :
    (tree.appendChild parent code).size = tree.size + 1 := by
  rw [appendChild, size_modify]
  exact Array.size_push _

theorem node_appendChild {tree : ParseTree} {parent : Nat} (h : parent ≤ tree.size) (code id : Nat) :
    (tree.appendChild parent code).node id =
      let node := if id = tree.size then .new code (some parent) else tree.node id
      if id = parent then { node with children := node.children ++ [tree.size] } else node := by
  have hlt : parent < ParseTree.size ⟨tree.nodes.push (.new code (some parent))⟩ := by
    simp only [ParseTree.size, Array.size_push]
    exact Nat.lt_succ_of_le h
  rw [appendChild, node_modify_of_lt hlt, node_push]

theorem parent_node_appendChild {tree : ParseTree} {parent : Nat} (h : parent ≤ tree.size) (code id : Nat) :
    ((tree.appendChild parent code).node id).parent =
      if id = tree.size then some parent else (tree.node id).parent := by
  rw [node_appendChild h]
  dsimp only
  split_ifs <;> rfl

theorem children_node_appendChild {tree : ParseTree} {parent : Nat} (h : parent ≤ tree.size) (code id : Nat) :
    ((tree.appendChild parent code).node id).children =
      (tree.node id).children ++ if id = parent then [tree.size] else [] := by
  rw [node_appendChild h]
  dsimp only
  by_cases hnew : id = tree.size
  · rw [if_pos hnew, hnew, node_of_size_le (Nat.le_refl _)]
    split_ifs <;> rfl
  · rw [if_neg hnew]
    split_ifs
    · rfl
    · rw [List.append_nil]

/-! ### Pruning -/

/-- The tree with the given nodes taken off their parents. -/
def prune (tree : ParseTree) (ids : List Nat) : ParseTree where
  nodes := tree.nodes.mapIdx fun id node =>
    { node with
      parent := if id ∈ ids then none else node.parent
      children := node.children.filter (· ∉ ids) }

theorem size_prune (tree : ParseTree) (ids : List Nat) : (tree.prune ids).size = tree.size := by
  simp [prune, ParseTree.size]

theorem node_prune (tree : ParseTree) (ids : List Nat) (id : Nat) :
    (tree.prune ids).node id =
      { tree.node id with
        parent := if id ∈ ids then none else (tree.node id).parent
        children := (tree.node id).children.filter (· ∉ ids) } := by
  simp only [ParseTree.node, prune, Array.getD_eq_getD_getElem?, Array.getElem?_mapIdx]
  cases tree.nodes[id]? with
  | none => simp [default, instInhabitedNode.default]
  | some node => rfl

theorem prune_nil (tree : ParseTree) : tree.prune [] = tree := by
  apply ext_node (size_prune tree [])
  intro id
  simp [node_prune]

theorem prune_prune (tree : ParseTree) (first rest : List Nat) :
    (tree.prune first).prune rest = tree.prune (first ++ rest) := by
  apply ext_node (by simp only [size_prune])
  intro id
  simp only [node_prune, List.filter_filter, List.mem_append, Node.mk.injEq, true_and]
  constructor
  · by_cases hfirst : id ∈ first <;> simp [hfirst]
  · apply List.filter_congr
    intro child _
    by_cases hfirst : child ∈ first <;> simp [hfirst]

namespace Linked

variable {tree : ParseTree}

theorem prune (h : tree.Linked) (ids : List Nat) : (tree.prune ids).Linked where
  size_pos := by
    rw [size_prune]
    exact h.size_pos
  root_free := by simp [node_prune, h.root_free]
  mem_children_iff {parent child} := by
    simp only [node_prune, List.mem_filter, h.mem_children_iff, decide_eq_true_eq]
    by_cases hchild : child ∈ ids <;> simp [hchild]
  increasing id := by
    rw [node_prune]
    exact (h.increasing id).sublist List.filter_sublist
  parent_le {parent child} hparent := by
    rw [node_prune] at hparent
    by_cases hchild : child ∈ ids
    · simp [hchild] at hparent
    · exact h.parent_le (by simpa [hchild] using hparent)

/-- Detaching a node prunes it, since no other node has it as a child. -/
theorem detach?_eq (h : tree.Linked) {id parent : Nat} (hparent : (tree.node id).parent = some parent) :
    tree.detach? id = some (tree.prune [id]) := by
  have hid := lt_size_of_parent hparent
  have hlt : parent < (tree.modify id fun node => { node with parent := none }).size := by
    rw [size_modify]
    exact Nat.lt_of_le_of_lt (h.parent_le hparent) hid
  rw [detach?, hparent, Option.map_some, Option.some.injEq]
  apply ext_node (by simp only [size_modify, size_prune])
  intro other
  rw [node_modify_of_lt hlt, node_modify_of_lt hid, node_prune]
  -- only the parent has the node among its children
  have hchildren : other ≠ parent → (tree.node other).children.filter (· ∉ [id]) = (tree.node other).children := by
    intro hne
    rw [List.filter_eq_self]
    intro child hchild
    have heq : child ≠ id := by
      intro heq
      rw [heq, h.mem_children_iff, hparent] at hchild
      exact hne (Option.some.inj hchild).symm
    simp [heq]
  by_cases hself : other = id <;> by_cases hother : other = parent
  · simp [← hself, ← hother]
  · rw [if_neg hother, if_pos hself, hchildren hother]
    simp [hself]
  · rw [if_pos hother, if_neg hself]
    simp [hself]
  · rw [if_neg hother, if_neg hself, hchildren hother]
    simp [hself]

theorem detach (h : tree.Linked) {id : Nat} {detached : ParseTree}
    (hdetach : tree.detach? id = some detached) : detached.Linked := by
  cases hparent : (tree.node id).parent with
  | none => simp [detach?, hparent] at hdetach
  | some parent =>
    rw [h.detach?_eq hparent, Option.some.injEq] at hdetach
    exact hdetach ▸ h.prune [id]

/-! ### Linked trees stay linked -/

theorem of_links {other : ParseTree} (h : tree.Linked) (hsize : other.size = tree.size)
    (hparent : ∀ id, (other.node id).parent = (tree.node id).parent)
    (hchildren : ∀ id, (other.node id).children = (tree.node id).children) : other.Linked where
  size_pos := hsize ▸ h.size_pos
  root_free := by rw [hparent, h.root_free]
  mem_children_iff {parent child} := by rw [hparent, hchildren, h.mem_children_iff]
  increasing id := by
    rw [hchildren]
    exact h.increasing id
  parent_le hlink := h.parent_le (by rwa [hparent] at hlink)

theorem modify (h : tree.Linked) (id : Nat) {change : Node → Node}
    (hparent : ∀ node, (change node).parent = node.parent)
    (hchildren : ∀ node, (change node).children = node.children) : (tree.modify id change).Linked :=
  h.of_links (size_modify tree id change) (apply_node_modify hparent tree id) (apply_node_modify hchildren tree id)

theorem new (code : Nat) : (ParseTree.new code).Linked := by
  have hnode : ∀ id, ((ParseTree.new code).node id).parent = none ∧
      ((ParseTree.new code).node id).children = [] := by
    intro id
    cases id <;> exact ⟨rfl, rfl⟩
  constructor
  · exact Nat.one_pos
  · exact (hnode _).1
  · intro parent child
    simp [hnode]
  · intro id
    simp [hnode]
  · intro parent child h
    simp [hnode] at h

theorem appendChild (h : tree.Linked) {parent : Nat} (hparent : parent ≤ tree.size) (code : Nat) :
    (tree.appendChild parent code).Linked := by
  have hlt : ∀ {id child : Nat}, child ∈ (tree.node id).children → child < tree.size := fun hchild =>
    lt_size_of_parent (h.mem_children_iff.1 hchild)
  have hblank : tree.node tree.size = default := node_of_size_le (Nat.le_refl _)
  constructor
  · rw [size_appendChild]
    exact Nat.succ_pos _
  · have hroot : root ≠ tree.size := Nat.ne_of_lt h.size_pos
    rw [parent_node_appendChild hparent, if_neg hroot, h.root_free]
  · intro other child
    rw [children_node_appendChild hparent, parent_node_appendChild hparent, List.mem_append, h.mem_children_iff]
    by_cases hnew : child = tree.size
    · rw [if_pos hnew, hnew, hblank]
      by_cases hother : other = parent
      · simp [hother]
      · simp [hother, Ne.symm hother, default, instInhabitedNode.default]
    · rw [if_neg hnew]
      by_cases hother : other = parent <;> simp [hother, hnew]
  · intro id
    rw [children_node_appendChild hparent, List.pairwise_append]
    refine ⟨h.increasing id, ?_, ?_⟩
    · split_ifs <;> simp
    · intro child hchild new hnew
      split_ifs at hnew
      · rw [List.mem_singleton.1 hnew]
        exact hlt hchild
      · simp at hnew
  · intro above child hlink
    rw [parent_node_appendChild hparent] at hlink
    split_ifs at hlink with hnew
    · rw [hnew, ← Option.some.inj hlink]
      exact hparent
    · exact h.parent_le hlink

end Linked

theorem Built.linked {tree : ParseTree} (h : tree.Built) : tree.Linked := by
  induction h with
  | new code => exact .new code
  | appendChild code _ hparent ih => exact ih.appendChild hparent code
  | detach _ hdetach ih => exact ih.detach hdetach
  | setValueAt _ hset ih => exact eq_modify_of_setValueAt hset ▸ ih.modify _ (fun _ => rfl) fun _ => rfl
  | setValue _ hset ih =>
    obtain ⟨index, hset⟩ := exists_setValueAt_of_setValue hset
    exact eq_modify_of_setValueAt hset ▸ ih.modify _ (fun _ => rfl) fun _ => rfl
  | setLocation id location _ ih => exact ih.modify id (fun _ => rfl) (fun _ => rfl)
  | setRegion id region _ ih => exact ih.modify id (fun _ => rfl) (fun _ => rfl)

/-! ### Attributes -/

/-- Every node of a known kind has a value for each attribute of its kind. -/
def Complete (tree : ParseTree) : Prop :=
  ∀ id tag, (tree.node id).tag? = some tag → (tree.node id).attributes.length = tag.attributes.length

/-- Every node has as many values as its kind has attributes. -/
def Schematic (tree : ParseTree) : Prop := ∀ id, (tree.node id).attributes.length = (tree.node id).arity

namespace Schematic

variable {tree : ParseTree}

theorem complete (h : tree.Schematic) : tree.Complete := by
  intro id tag htag
  rw [h id, Node.arity, htag, Option.map_some, Option.getD_some]

theorem modify (h : tree.Schematic) (id : Nat) {change : Node → Node} (hcode : ∀ node, (change node).code = node.code)
    (hlength : ∀ node, (change node).attributes.length = node.attributes.length) :
    (tree.modify id change).Schematic := by
  intro other
  rcases tree.node_modify_cases id change other with heq | heq
  · rw [heq, h]
  · rw [heq, hlength, h, Node.arity, Node.arity, Node.tag?, Node.tag?, hcode]

theorem new (code : Nat) : (ParseTree.new code).Schematic := by
  intro id
  cases id with
  | zero => exact Node.length_attributes_new code none
  | succ id =>
    rw [node_of_size_le (Nat.succ_le_succ (Nat.zero_le id))]
    decide

theorem appendChild (h : tree.Schematic) (parent code : Nat) : (tree.appendChild parent code).Schematic := by
  have hpush : Schematic ⟨tree.nodes.push (.new code (some parent))⟩ := by
    intro id
    rw [node_push]
    split
    · exact Node.length_attributes_new code (some parent)
    · exact h id
  exact hpush.modify parent (fun _ => rfl) fun _ => rfl

theorem detach (h : tree.Schematic) {id : Nat} {detached : ParseTree} (hdetach : tree.detach? id = some detached) :
    detached.Schematic := by
  obtain ⟨parent, -, heq⟩ := Option.map_eq_some_iff.1 hdetach
  have hoff : (tree.modify id fun node => { node with parent := none }).Schematic :=
    h.modify id (fun _ => rfl) fun _ => rfl
  rw [← heq]
  exact hoff.modify parent (fun _ => rfl) fun _ => rfl

theorem setValueAt (h : tree.Schematic) {id index : Nat} {value : String} {changed : ParseTree}
    (hset : tree.setValueAt? id index value = some changed) : changed.Schematic := by
  rw [eq_modify_of_setValueAt hset]
  exact h.modify id (fun _ => rfl) fun _ => List.length_set

end Schematic

theorem Built.schematic {tree : ParseTree} (h : tree.Built) : tree.Schematic := by
  induction h with
  | new code => exact .new code
  | appendChild code _ _ ih => exact ih.appendChild _ code
  | detach _ hdetach ih => exact ih.detach hdetach
  | setValueAt _ hset ih => exact ih.setValueAt hset
  | setValue _ hset ih =>
    obtain ⟨index, hset⟩ := exists_setValueAt_of_setValue hset
    exact ih.setValueAt hset
  | setLocation id location _ ih => exact ih.modify id (fun _ => rfl) fun _ => rfl
  | setRegion id region _ ih => exact ih.modify id (fun _ => rfl) fun _ => rfl

theorem Built.complete {tree : ParseTree} (h : tree.Built) : tree.Complete := h.schematic.complete

end ParseTree

end NedCheck
