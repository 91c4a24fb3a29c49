import NedCheck.ParseTree.Element
import NedCheck.Proofs.ParseTree.Walk

/-!
# The elements of nodes

`ParseTree.copy` says what element a node stands for, with no regard to whether all kinds are known: the contents of the node, over the copies of its children. Conversion gives the copy of the root if a walk meets known kinds only, and otherwise fails on the first unknown one that it meets, though it goes down before it goes on. In a linked tree the elements below a copy are the copies of the nodes of the walk, in the same order.
-/

namespace NedCheck

/-- A map that stops at the first error, where each step fails on the first bad item of a row of its own: the whole fails on the first bad item of all rows. -/
theorem mapM_eq_of_find? {ε α β γ : Type} {f : α → Except ε β} {row : α → List γ} {bad : γ → Bool} {error : γ → ε}
    {value : α → β}
    (h : ∀ x, f x = ((row x).find? bad).elim (.ok (value x)) fun item => .error (error item)) (xs : List α) :
    xs.mapM f = ((xs.flatMap row).find? bad).elim (.ok (xs.map value)) fun item => .error (error item) := by
  induction xs with
  | nil => rfl
  | cons x xs ih =>
    rw [List.mapM_cons, h x, ih, List.flatMap_cons, List.find?_append]
    cases (row x).find? bad with
    | some item => rfl
    | none =>
      rw [Option.none_or]
      cases (xs.flatMap row).find? bad <;> rfl

namespace ParseTree

/-- The element of a node over the given children. -/
def copyNode (tree : ParseTree) (id : Nat) (children : List Element) : Element where
  id := id
  tag := (tree.node id).tag?.getD default
  attributes := .fill _ (tree.node id).attributes
  children := children
  location := if (tree.node id).location.isEmpty then none else some (tree.node id).location
  region := (tree.node id).region

/-- The element of a node and of what is at most `depth` levels below it. -/
def copyTo (tree : ParseTree) : Nat → Nat → Element
  | 0, id => tree.copyNode id []
  | depth + 1, id => tree.copyNode id ((tree.node id).children.map (copyTo tree depth))

/-- The element of a node and of what is reachable from it. -/
def copy (tree : ParseTree) (id : Nat) : Element := tree.copyTo tree.size id

/-- The node's code stands for no kind of element. -/
def isUnknown (tree : ParseTree) (id : Nat) : Bool := (tree.node id).tag?.isNone

variable {tree : ParseTree}

theorem isUnknown_eq_false_iff {id : Nat} :
    tree.isUnknown id = false ↔ (tree.node id).tag? = some ((tree.node id).tag?.getD default) := by
  unfold isUnknown
  cases (tree.node id).tag? <;> simp

/-! ### Conversion -/

theorem assemble_of_isUnknown {id : Nat} (h : tree.isUnknown id = true) (children : Except ParseFault (List Element)) :
    tree.assemble id children = .error (.unknownTag (tree.node id).code) := by
  rw [assemble, Option.isNone_iff_eq_none.1 h]

theorem assemble_of_known {id : Nat} (h : tree.isUnknown id = false) (children : Except ParseFault (List Element)) :
    tree.assemble id children = children.map (tree.copyNode id) := by
  rw [assemble, isUnknown_eq_false_iff.1 h]
  rfl

theorem toElementTo_eq (depth id : Nat) :
    tree.toElementTo depth id = ((tree.walkTo depth id).find? tree.isUnknown).elim (.ok (tree.copyTo depth id))
      fun bad => .error (.unknownTag (tree.node bad).code) := by
  induction depth generalizing id with
  | zero =>
    rw [toElementTo, walkTo]
    cases hid : tree.isUnknown id with
    | true => rw [List.find?_cons_of_pos hid, assemble_of_isUnknown hid, Option.elim_some]
    | false =>
      rw [List.find?_cons_of_neg (by simp [hid]), assemble_of_known hid]
      rfl
  | succ depth ih =>
    rw [toElementTo, walkTo]
    cases hid : tree.isUnknown id with
    | true => rw [List.find?_cons_of_pos hid, assemble_of_isUnknown hid, Option.elim_some]
    | false =>
      rw [List.find?_cons_of_neg (by simp [hid]), assemble_of_known hid, mapM_eq_of_find? ih]
      cases ((tree.node id).children.flatMap (tree.walkTo depth)).find? tree.isUnknown <;> rfl

/-- Conversion fails on the first reachable node of unknown kind, and otherwise copies the root. -/
theorem toElement_eq : tree.toElement = ((tree.walk root).find? tree.isUnknown).elim (.ok (tree.copy root))
    fun bad => .error (.unknownTag (tree.node bad).code) :=
  toElementTo_eq tree.size root

theorem toElement_eq_ok (h : ∀ id ∈ tree.walk root, tree.isUnknown id = false) :
    tree.toElement = .ok (tree.copy root) := by
  have hnone : (tree.walk root).find? tree.isUnknown = none := by
    rw [List.find?_eq_none]
    intro id hid
    simp [h id hid]
  rw [toElement_eq, hnone, Option.elim_none]

theorem eq_copy_of_toElement {e : Element} (h : tree.toElement = .ok e) :
    e = tree.copy root ∧ ∀ id ∈ tree.walk root, tree.isUnknown id = false := by
  rw [toElement_eq] at h
  cases hfind : (tree.walk root).find? tree.isUnknown with
  | none =>
    rw [hfind] at h
    exact ⟨(Except.ok.inj h).symm, by simpa using hfind⟩
  | some bad => simp [hfind] at h

theorem toElement_eq_error {before after : List Nat} {bad : Nat} (hwalk : tree.walk root = before ++ bad :: after)
    (hbefore : ∀ id ∈ before, tree.isUnknown id = false) (hbad : tree.isUnknown bad = true) :
    tree.toElement = .error (.unknownTag (tree.node bad).code) := by
  have hfirst : (tree.walk root).find? tree.isUnknown = some bad := by
    rw [hwalk, List.find?_append, List.find?_cons_of_pos hbad, List.find?_eq_none.2, Option.none_or]
    intro id hid
    simp [hbefore id hid]
  rw [toElement_eq, hfirst, Option.elim_some]

/-! ### Copies in a linked tree -/

@[simp] theorem id_copy (id : Nat) : (tree.copy id).id = id := by
  rw [copy]
  cases tree.size <;> rfl

namespace Linked

variable (h : tree.Linked)

include h

theorem copyTo_succ_eq {depth id : Nat} (hground : tree.Grounded id) (hdepth : tree.size ≤ depth + id + 1) :
    tree.copyTo (depth + 1) id = tree.copyTo depth id := by
  induction depth generalizing id with
  | zero => rw [copyTo, copyTo, h.children_eq_nil hground (by omega), List.map_nil]
  | succ depth ih =>
    rw [copyTo, copyTo]
    refine congrArg (tree.copyNode id) (List.map_congr_left fun child hchild => ?_)
    have hparent := h.mem_children_iff.1 hchild
    have hlt := h.parent_lt hground hparent
    exact ih (hground.child hparent) (by omega)

theorem copy_eq {id : Nat} (hground : tree.Grounded id) :
    tree.copy id = tree.copyNode id ((tree.node id).children.map tree.copy) := by
  rw [copy, ← h.copyTo_succ_eq hground (by omega), copyTo]
  rfl

theorem children_copy {id : Nat} (hground : tree.Grounded id) :
    (tree.copy id).children = (tree.node id).children.map tree.copy := by
  rw [h.copy_eq hground]
  rfl

theorem descendants_copy {id : Nat} (hground : tree.Grounded id) :
    (tree.copy id).descendants = (tree.walk id).map tree.copy := by
  refine h.grounded_induction (P := fun id => (tree.copy id).descendants = (tree.walk id).map tree.copy) ?_ hground
  intro id hground ih
  rw [Element.descendants_eq, h.children_copy hground, h.walk_eq hground, List.map_cons, List.flatMap_map, List.map_flatMap]
  exact congrArg _ (List.flatMap_congr ih)

end Linked

end ParseTree

end NedCheck
