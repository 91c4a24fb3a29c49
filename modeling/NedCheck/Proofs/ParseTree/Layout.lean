import Mathlib.Data.List.Forall2
import NedCheck.ParseTree.Element
import NedCheck.Proofs.ParseTree.Structure

/-!
# Elements laid out in a parse tree

The parse tree of an element holds the nodes of every element below it as one row, the element's own node first. `ParseTree.Laid` says that an element has its row at a number, and its rows are found again from there: below a laid element stand its children, laid at the numbers its node names. From this follows what a walk over the tree of an element meets, and that the structural checks find the tree sound if and only if every element fits the schema.
-/

namespace NedCheck

/-- Every element of the tree fits the element schema. -/
def Element.Sound (e : Element) : Prop :=
  ∀ d ∈ e.descendants, d.tag.Fits d.attributes.values (d.children.map Element.tag)

theorem Element.sound_iff {e : Element} :
    e.Sound ↔ e.tag.Fits e.attributes.values (e.children.map Element.tag) ∧
      ∀ child ∈ e.children, child.Sound := by
  unfold Element.Sound
  rw [Element.descendants_eq, List.forall_mem_cons]
  refine and_congr_right fun _ => ?_
  constructor
  · intro h child hchild d hd
    exact h d (List.mem_flatMap.2 ⟨child, hchild, hd⟩)
  · intro h d hd
    obtain ⟨child, hchild, hd⟩ := List.mem_flatMap.1 hd
    exact h child hchild d hd

theorem Element.size_lt_of_mem {e child : Element} (h : child ∈ e.children) : child.size < e.size := by
  rw [e.size_eq]
  exact Nat.lt_succ_of_le (size_le_sizeAll h)

namespace ParseTree

theorem tag?_eq_some {node : Node} {tag : Tag} (h : node.code = tag.code) : node.tag? = some tag := by
  rw [Node.tag?, h]
  exact Tag.ofCode?_eq_some_iff.2 rfl

theorem node_eq_of_getElem? {tree : ParseTree} {id : Nat} {node : Node}
    (h : tree.nodes.toList[id]? = some node) : tree.node id = node := by
  rw [Array.getElem?_toList] at h
  rw [ParseTree.node, Array.getD_eq_getD_getElem?, h, Option.getD_some]

theorem length_layout (parent : Option Nat) (id : Nat) (e : Element) :
    (layout parent id e).length = e.size := by
  induction e using Element.induction generalizing parent id with
  | step e ih =>
    obtain ⟨_, tag, attributes, children, location, region⟩ := e
    have all : ∀ (rest : List Element) (first : Nat), (∀ e ∈ rest, e ∈ children) →
        (layoutAll id first rest).length = Element.sizeAll rest := by
      intro rest
      induction rest with
      | nil => simp [layoutAll, Element.sizeAll]
      | cons child rest ihRest =>
        intro first hrest
        rw [layoutAll, List.length_append, ih child (hrest child (by simp)), Element.sizeAll,
          ihRest _ fun e he => hrest e (by simp [he])]
    rw [layout, List.length_cons, Element.size, all children (id + 1) fun _ h => h]

theorem kinds_eq_of_forall₂ {tree : ParseTree} {numbers : List Nat} {elements : List Element}
    (h : List.Forall₂ (fun number e => (tree.node number).tag? = some e.tag) numbers elements) :
    tree.kinds numbers = elements.map Element.tag := by
  induction h with
  | nil => rfl
  | cons htag _ ih =>
    simp only [kinds, List.filterMap_cons, htag, List.map_cons]
    exact congrArg _ ih

/-- The nodes of the element, in pre-order, are those of the tree from number `id` on. -/
def Laid (tree : ParseTree) (parent : Option Nat) (id : Nat) (e : Element) : Prop :=
  ∃ before after, tree.nodes.toList = before ++ layout parent id e ++ after ∧ before.length = id

theorem laid_ofElement (e : Element) : (ofElement e).Laid none root e :=
  ⟨[], [], by simp [ofElement], rfl⟩

theorem Laid.node_eq {tree : ParseTree} {parent : Option Nat} {id : Nat} {e : Element}
    (h : tree.Laid parent id e) :
    tree.node id =
      { code := e.tag.code
        attributes := e.attributes.values
        location := e.location.getD ""
        region := e.region
        parent := parent
        children := childNumbers (id + 1) e.children } := by
  obtain ⟨before, after, hnodes, hlength⟩ := h
  apply node_eq_of_getElem?
  rw [hnodes, ← hlength]
  cases e
  simp [layout]

theorem Laid.children {tree : ParseTree} {parent : Option Nat} {id : Nat} {e : Element}
    (h : tree.Laid parent id e) :
    List.Forall₂ (fun number child => tree.Laid (some id) number child)
      (tree.node id).children e.children := by
  rw [h.node_eq]
  obtain ⟨before, after, hnodes, hlength⟩ := h
  obtain ⟨_, tag, attributes, children, location, region⟩ := e
  rw [layout] at hnodes
  -- one sibling after another; what was laid already moves to the front
  have all : ∀ (rest : List Element) (first : Nat) (front : List Node),
      tree.nodes.toList = front ++ layoutAll id first rest ++ after → front.length = first →
        List.Forall₂ (fun number child => tree.Laid (some id) number child)
          (childNumbers first rest) rest := by
    intro rest
    induction rest with
    | nil => exact fun _ _ _ _ => .nil
    | cons child rest ih =>
      intro first front hfront hfirst
      rw [layoutAll] at hfront
      refine .cons ⟨front, layoutAll id (first + child.size) rest ++ after, ?_, hfirst⟩ ?_
      · simpa [List.append_assoc] using hfront
      · refine ih (first + child.size) (front ++ layout (some id) first child) ?_ ?_
        · simpa [List.append_assoc] using hfront
        · rw [List.length_append, length_layout, hfirst]
  exact all children (id + 1) (before ++ [_]) (by simpa using hnodes) (by simp [hlength])

theorem Laid.tag?_eq {tree : ParseTree} {parent : Option Nat} {id : Nat} {e : Element}
    (h : tree.Laid parent id e) : (tree.node id).tag? = some e.tag :=
  tag?_eq_some (by rw [h.node_eq])

theorem Laid.kinds_eq {tree : ParseTree} {parent : Option Nat} {id : Nat} {e : Element}
    (h : tree.Laid parent id e) :
    tree.kinds (tree.node id).children = e.children.map Element.tag :=
  kinds_eq_of_forall₂ (h.children.imp fun _ _ hlaid => hlaid.tag?_eq)

theorem Laid.problemsAt_eq_nil_iff {tree : ParseTree} {parent : Option Nat} {id : Nat} {e : Element}
    (h : tree.Laid parent id e) :
    tree.problemsAt id = [] ↔ e.tag.Fits e.attributes.values (e.children.map Element.tag) := by
  rw [ParseTree.problemsAt_eq_nil_iff, h.tag?_eq, h.kinds_eq]
  simp [h.node_eq]

/-- Statements about a traversal of a laid element can be proved from the leaves up, if the traversal goes deep enough. -/
theorem Laid.induction {tree : ParseTree} {P : Nat → Nat → Element → Prop}
    (leaf : ∀ {parent id e}, tree.Laid parent id e → e.children = [] → P 0 id e)
    (step : ∀ {parent depth id e}, tree.Laid parent id e →
      List.Forall₂ (P depth) (tree.node id).children e.children → P (depth + 1) id e)
    {parent : Option Nat} {id depth : Nat} {e : Element} (h : tree.Laid parent id e)
    (hdepth : e.size ≤ depth + 1) : P depth id e := by
  induction depth generalizing parent id e with
  | zero =>
    apply leaf h
    rw [List.eq_nil_iff_forall_not_mem]
    intro child hchild
    have hlt := Element.size_lt_of_mem hchild
    have hpos := child.size_eq
    omega
  | succ depth ih =>
    have hsize : ∀ child ∈ e.children, child.size ≤ depth + 1 := by
      intro child hchild
      have hlt := Element.size_lt_of_mem hchild
      omega
    have hchildren := ((List.forall₂_and_left _ _).2 ⟨hsize, h.children.flip⟩).flip
    exact step h (hchildren.imp fun _ _ hchild => ih hchild.2 hchild.1)

theorem Laid.walkTo_sound_iff {tree : ParseTree} {parent : Option Nat} {id depth : Nat} {e : Element}
    (h : tree.Laid parent id e) (hdepth : e.size ≤ depth + 1) :
    (∀ number ∈ tree.walkTo depth id, tree.problemsAt number = []) ↔ e.Sound := by
  refine h.induction (P := fun depth id e =>
    (∀ number ∈ tree.walkTo depth id, tree.problemsAt number = []) ↔ e.Sound) ?_ ?_ hdepth
  · intro _ id e h hleaf
    rw [Element.sound_iff, ← h.problemsAt_eq_nil_iff]
    simp [walkTo, hleaf]
  · intro _ depth id e h hbelow
    rw [Element.sound_iff, ← h.problemsAt_eq_nil_iff, walkTo, List.forall_mem_cons]
    refine and_congr_right fun _ => ?_
    generalize (tree.node id).children = numbers, e.children = children at hbelow ⊢
    induction hbelow with
    | nil => simp
    | cons hchild _ ih => rw [List.flatMap_cons, List.forall_mem_append, List.forall_mem_cons, hchild, ih]

theorem size_ofElement (e : Element) : (ofElement e).size = e.size := by
  simp [ofElement, ParseTree.size, length_layout]

theorem problems_ofElement_eq_nil_iff {e : Element} : (ofElement e).problems = [] ↔ e.Sound := by
  rw [problems_eq_nil_iff, walk]
  exact (laid_ofElement e).walkTo_sound_iff (by rw [size_ofElement]; omega)

theorem isSound_ofElement_iff {e : Element} : (ofElement e).isSound = true ↔ e.Sound := by
  rw [isSound, List.isEmpty_iff, problems_ofElement_eq_nil_iff]

end ParseTree

end NedCheck
