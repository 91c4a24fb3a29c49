import Mathlib.Tactic.SplitIfs
import NedCheck.Proofs.ParseTree.Conversion
import NedCheck.Proofs.ParseTree.Copy

/-!
# There and back

What is left of a tree on the way to an element and back, and of an element on the way to a tree and back. A tree comes back as `ParseTree.compact`: without the nodes that were out of reach, the others numbered in the order of the walk and otherwise as they were. An element comes back with new identities and without locations that are empty, and otherwise as it was.

The layout of a copied node is the row of the nodes of its walk, each with its links renumbered. The induction goes from the leaves up, for any numbering that gives the walk the numbers the row is laid out under: the walks of the children follow one another as their rows do.
-/

namespace NedCheck

/-! ### Empty locations -/

namespace Element

mutual

/-- The tree with an empty location taken for none. -/
def withoutEmptyLocations : Element → Element
  | ⟨id, tag, attributes, children, location, region⟩ =>
    ⟨id, tag, attributes, withoutEmptyLocationsAll children, location.filter (!·.isEmpty), region⟩

def withoutEmptyLocationsAll : List Element → List Element
  | [] => []
  | e :: rest => e.withoutEmptyLocations :: withoutEmptyLocationsAll rest

end

theorem withoutEmptyLocations_numberFrom (e : Element) (first : Nat) :
    (e.numberFrom first).withoutEmptyLocations =
      ⟨first, e.tag, e.attributes, withoutEmptyLocationsAll (numberAllFrom (first + 1) e.children),
        e.location.filter (!·.isEmpty), e.region⟩ := by
  cases e
  rw [numberFrom, withoutEmptyLocations]

end Element

/-! ### Renumbering -/

def Node.renumber (node : Node) (number : Nat → Nat) : Node :=
  { node with parent := node.parent.map number, children := node.children.map number }

theorem map_eq_range'_of_append {α : Type} {number : α → Nat} {left right : List α} {first : Nat}
    (h : (left ++ right).map number = List.range' first (left ++ right).length) :
    left.map number = List.range' first left.length ∧
      right.map number = List.range' (first + left.length) right.length := by
  rw [List.map_append, List.length_append, ← List.range'_append_1] at h
  exact List.append_inj h (by simp)

theorem map_idxOf_of_nodup {ids : List Nat} (h : ids.Nodup) :
    ids.map (fun id => ids.idxOf id) = List.range' 0 ids.length := by
  apply List.ext_getElem (by simp)
  intro position hposition _
  rw [List.getElem_map, h.idxOf_getElem, List.getElem_range']
  omega

namespace ParseTree

variable {tree : ParseTree}

/-- The reachable nodes alone, numbered in the order of the walk. -/
def compact (tree : ParseTree) : ParseTree where
  nodes := ((tree.walk root).map fun id => (tree.node id).renumber fun other => (tree.walk root).idxOf other).toArray

theorem layout_eq (parent : Option Nat) (id : Nat) (e : Element) :
    layout parent id e =
      { code := e.tag.code
        attributes := e.attributes.values
        location := e.location.getD ""
        region := e.region
        parent := parent
        children := childNumbers (id + 1) e.children } :: layoutAll id (id + 1) e.children := by
  cases e
  rw [layout]

/-! ### From a tree and back -/

/-- The element has the node's number and carries what the node carries. -/
structure Mirrors (tree : ParseTree) (id : Nat) (e : Element) : Prop where
  number : e.id = id
  code : e.tag.code = (tree.node id).code
  attributes : e.attributes.values = (tree.node id).attributes
  location : e.location.getD "" = (tree.node id).location
  region : e.region = (tree.node id).region

theorem mirrors_copyNode {id : Nat} (hcomplete : tree.Complete) (hknown : tree.isUnknown id = false)
    (children : List Element) : tree.Mirrors id (tree.copyNode id children) := by
  have htag := isUnknown_eq_false_iff.1 hknown
  refine ⟨rfl, Tag.ofCode?_eq_some_iff.1 htag, Attributes.values_fill (hcomplete id _ htag), ?_, rfl⟩
  rw [copyNode]
  split_ifs with hempty
  · exact (String.isEmpty_iff.1 hempty).symm
  · rfl

theorem mirrors_copy {id : Nat} (hcomplete : tree.Complete) (hknown : tree.isUnknown id = false) :
    tree.Mirrors id (tree.copy id) := by
  rw [copy]
  cases tree.size <;> exact mirrors_copyNode hcomplete hknown _

namespace Linked

variable (h : tree.Linked)

include h

theorem size_copy {id : Nat} (hground : tree.Grounded id) : (tree.copy id).size = (tree.walk id).length := by
  rw [← Element.length_descendants, h.descendants_copy hground, List.length_map]

/-- Where the walk of a node has the numbers it is laid out under, the rows of its children begin where their walks do. -/
theorem layoutAll_copy {number : Nat → Nat} {id : Nat} (hground : tree.Grounded id) {rest : List Nat}
    (hrest : rest ⊆ (tree.node id).children)
    (hlayout : ∀ child ∈ rest, ∀ first, (tree.walk child).map number = List.range' first (tree.walk child).length →
      layout ((tree.node child).parent.map number) first (tree.copy child) =
        (tree.walk child).map fun below => (tree.node below).renumber number)
    {first : Nat}
    (hnumber : (rest.flatMap tree.walk).map number = List.range' first (rest.flatMap tree.walk).length) :
    childNumbers first (rest.map tree.copy) = rest.map number ∧
      layoutAll (number id) first (rest.map tree.copy) =
        (rest.flatMap tree.walk).map fun below => (tree.node below).renumber number := by
  induction rest generalizing first with
  | nil => exact ⟨rfl, rfl⟩
  | cons child rest ih =>
    have hparent := h.mem_children_iff.1 (hrest List.mem_cons_self)
    have hbelow := hground.child hparent
    rw [List.flatMap_cons] at hnumber
    obtain ⟨hchild, hothers⟩ := map_eq_range'_of_append hnumber
    have hrow := hlayout child List.mem_cons_self first hchild
    obtain ⟨hnumbers, hrows⟩ := ih (fun other hother => hrest (List.mem_cons_of_mem _ hother))
      (fun other hother => hlayout other (List.mem_cons_of_mem _ hother)) hothers
    -- the walk of the child begins with the child
    have hfirst : number child = first := by
      rw [h.walk_eq hbelow, List.map_cons, List.length_cons, List.range'_succ] at hchild
      exact (List.cons.inj hchild).1
    rw [hparent, Option.map_some] at hrow
    refine ⟨?_, ?_⟩
    · rw [List.map_cons, childNumbers, h.size_copy hbelow, hnumbers, List.map_cons, hfirst]
    · rw [List.map_cons, layoutAll, h.size_copy hbelow, hrow, hrows, List.flatMap_cons, List.map_append]

theorem layout_copy (hcomplete : tree.Complete) (number : Nat → Nat) {id first : Nat} (hground : tree.Grounded id)
    (hknown : ∀ below ∈ tree.walk id, tree.isUnknown below = false)
    (hnumber : (tree.walk id).map number = List.range' first (tree.walk id).length) :
    layout ((tree.node id).parent.map number) first (tree.copy id) =
      (tree.walk id).map fun below => (tree.node below).renumber number := by
  revert first
  refine h.grounded_induction (P := fun id => (∀ below ∈ tree.walk id, tree.isUnknown below = false) → ∀ {first},
    (tree.walk id).map number = List.range' first (tree.walk id).length →
      layout ((tree.node id).parent.map number) first (tree.copy id) =
        (tree.walk id).map fun below => (tree.node below).renumber number) ?_ hground hknown
  intro id hground ih hknown first hnumber
  rw [h.walk_eq hground] at hknown
  rw [h.walk_eq hground, List.map_cons, List.length_cons, List.range'_succ] at hnumber
  obtain ⟨rfl, hbelow⟩ := List.cons.inj hnumber
  have hid := hknown id List.mem_cons_self
  have hlayout : ∀ child ∈ (tree.node id).children, ∀ first,
      (tree.walk child).map number = List.range' first (tree.walk child).length →
      layout ((tree.node child).parent.map number) first (tree.copy child) =
        (tree.walk child).map fun below => (tree.node below).renumber number := by
    intro child hchild first
    refine ih child hchild ?_
    intro below hmem
    exact hknown below (List.mem_cons_of_mem _ (List.mem_flatMap.2 ⟨child, hchild, hmem⟩))
  obtain ⟨hnumbers, hrows⟩ := h.layoutAll_copy hground (List.Subset.refl _) hlayout hbelow
  have hmirrors := mirrors_copy hcomplete hid
  rw [layout_eq, hmirrors.code, hmirrors.attributes, hmirrors.location, hmirrors.region, h.children_copy hground,
    hnumbers, hrows, h.walk_eq hground, List.map_cons]
  rfl

theorem ofElement_copy (hcomplete : tree.Complete) (hknown : ∀ id ∈ tree.walk root, tree.isUnknown id = false) :
    ofElement (tree.copy root) = tree.compact := by
  have hnumber := map_idxOf_of_nodup (h.walk_nodup h.grounded_root)
  have hrow := h.layout_copy hcomplete (fun id => (tree.walk root).idxOf id) h.grounded_root hknown hnumber
  rw [h.root_free, Option.map_none] at hrow
  rw [ofElement, compact, ← hrow]
  rfl

theorem mirrors_descendants_copy (hcomplete : tree.Complete)
    (hknown : ∀ id ∈ tree.walk root, tree.isUnknown id = false) :
    List.Forall₂ tree.Mirrors (tree.walk root) (tree.copy root).descendants := by
  rw [h.descendants_copy h.grounded_root, List.forall₂_map_right_iff, List.forall₂_same]
  exact fun id hid => mirrors_copy hcomplete (hknown id hid)

end Linked

/-! ### From an element and back -/

theorem Laid.walkTo_eq {parent : Option Nat} {id depth : Nat} {e : Element} (h : tree.Laid parent id e)
    (hdepth : e.size ≤ depth + 1) : tree.walkTo depth id = List.range' id e.size := by
  refine h.induction (P := fun depth id e => tree.walkTo depth id = List.range' id e.size) ?_ ?_ hdepth
  · intro _ id e _ hleaf
    rw [walkTo, e.size_eq, hleaf]
    rfl
  · intro _ depth id e h hbelow
    have along : ∀ {rest : List Element} {first : Nat},
        List.Forall₂ (fun id e => tree.walkTo depth id = List.range' id e.size) (childNumbers first rest) rest →
        (childNumbers first rest).flatMap (tree.walkTo depth) = List.range' first (Element.sizeAll rest) := by
      intro rest
      induction rest with
      | nil => exact fun _ => rfl
      | cons child rest ih =>
        intro first hrest
        obtain ⟨hchild, hrest⟩ := List.forall₂_cons.1 hrest
        rw [childNumbers, List.flatMap_cons, hchild, ih hrest, Element.sizeAll, List.range'_append_1]
    rw [h.node_eq] at hbelow
    rw [walkTo, h.node_eq, e.size_eq, List.range'_succ]
    exact congrArg _ (along hbelow)

theorem walk_ofElement (e : Element) : (ofElement e).walk root = List.range e.size := by
  rw [List.range_eq_range']
  exact (laid_ofElement e).walkTo_eq (by rw [size_ofElement]; omega)

theorem Laid.assemble_eq {parent : Option Nat} {id : Nat} {e : Element} (h : tree.Laid parent id e)
    (children : List Element) :
    tree.assemble id (.ok children) =
      .ok ⟨id, e.tag, e.attributes, children, e.location.filter (!·.isEmpty), e.region⟩ := by
  have hlocation : (if (e.location.getD "").isEmpty then none else some (e.location.getD "")) =
      e.location.filter (!·.isEmpty) := by
    cases e.location with
    | none => rfl
    | some location =>
      rw [Option.getD_some, Option.filter_some]
      cases location.isEmpty <;> rfl
  rw [assemble, h.tag?_eq, h.node_eq, ← hlocation]
  dsimp only
  rw [Attributes.fill_values]
  rfl

/-- A laid element is converted to itself, but for identities and empty locations. -/
theorem Laid.toElementTo_eq {parent : Option Nat} {id depth : Nat} {e : Element} (h : tree.Laid parent id e)
    (hdepth : e.size ≤ depth + 1) :
    tree.toElementTo depth id = .ok (e.numberFrom id).withoutEmptyLocations := by
  refine h.induction
    (P := fun depth id e => tree.toElementTo depth id = .ok (e.numberFrom id).withoutEmptyLocations) ?_ ?_ hdepth
  · intro _ id e h hleaf
    rw [toElementTo, h.assemble_eq, Element.withoutEmptyLocations_numberFrom, hleaf]
    rfl
  · intro _ depth id e h hbelow
    have along : ∀ {rest : List Element} {first : Nat},
        List.Forall₂ (fun id e => tree.toElementTo depth id = .ok (e.numberFrom id).withoutEmptyLocations)
          (childNumbers first rest) rest →
        (childNumbers first rest).mapM (tree.toElementTo depth) =
          .ok (Element.withoutEmptyLocationsAll (Element.numberAllFrom first rest)) := by
      intro rest
      induction rest with
      | nil => exact fun _ => rfl
      | cons child rest ih =>
        intro first hrest
        obtain ⟨hchild, hrest⟩ := List.forall₂_cons.1 hrest
        rw [childNumbers, List.mapM_cons, hchild, ih hrest]
        rfl
    rw [h.node_eq] at hbelow
    rw [toElementTo, h.node_eq, along hbelow, h.assemble_eq, Element.withoutEmptyLocations_numberFrom]

theorem toElement_ofElement (e : Element) :
    (ofElement e).toElement = .ok (e.numberFrom root).withoutEmptyLocations :=
  (laid_ofElement e).toElementTo_eq (by rw [size_ofElement]; omega)

/-! ### Conversion -/

theorem convert_nil {σ : Type} {e : Element} (h : tree.toElement = .ok e) (sink : Sink σ) (state : σ) :
    tree.convert [] sink state = (.ok e, state) := by
  have hnone : addressed e [] = [] := by simp [addressed, Message.concerning]
  rw [convert, h]
  dsimp only
  rw [hnone, deliver]
  rfl

theorem toElement_of_convert {σ : Type} {e : Element} {messages : List Message} {sink : Sink σ} {state : σ}
    (h : (tree.convert messages sink state).1 = .ok e) : tree.toElement = .ok e := by
  rw [convert] at h
  cases htree : tree.toElement with
  | error fault =>
    rw [htree] at h
    cases h
  | ok copied =>
    rw [htree] at h
    dsimp only at h
    cases hdelivered : (deliver sink (addressed copied messages) state).1 with
    | error fault =>
      rw [hdelivered] at h
      cases h
    | ok =>
      rw [hdelivered] at h
      exact h

/-- Conversion keeps what it can. A tree that was built is converted, if its reachable nodes are of known kinds, and the element goes back to the tree without the nodes out of reach; on the way its elements stand for the nodes of the walk, one by one. Every element goes to a tree that is converted to the same element, but for identities and empty locations. -/
theorem roundTrips {σ : Type} (sink : Sink σ) (state : σ) :
    (∀ tree : ParseTree, tree.Built → (∀ id ∈ tree.walk root, tree.isUnknown id = false) →
      ∃ e, tree.convert [] sink state = (.ok e, state) ∧
        (∀ messages other, (tree.convert messages sink state).1 = .ok other → other = e) ∧
        List.Forall₂ tree.Mirrors (tree.walk root) e.descendants ∧
        ofElement e = tree.compact ∧
        tree.compact.walk root = List.range (tree.walk root).length) ∧
    ∀ e : Element, (ofElement e).convert [] sink state = (.ok (e.numberFrom root).withoutEmptyLocations, state) := by
  refine ⟨fun tree hbuilt hknown => ?_, fun e => ?_⟩
  · have h := hbuilt.linked
    have hcopy := toElement_eq_ok hknown
    have hcompact := h.ofElement_copy hbuilt.complete hknown
    refine ⟨tree.copy root, convert_nil hcopy sink state, ?_, h.mirrors_descendants_copy hbuilt.complete hknown,
      hcompact, ?_⟩
    · intro messages other hother
      exact Except.ok.inj ((toElement_of_convert hother).symm.trans hcopy)
    · rw [← hcompact, walk_ofElement, h.size_copy h.grounded_root]
  · exact convert_nil (toElement_ofElement e) sink state

/-- A file with two modules, each with a section; the first module is detached. -/
def detachedModuleTree : ParseTree :=
  ((((((ParseTree.new 2).appendChild 0 9).appendChild 1 19).appendChild 0 9).appendChild 3 14).detach? 1).getD (.new 2)

/-- The module that is left and its section move up to the numbers of the detached ones; a file with an empty location loses it. -/
theorem roundTrips_detachedModule :
    (∃ e, detachedModuleTree.convert [] Collector.sink .empty = (.ok e, .empty) ∧
      ofElement e = ((ParseTree.new 2).appendChild 0 9).appendChild 1 14) ∧
    (ofElement { Element.new .nedFile with location := some "" }).convert [] Collector.sink .empty =
      (.ok (.new .nedFile), .empty) := by
  have htree : ((((ParseTree.new 2).appendChild 0 9).appendChild 1 19).appendChild 0 9).Built :=
    .appendChild 9 (.appendChild 19 (.appendChild 9 (.new 2) (by decide)) (by decide)) (by decide)
  have hdetach : (((((ParseTree.new 2).appendChild 0 9).appendChild 1 19).appendChild 0 9).appendChild 3 14).detach? 1 =
      some detachedModuleTree := by
    decide +kernel
  have hbuilt : detachedModuleTree.Built := .detach (.appendChild 14 htree (by decide)) hdetach
  have hknown : ∀ id ∈ detachedModuleTree.walk root, detachedModuleTree.isUnknown id = false := by
    decide +kernel
  have hcompact : detachedModuleTree.compact = ((ParseTree.new 2).appendChild 0 9).appendChild 1 14 := by
    decide +kernel
  have hback := roundTrips Collector.sink .empty
  obtain ⟨e, hconvert, -, -, he, -⟩ := hback.1 _ hbuilt hknown
  exact ⟨⟨e, hconvert, he.trans hcompact⟩, hback.2 { Element.new .nedFile with location := some "" }⟩

end ParseTree

end NedCheck
