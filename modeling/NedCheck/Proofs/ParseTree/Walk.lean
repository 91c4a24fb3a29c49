import Mathlib.Data.List.Nodup
import Mathlib.Logic.Relation
import NedCheck.Proofs.ParseTree.Built

/-!
# Walks over linked trees

In a linked tree a walk lists what lies at or below its node, each node once, a node before the walks of its children. The depth that bounds the traversal cuts nothing off, since numbers grow on the way down. All of this is said of grounded nodes: those at and below which no node is its own parent. The root is always grounded.
-/

namespace NedCheck

namespace ParseTree

/-- A node lies at or below another: one gets from it to the other along parents. -/
def Under (tree : ParseTree) (id above : Nat) : Prop :=
  Relation.ReflTransGen (fun child parent => (tree.node child).parent = some parent) id above

/-- No node at or below the given one is its own parent. -/
def Grounded (tree : ParseTree) (id : Nat) : Prop :=
  ∀ below, tree.Under below id → (tree.node below).parent ≠ some below

variable {tree : ParseTree}

theorem Grounded.child {id child : Nat} (h : tree.Grounded id) (hchild : (tree.node child).parent = some id) :
    tree.Grounded child :=
  fun below hbelow => h below (hbelow.tail hchild)

theorem under_total {id left right : Nat} (hleft : tree.Under id left) (hright : tree.Under id right) :
    tree.Under left right ∨ tree.Under right left := by
  apply Relation.ReflTransGen.total_of_right_unique _ hleft hright
  intro child parent other hparent hother
  exact Option.some.inj (hparent.symm.trans hother)

namespace Linked

variable (h : tree.Linked)

include h

theorem under_le {id above : Nat} (hunder : tree.Under id above) : above ≤ id := by
  induction hunder with
  | refl => exact Nat.le_refl _
  | tail _ hparent ih => exact Nat.le_trans (h.parent_le hparent) ih

theorem parent_lt {id child : Nat} (hground : tree.Grounded id) (hchild : (tree.node child).parent = some id) :
    id < child := by
  have hne : id ≠ child := by
    intro heq
    exact hground id .refl (heq ▸ hchild)
  exact Nat.lt_of_le_of_ne (h.parent_le hchild) hne

theorem grounded_root : tree.Grounded root := by
  intro below hbelow hself
  -- from a node that is its own parent one gets nowhere else
  have hstuck : ∀ above, tree.Under below above → above = below := by
    intro above habove
    induction habove with
    | refl => rfl
    | tail _ hparent ih =>
      rw [ih, hself] at hparent
      exact (Option.some.inj hparent).symm
  have hroot := hstuck root hbelow
  rw [← hroot, h.root_free] at hself
  exact absurd hself (by simp)

theorem under_root_eq {above : Nat} (hunder : tree.Under root above) : above = root := by
  rcases hunder.cases_head with heq | ⟨parent, hparent, -⟩
  · exact heq.symm
  · rw [h.root_free] at hparent
    exact absurd hparent (by simp)

/-- Statements about grounded nodes can be proved from the leaves up. -/
theorem grounded_induction {P : Nat → Prop}
    (step : ∀ id, tree.Grounded id → (∀ child ∈ (tree.node id).children, P child) → P id)
    {id : Nat} (hground : tree.Grounded id) : P id := by
  induction hn : tree.size - id using Nat.strongRecOn generalizing id with
  | ind n ih =>
    apply step id hground
    intro child hchild
    have hparent := h.mem_children_iff.1 hchild
    have hlt := h.parent_lt hground hparent
    have hsize := lt_size_of_parent hparent
    exact ih (tree.size - child) (by omega) (hground.child hparent) rfl

/-- The last node has no children, since theirs would be higher numbers. -/
theorem children_eq_nil {id : Nat} (hground : tree.Grounded id) (hlast : tree.size ≤ id + 1) :
    (tree.node id).children = [] := by
  rw [List.eq_nil_iff_forall_not_mem]
  intro child hchild
  have hparent := h.mem_children_iff.1 hchild
  have hlt := h.parent_lt hground hparent
  have hsize := lt_size_of_parent hparent
  omega

/-! ### The equation of a walk -/

theorem walkTo_succ_eq {depth id : Nat} (hground : tree.Grounded id) (hdepth : tree.size ≤ depth + id + 1) :
    tree.walkTo (depth + 1) id = tree.walkTo depth id := by
  induction depth generalizing id with
  | zero => rw [walkTo, walkTo, h.children_eq_nil hground (by omega), List.flatMap_nil]
  | succ depth ih =>
    rw [walkTo, walkTo]
    refine congrArg (id :: ·) (List.flatMap_congr fun child hchild => ?_)
    have hparent := h.mem_children_iff.1 hchild
    have hlt := h.parent_lt hground hparent
    exact ih (hground.child hparent) (by omega)

theorem walk_eq {id : Nat} (hground : tree.Grounded id) :
    tree.walk id = id :: (tree.node id).children.flatMap tree.walk := by
  rw [walk, ← h.walkTo_succ_eq hground (by omega), walkTo]
  rfl

/-! ### What a walk lists -/

omit h in
theorem mem_walk_self {id : Nat} : id ∈ tree.walk id := by
  rw [walk]
  cases tree.size <;> simp [walkTo]

theorem under_of_mem_walkTo {depth id below : Nat} (hmem : below ∈ tree.walkTo depth id) :
    tree.Under below id := by
  induction depth generalizing id with
  | zero =>
    rw [walkTo, List.mem_singleton] at hmem
    exact hmem ▸ .refl
  | succ depth ih =>
    rw [walkTo, List.mem_cons] at hmem
    rcases hmem with heq | hmem
    · exact heq ▸ .refl
    · obtain ⟨child, hchild, hmem⟩ := List.mem_flatMap.1 hmem
      exact (ih hmem).tail (h.mem_children_iff.1 hchild)

theorem mem_walk_iff {id below : Nat} (hground : tree.Grounded id) :
    below ∈ tree.walk id ↔ tree.Under below id := by
  refine ⟨h.under_of_mem_walkTo, ?_⟩
  intro hunder
  induction hunder with
  | refl => exact mem_walk_self
  | @tail child parent _ hparent ih =>
    rw [h.walk_eq hground]
    refine List.mem_cons_of_mem _ (List.mem_flatMap.2 ⟨child, h.mem_children_iff.2 hparent, ?_⟩)
    exact ih (hground.child hparent)

theorem lt_size_of_mem_walk {id : Nat} (hid : id ∈ tree.walk root) : id < tree.size := by
  rcases ((h.mem_walk_iff h.grounded_root).1 hid).cases_head with rfl | ⟨parent, hparent, -⟩
  · exact h.size_pos
  · exact lt_size_of_parent hparent

theorem walk_nodup {id : Nat} (hground : tree.Grounded id) : (tree.walk id).Nodup := by
  refine h.grounded_induction (P := fun id => (tree.walk id).Nodup) ?_ hground
  intro id hground ih
  have hunder : ∀ {child below : Nat}, below ∈ tree.walk child → tree.Under below child :=
    fun hmem => h.under_of_mem_walkTo hmem
  have hbelow : ∀ {child : Nat}, child ∈ (tree.node id).children → ¬ tree.Under id child := by
    intro child hchild habove
    have hlt := h.parent_lt hground (h.mem_children_iff.1 hchild)
    have hle := h.under_le habove
    omega
  rw [h.walk_eq hground, List.nodup_cons, List.nodup_flatMap]
  refine ⟨?_, ih, (h.increasing id).imp_of_mem ?_⟩
  · intro hmem
    obtain ⟨child, hchild, hmem⟩ := List.mem_flatMap.1 hmem
    exact hbelow hchild (hunder hmem)
  · -- of two children with a node in common one would lie under the other, and then under `id`
    have hapart : ∀ {left right : Nat}, left ∈ (tree.node id).children →
        right ∈ (tree.node id).children → left ≠ right → ¬ tree.Under left right := by
      intro left right hleft hright hne habove
      rcases habove.cases_head with heq | ⟨parent, hparent, habove⟩
      · exact hne heq
      · rw [h.mem_children_iff.1 hleft, Option.some.injEq] at hparent
        exact hbelow hright (hparent ▸ habove)
    intro left right hleft hright hlt below hmemLeft hmemRight
    rcases under_total (hunder hmemLeft) (hunder hmemRight) with habove | habove
    · exact hapart hleft hright (Nat.ne_of_lt hlt) habove
    · exact hapart hright hleft (Nat.ne_of_gt hlt) habove

end Linked

/-! ### Walks after pruning -/

theorem sublist_flatMap {α β : Type} {fewer xs : List α} {f g : α → List β} (hsub : fewer.Sublist xs)
    (h : ∀ x, (f x).Sublist (g x)) : (fewer.flatMap f).Sublist (xs.flatMap g) := by
  induction hsub with
  | slnil => exact List.Sublist.refl _
  | cons x _ ih => exact ih.trans (List.sublist_append_right _ _)
  | cons_cons x _ ih => exact (h x).append ih

theorem walkTo_prune_sublist (ids : List Nat) (depth id : Nat) :
    ((tree.prune ids).walkTo depth id).Sublist (tree.walkTo depth id) := by
  induction depth generalizing id with
  | zero => exact List.Sublist.refl _
  | succ depth ih =>
    rw [walkTo, walkTo, node_prune]
    exact (sublist_flatMap List.filter_sublist ih).cons_cons id

theorem walk_prune_sublist (ids : List Nat) (id : Nat) :
    ((tree.prune ids).walk id).Sublist (tree.walk id) := by
  rw [walk, walk, size_prune]
  exact walkTo_prune_sublist ids tree.size id

theorem Linked.under_root_prune_iff (h : tree.Linked) (ids : List Nat) (id : Nat) :
    (tree.prune ids).Under id root ↔
      tree.Under id root ∧ ∀ above, tree.Under id above → above ≠ root → above ∉ ids := by
  have hparent : ∀ {child parent : Nat}, ((tree.prune ids).node child).parent = some parent ↔
      child ∉ ids ∧ (tree.node child).parent = some parent := by
    intro child parent
    rw [node_prune]
    by_cases hchild : child ∈ ids <;> simp [hchild]
  constructor
  · intro hunder
    induction hunder using Relation.ReflTransGen.head_induction_on with
    | refl => exact ⟨.refl, fun above habove hne => absurd (h.under_root_eq habove) hne⟩
    | @head child parent hlink _ ih =>
      obtain ⟨hkept, hlink⟩ := hparent.1 hlink
      refine ⟨.head hlink ih.1, fun above habove hne => ?_⟩
      rcases habove.cases_head with heq | ⟨other, hother, habove⟩
      · exact heq ▸ hkept
      · rw [hlink, Option.some.injEq] at hother
        exact ih.2 above (hother ▸ habove) hne
  · intro hunder
    obtain ⟨hunder, hkept⟩ := hunder
    induction hunder using Relation.ReflTransGen.head_induction_on with
    | refl => exact .refl
    | @head child parent hlink _ ih =>
      have hne : child ≠ root := by
        intro heq
        rw [heq, h.root_free] at hlink
        exact absurd hlink (by simp)
      refine .head (hparent.2 ⟨hkept child .refl hne, hlink⟩) (ih fun above habove => ?_)
      exact hkept above (.head hlink habove)

end ParseTree

end NedCheck
