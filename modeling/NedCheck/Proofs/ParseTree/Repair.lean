import NedCheck.ParseTree.Repair
import NedCheck.Proofs.ParseTree.Structure
import NedCheck.Proofs.ParseTree.Walk

/-!
# What repair does to a tree

One round of detaching is enough. The nodes that go are exactly those below the root to which the first check attaches a problem; taking them away leaves no problem behind but the root's own, since problems of place only go away with children and the other problems stay with their nodes. The loop therefore ends after the round that detaches, whatever bound it is given.
-/

namespace NedCheck

namespace ParseTree

variable {tree : ParseTree}

/-- The structural checks attach a problem to the node. -/
def Flagged (tree : ParseTree) (id : Nat) : Prop := ∃ problem, (id, problem) ∈ tree.problems

theorem mem_culprits_iff {id : Nat} :
    id ∈ tree.culprits ↔ id ∈ tree.walk root ∧ id ≠ root ∧ tree.Flagged id := by
  simp [culprits, Flagged]

/-! ### Detaching one after another -/

theorem Linked.detachAll_eq (h : tree.Linked) {ids : List Nat} (hnodup : ids.Nodup)
    (hattached : ∀ id ∈ ids, ∃ parent, (tree.node id).parent = some parent) :
    tree.detachAll ids = (tree.prune ids, ids.length) := by
  induction ids generalizing tree with
  | nil => rw [detachAll, prune_nil, List.length_nil]
  | cons id rest ih =>
    obtain ⟨hfresh, hnodup⟩ := List.nodup_cons.1 hnodup
    obtain ⟨parent, hparent⟩ := hattached id (by simp)
    have hrest : ∀ other ∈ rest, ∃ parent, ((tree.prune [id]).node other).parent = some parent := by
      intro other hother
      obtain ⟨above, habove⟩ := hattached other (by simp [hother])
      have hne : other ≠ id := fun heq => hfresh (heq ▸ hother)
      exact ⟨above, by simpa [node_prune, hne] using habove⟩
    rw [detachAll, h.detach?_eq hparent]
    dsimp only
    rw [ih (h.prune [id]) hnodup hrest, prune_prune]
    rfl

/-! ### Problems after pruning -/

theorem tag?_prune (ids : List Nat) (id : Nat) : ((tree.prune ids).node id).tag? = (tree.node id).tag? := by
  rw [node_prune]
  rfl

theorem attributes_prune (ids : List Nat) (id : Nat) :
    ((tree.prune ids).node id).attributes = (tree.node id).attributes := by
  rw [node_prune]

theorem Complete.prune (h : tree.Complete) (ids : List Nat) : (tree.prune ids).Complete := by
  intro id tag htag
  rw [tag?_prune] at htag
  rw [attributes_prune]
  exact h id tag htag

theorem code_prune (ids : List Nat) (id : Nat) : ((tree.prune ids).node id).code = (tree.node id).code := by
  rw [node_prune]

theorem children_prune (ids : List Nat) (id : Nat) :
    ((tree.prune ids).node id).children = (tree.node id).children.filter (· ∉ ids) := by
  rw [node_prune]

theorem ownProblems_prune (ids : List Nat) (id : Nat) :
    (tree.prune ids).ownProblems id = tree.ownProblems id := by
  rw [ownProblems, ownProblems, tag?_prune, attributes_prune, code_prune]

theorem placeProblems_prune (ids : List Nat) (tag : Tag) (seen : List Tag) (children : List Nat) :
    (tree.prune ids).placeProblems tag seen children = tree.placeProblems tag seen children := by
  induction children generalizing seen with
  | nil => rfl
  | cons child rest ih => simp only [placeProblems, tag?_prune, ih]

theorem childProblems_prune_sublist (ids : List Nat) (id : Nat) :
    ((tree.prune ids).childProblems id).Sublist (tree.childProblems id) := by
  rw [childProblems, childProblems, tag?_prune, children_prune]
  cases (tree.node id).tag? with
  | none => exact .refl _
  | some tag =>
    dsimp only
    rw [attributes_prune]
    split_ifs
    · exact .refl _
    · rw [placeProblems_prune]
      exact tree.placeProblems_filter_sublist _ _ (List.Subset.refl _) _

theorem Linked.filter_problemsAt (h : tree.Linked) (id : Nat) :
    ((tree.problemsAt id).filter fun found => found.1 = root) =
      if id = root then (tree.ownProblems root).map (root, ·) else [] := by
  have hchildren : ((tree.childProblems id).filter fun found => decide (found.1 = root)) = [] := by
    rw [List.filter_eq_nil_iff]
    intro found hfound
    have hchild := h.mem_children_iff.1 (tree.mem_children_of_mem_childProblems hfound)
    intro hroot
    rw [of_decide_eq_true hroot, h.root_free] at hchild
    exact absurd hchild (by simp)
  rw [problemsAt_eq, List.filter_append, hchildren, List.append_nil]
  split_ifs with hid
  · rw [hid, List.filter_eq_self]
    simp
  · rw [List.filter_eq_nil_iff]
    simp [hid]

theorem Linked.walk_root_eq (h : tree.Linked) :
    ∃ below, tree.walk root = root :: below ∧ root ∉ below := by
  have hwalk := h.walk_eq h.grounded_root
  refine ⟨_, hwalk, ?_⟩
  have hnodup := h.walk_nodup h.grounded_root
  rw [hwalk] at hnodup
  exact (List.nodup_cons.1 hnodup).1

theorem Linked.filter_problems (h : tree.Linked) :
    (tree.problems.filter fun found => found.1 = root) = (tree.ownProblems root).map (root, ·) := by
  obtain ⟨below, hwalk, hroot⟩ := h.walk_root_eq
  have hbelow : (below.flatMap fun id => (tree.problemsAt id).filter fun found => found.1 = root) = [] := by
    rw [List.flatMap_eq_nil_iff]
    intro id hid
    have hne : id ≠ root := by
      intro heq
      exact hroot (heq ▸ hid)
    rw [h.filter_problemsAt, if_neg hne]
  rw [problems, List.filter_flatMap, hwalk, List.flatMap_cons, hbelow, List.append_nil,
    h.filter_problemsAt, if_pos rfl]

/-- With all culprits gone the root's own problems are left. -/
theorem Linked.problems_prune_culprits (h : tree.Linked) :
    (tree.prune tree.culprits).problems = (tree.ownProblems root).map (root, ·) := by
  have hpruned := h.prune tree.culprits
  have hwalked : ∀ {id : Nat}, id ∈ (tree.prune tree.culprits).walk root → id ∈ tree.walk root :=
    fun hid => (walk_prune_sublist _ _).subset hid
  have hflagged : ∀ {id found}, id ∈ tree.walk root → found ∈ tree.problemsAt id → tree.Flagged found.1 :=
    fun hid hfound => ⟨_, List.mem_flatMap.2 ⟨_, hid, hfound⟩⟩
  have hchildren : ∀ id ∈ (tree.prune tree.culprits).walk root,
      (tree.prune tree.culprits).childProblems id = [] := by
    intro id hid
    rw [List.eq_nil_iff_forall_not_mem]
    intro found hfound
    have hmem := hpruned.mem_children_iff.1 (mem_children_of_mem_childProblems _ hfound)
    have hbefore := (childProblems_prune_sublist _ _).subset hfound
    have hchild := tree.mem_children_of_mem_childProblems hbefore
    -- the child is attached after pruning, so it is no culprit
    have hkept : found.1 ∉ tree.culprits := by
      intro hculprit
      simp [node_prune, hculprit] at hmem
    apply hkept
    rw [mem_culprits_iff]
    refine ⟨?_, ?_, hflagged (hwalked hid) ?_⟩
    · rw [h.mem_walk_iff h.grounded_root]
      exact .head (h.mem_children_iff.1 hchild) ((h.mem_walk_iff h.grounded_root).1 (hwalked hid))
    · intro hroot
      rw [hroot, hpruned.root_free] at hmem
      exact absurd hmem (by simp)
    · rw [problemsAt_eq]
      exact List.mem_append_right _ hbefore
  have hown : ∀ id ∈ (tree.prune tree.culprits).walk root, id ≠ root → tree.ownProblems id = [] := by
    intro id hid hne
    rw [List.eq_nil_iff_forall_not_mem]
    intro problem hproblem
    have hkept := ((h.under_root_prune_iff _ _).1 ((hpruned.mem_walk_iff hpruned.grounded_root).1 hid)).2
    apply hkept id .refl hne
    have hfound : (id, problem) ∈ tree.problemsAt id := by
      rw [problemsAt_eq]
      exact List.mem_append_left _ (List.mem_map_of_mem hproblem)
    rw [mem_culprits_iff]
    exact ⟨hwalked hid, hne, hflagged (hwalked hid) hfound⟩
  have hat : ∀ id ∈ (tree.prune tree.culprits).walk root, (tree.prune tree.culprits).problemsAt id =
      (tree.ownProblems id).map (id, ·) := by
    intro id hid
    rw [problemsAt_eq, hchildren id hid, List.append_nil, ownProblems_prune]
  obtain ⟨below, hwalk, hroot⟩ := hpruned.walk_root_eq
  have hbelow : below.flatMap (tree.prune tree.culprits).problemsAt = [] := by
    rw [List.flatMap_eq_nil_iff]
    intro id hid
    have hmem : id ∈ (tree.prune tree.culprits).walk root := by simp [hwalk, hid]
    rw [hat id hmem, hown id hmem fun heq => hroot (heq ▸ hid), List.map_nil]
  rw [problems, hwalk, List.flatMap_cons, hbelow, List.append_nil, hat root mem_walk_self]

/-! ### Rounds -/

theorem Linked.culprits_nodup (h : tree.Linked) : tree.culprits.Nodup :=
  (h.walk_nodup h.grounded_root).sublist List.filter_sublist

theorem Linked.culprits_prune (h : tree.Linked) : (tree.prune tree.culprits).culprits = [] := by
  rw [List.eq_nil_iff_forall_not_mem]
  intro id hid
  obtain ⟨-, hne, problem, hproblem⟩ := mem_culprits_iff.1 hid
  rw [h.problems_prune_culprits] at hproblem
  obtain ⟨_, -, heq⟩ := List.mem_map.1 hproblem
  exact hne (congrArg Prod.fst heq).symm

theorem repairRounds_of_culprits_eq_nil (h : tree.culprits = []) (rounds : Nat) :
    tree.repairRounds rounds = (tree, 0) := by
  cases rounds with
  | zero => rfl
  | succ rounds => rw [repairRounds, h]

/-- The first round detaches all there is to detach. -/
theorem Linked.repairRounds_eq (h : tree.Linked) (rounds : Nat) :
    tree.repairRounds (rounds + 1) = (tree.prune tree.culprits, tree.culprits.length) := by
  have hattached : ∀ id ∈ tree.culprits, ∃ parent, (tree.node id).parent = some parent := by
    intro id hid
    obtain ⟨hwalk, hne, -⟩ := mem_culprits_iff.1 hid
    rcases ((h.mem_walk_iff h.grounded_root).1 hwalk).cases_head with heq | ⟨parent, hparent, -⟩
    · exact absurd heq hne
    · exact ⟨parent, hparent⟩
  have hdetach := h.detachAll_eq h.culprits_nodup hattached
  have hdone := repairRounds_of_culprits_eq_nil h.culprits_prune rounds
  rw [repairRounds]
  split
  · rename_i hnone
    rw [hnone, prune_nil, List.length_nil]
  · rw [hdetach]
    dsimp only
    rw [hdone, Nat.add_zero]

theorem Linked.repair_eq (h : tree.Linked) :
    tree.repair = (tree.prune tree.culprits, tree.culprits.length) := by
  obtain ⟨rounds, hrounds⟩ := Nat.exists_eq_succ_of_ne_zero (Nat.ne_of_gt h.size_pos)
  rw [repair, hrounds]
  exact h.repairRounds_eq rounds

/-- Repair of a tree that was built detaches exactly the nodes below the root with a problem, and counts them. What is left in reach is what had no problem on itself and on what is above it below the root, in the order and with the contents it had; of the problems those of the root are left. No further round would find anything to detach, and a second repair changes nothing. -/
theorem repair_built (hbuilt : tree.Built) :
    (∀ id, id ∈ tree.walk root ↔ tree.Under id root) ∧
    (∀ id, id ∈ tree.repair.1.walk root ↔ tree.repair.1.Under id root) ∧
    (∃ detached : List Nat, detached.Nodup ∧
      (∀ id, id ∈ detached ↔ id ∈ tree.walk root ∧ id ≠ root ∧ tree.Flagged id) ∧
      tree.repair = (tree.prune detached, detached.length)) ∧
    (tree.repair.1.walk root).Sublist (tree.walk root) ∧
    (∀ id, id ∈ tree.repair.1.walk root ↔
      id ∈ tree.walk root ∧ ∀ above, tree.Under id above → above ≠ root → ¬ tree.Flagged above) ∧
    (∀ id, (tree.repair.1.node id).code = (tree.node id).code ∧
      (tree.repair.1.node id).attributes = (tree.node id).attributes ∧
      (tree.repair.1.node id).location = (tree.node id).location ∧
      (tree.repair.1.node id).region = (tree.node id).region) ∧
    (tree.repair.1.problems = tree.problems.filter fun found => found.1 = root) ∧
    (∀ rounds, tree.repairRounds (rounds + 1) = tree.repair) ∧
    tree.repair.1.repair = (tree.repair.1, 0) := by
  have h := hbuilt.linked
  have hpruned := h.prune tree.culprits
  have hrepair := h.repair_eq
  refine ⟨fun id => h.mem_walk_iff h.grounded_root, ?_,
    ⟨tree.culprits, h.culprits_nodup, fun id => mem_culprits_iff, hrepair⟩, ?_, ?_, ?_, ?_, ?_, ?_⟩
  · intro id
    rw [hrepair]
    exact hpruned.mem_walk_iff hpruned.grounded_root
  · rw [hrepair]
    exact walk_prune_sublist _ _
  · intro id
    rw [hrepair, hpruned.mem_walk_iff hpruned.grounded_root, h.under_root_prune_iff,
      h.mem_walk_iff h.grounded_root]
    refine and_congr_right fun hunder => forall₃_congr fun above habove hne => not_congr ?_
    have hreached : tree.Under above root := by
      rcases under_total hunder habove with hbelow | hbelow
      · exact absurd (h.under_root_eq hbelow) hne
      · exact hbelow
    rw [mem_culprits_iff, h.mem_walk_iff h.grounded_root]
    exact ⟨fun hculprit => hculprit.2.2, fun hflagged => ⟨hreached, hne, hflagged⟩⟩
  · intro id
    rw [hrepair, node_prune]
    exact ⟨rfl, rfl, rfl, rfl⟩
  · rw [hrepair, h.problems_prune_culprits, h.filter_problems]
  · intro rounds
    rw [h.repairRounds_eq, hrepair]
  · rw [hrepair]
    exact repairRounds_of_culprits_eq_nil h.culprits_prune _

/-- A misplaced section with a child of unknown kind: both have a problem and go together. -/
def nestedCulprits : ParseTree := ((ParseTree.new 2).appendChild 0 19).appendChild 1 99

theorem repair_built_nested :
    nestedCulprits.Built ∧ nestedCulprits.repair.2 = 2 ∧ nestedCulprits.repair.1.repair.2 = 0 := by
  have hbuilt : nestedCulprits.Built := .appendChild 99 (.appendChild 19 (.new 2) (by decide)) (by decide)
  obtain ⟨-, -, -, -, -, -, -, -, hagain⟩ := repair_built hbuilt
  refine ⟨hbuilt, by decide +kernel, ?_⟩
  rw [hagain]

end ParseTree

end NedCheck
