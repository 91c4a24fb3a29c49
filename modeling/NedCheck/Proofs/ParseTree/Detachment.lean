import NedCheck.Proofs.ParseTree.Acceptance
import NedCheck.Proofs.ParseTree.Repair

/-!
# What detaching does to the problems

When a subtree is detached, its problems go with it, and no other node gets one. The problems that a node has with what it carries stay as they are. Those with places hang on the order of the children: of the sections of one kind all but the first are repetitions. If the first one goes, the next takes its place and has a problem less, and all others have the problem they had. So nothing changes but for the repetitions among the siblings of the node that is detached.
-/

namespace NedCheck

/-- A section that its parent has already. -/
def StructureProblem.isRepetition : StructureProblem → Bool
  | .repeated _ _ => true
  | _ => false

namespace ParseTree

variable {tree : ParseTree} {id : Nat}

/-- How often a check reports the text on the node. -/
def reportCount (tree : ParseTree) (node : Nat) (text : String) : Nat :=
  (tree.check []).2.countP fun message => message.context = some node ∧ message.text = text

/-- The problem is on a node outside of the subtree, and no repetition among the siblings of its root. -/
def outlasts (tree : ParseTree) (id : Nat) (found : Nat × StructureProblem) : Bool :=
  found.1 ∉ tree.walk id ∧
    ¬(found.2.isRepetition = true ∧ (tree.node found.1).parent = (tree.node id).parent)

/-! ### No problem is added -/

theorem problemsAt_prune_sublist (ids : List Nat) (id : Nat) :
    ((tree.prune ids).problemsAt id).Sublist (tree.problemsAt id) := by
  rw [problemsAt_eq, problemsAt_eq, ownProblems_prune]
  exact (childProblems_prune_sublist ids id).append_left _

theorem problems_prune_sublist (ids : List Nat) : (tree.prune ids).problems.Sublist tree.problems :=
  sublist_flatMap (walk_prune_sublist ids root) (problemsAt_prune_sublist ids)

theorem problemMessages_prune_sublist (ids : List Nat) :
    (tree.prune ids).problemMessages.Sublist tree.problemMessages := by
  have hmessage : (tree.prune ids).problemMessage = tree.problemMessage := by
    funext found
    rw [problemMessage, problemMessage, node_prune]
  rw [problemMessages, problemMessages, hmessage]
  exact (problems_prune_sublist ids).map _

theorem reportCount_prune_le (ids : List Nat) (node : Nat) (text : String) :
    (tree.prune ids).reportCount node text ≤ tree.reportCount node text := by
  rw [reportCount, reportCount, check_eq, check_eq]
  exact (problemMessages_prune_sublist ids).countP_le

/-! ### What stays -/

theorem eq_filter_of_sublist {α : Type} {fewer xs : List α} {keep : α → Bool} (hsub : fewer.Sublist xs)
    (hnodup : xs.Nodup) (h : ∀ x ∈ xs, x ∈ fewer ↔ keep x = true) : fewer = xs.filter keep := by
  have hkept : fewer.filter keep = fewer := by
    rw [List.filter_eq_self]
    exact fun x hx => (h x (hsub.subset hx)).1 hx
  have hinside : fewer.Sublist (xs.filter keep) := hkept ▸ hsub.filter keep
  have hperm : fewer.Perm (xs.filter keep) := by
    refine (List.perm_ext_iff_of_nodup (hnodup.sublist hsub) (hnodup.filter keep)).2 fun x => ?_
    rw [List.mem_filter]
    exact ⟨fun hx => ⟨hsub.subset hx, (h x (hsub.subset hx)).1 hx⟩, fun hx => (h x hx.1).2 hx.2⟩
  exact hinside.eq_of_length hperm.length_eq

theorem flatMap_eq_of_filter {α β : Type} {keep : α → Bool} {f g : α → List β} {xs : List α}
    (hkept : ∀ x ∈ xs, keep x = true → f x = g x) (hgone : ∀ x ∈ xs, keep x = false → g x = []) :
    (xs.filter keep).flatMap f = xs.flatMap g := by
  induction xs with
  | nil => rfl
  | cons x rest ih =>
    obtain ⟨hx, hrest⟩ := List.forall_mem_cons.1 hkept
    obtain ⟨hx', hrest'⟩ := List.forall_mem_cons.1 hgone
    have htail := ih hrest hrest'
    cases hkeep : keep x with
    | true => rw [List.filter_cons_of_pos hkeep, List.flatMap_cons, List.flatMap_cons, hx hkeep, htail]
    | false =>
      rw [List.filter_cons_of_neg (by simp [hkeep]), List.flatMap_cons, hx' hkeep, List.nil_append, htail]

theorem Linked.walk_prune_eq (h : tree.Linked) (hground : tree.Grounded id) (hne : id ≠ root) :
    (tree.prune [id]).walk root = (tree.walk root).filter (· ∉ tree.walk id) := by
  have hpruned := h.prune [id]
  refine eq_filter_of_sublist (walk_prune_sublist [id] root) (h.walk_nodup h.grounded_root) fun node hnode => ?_
  rw [hpruned.mem_walk_iff hpruned.grounded_root, h.under_root_prune_iff, decide_eq_true_eq, h.mem_walk_iff hground]
  have hunder := (h.mem_walk_iff h.grounded_root).1 hnode
  constructor
  · rintro ⟨-, hkept⟩ habove
    exact hkept id habove hne (List.mem_singleton_self id)
  · intro hnot
    refine ⟨hunder, fun above habove _ hmem => hnot ?_⟩
    rwa [List.mem_singleton.1 hmem] at habove

theorem placeProblems_filter (tree : ParseTree) (tag : Tag) (seen : List Tag) (children : List Nat) :
    (tree.placeProblems tag seen children).filter (fun found => !found.2.isRepetition) =
      children.filterMap fun child => ((tree.node child).tag?.filter fun kind => !tag.allows kind).map fun kind =>
        (child, .misplaced kind tag) := by
  induction children generalizing seen with
  | nil => rfl
  | cons child rest ih =>
    rw [placeProblems, List.filterMap_cons]
    cases (tree.node child).tag? with
    | none => exact ih seen
    | some kind =>
      by_cases hallows : tag.allows kind = true
      · simp only [hallows, Option.filter_some, Bool.not_true, Bool.false_eq_true, if_false, Option.map_none]
        split_ifs
        · exact ih seen
        · rw [List.filter_cons_of_neg (by simp [StructureProblem.isRepetition])]
          exact ih seen
        · exact ih (kind :: seen)
      · simp only [hallows, Option.filter_some, Bool.not_false, if_true, Option.map_some]
        rw [List.filter_cons_of_pos (by simp [StructureProblem.isRepetition])]
        exact congrArg _ (ih seen)

theorem placeProblems_filter_without (tree : ParseTree) (tag : Tag) (seen : List Tag) (children : List Nat) (id : Nat) :
    (tree.placeProblems tag seen (children.filter (· ∉ [id]))).filter
        (fun found => decide (found.1 ≠ id) && !found.2.isRepetition) =
      (tree.placeProblems tag seen children).filter fun found => decide (found.1 ≠ id) && !found.2.isRepetition := by
  rw [← List.filter_filter, ← List.filter_filter, placeProblems_filter, placeProblems_filter, List.filterMap_filter,
    List.filter_filterMap, List.filter_filterMap]
  refine List.filterMap_congr fun child _ => ?_
  by_cases hchild : child = id
  · rw [if_neg (by simp [hchild])]
    cases (tree.node child).tag?.filter fun kind => !tag.allows kind <;> simp [Option.filter, hchild]
  · rw [if_pos (by simpa using hchild)]

theorem Linked.mem_walk_child_iff (h : tree.Linked) (hground : tree.Grounded id) {node child : Nat}
    (hnode : node ∉ tree.walk id) (hchild : child ∈ (tree.node node).children) :
    child ∈ tree.walk id ↔ child = id := by
  rw [h.mem_walk_iff hground] at hnode ⊢
  constructor
  · intro hunder
    rcases hunder.cases_head with heq | ⟨parent, hparent, hunder⟩
    · exact heq
    · rw [h.mem_children_iff.1 hchild, Option.some.injEq] at hparent
      exact absurd (hparent ▸ hunder) hnode
  · intro heq
    exact heq ▸ .refl

/-- The parent has the problems with places that it had, but for those of the child that goes and for repetitions. -/
theorem Linked.childProblems_filter_of_parent (h : tree.Linked) (hground : tree.Grounded id) {node : Nat}
    (hnode : node ∉ tree.walk id) (hparent : (tree.node id).parent = some node) :
    ((tree.prune [id]).childProblems node).filter (tree.outlasts id) =
      (tree.childProblems node).filter (tree.outlasts id) := by
  have hoccurs : ∀ found ∈ tree.childProblems node,
      tree.outlasts id found = (decide (found.1 ≠ id) && !found.2.isRepetition) := by
    intro found hfound
    have hchild := tree.mem_children_of_mem_childProblems hfound
    have hinside := h.mem_walk_child_iff hground hnode hchild
    have hsibling := h.mem_children_iff.1 hchild
    rw [Bool.eq_iff_iff]
    simp [outlasts, hinside, hsibling, hparent]
  have hfewer : ∀ found ∈ (tree.prune [id]).childProblems node,
      tree.outlasts id found = (decide (found.1 ≠ id) && !found.2.isRepetition) :=
    fun found hfound => hoccurs found ((childProblems_prune_sublist _ _).subset hfound)
  rw [List.filter_congr hfewer, List.filter_congr hoccurs, childProblems, childProblems, tag?_prune, attributes_prune,
    children_prune]
  split
  · rfl
  · split_ifs
    · rfl
    · rw [placeProblems_prune, placeProblems_filter_without]

theorem Linked.childProblems_prune_of_ne (h : tree.Linked) {node : Nat} (hother : (tree.node id).parent ≠ some node) :
    (tree.prune [id]).childProblems node = tree.childProblems node := by
  have hsame : (tree.node node).children.filter (· ∉ [id]) = (tree.node node).children := by
    rw [List.filter_eq_self]
    intro child hchild
    have hne : child ≠ id := fun heq => hother (h.mem_children_iff.1 (heq ▸ hchild))
    simpa using hne
  rw [childProblems, childProblems, tag?_prune, attributes_prune, children_prune, hsame]
  simp only [placeProblems_prune]

/-- Outside of the subtree a node has the problems it had, but for repetitions among its children if it is the parent. -/
theorem Linked.problemsAt_filter_outlasts (h : tree.Linked) (hground : tree.Grounded id) {node : Nat}
    (hnode : node ∉ tree.walk id) :
    ((tree.prune [id]).problemsAt node).filter (tree.outlasts id) =
      (tree.problemsAt node).filter (tree.outlasts id) := by
  rw [problemsAt_eq, problemsAt_eq, ownProblems_prune, List.filter_append, List.filter_append]
  by_cases hparent : (tree.node id).parent = some node
  · rw [h.childProblems_filter_of_parent hground hnode hparent]
  · rw [h.childProblems_prune_of_ne hparent]

theorem Linked.problemsAt_filter_of_mem_walk (h : tree.Linked) (hground : tree.Grounded id) {node : Nat}
    (hnode : node ∈ tree.walk id) : (tree.problemsAt node).filter (tree.outlasts id) = [] := by
  have hinside : ∀ found ∈ tree.problemsAt node, found.1 ∈ tree.walk id := by
    intro found hfound
    rw [problemsAt_eq] at hfound
    rcases List.mem_append.1 hfound with hown | hplace
    · obtain ⟨problem, -, rfl⟩ := List.mem_map.1 hown
      exact hnode
    · have hchild := h.mem_children_iff.1 (tree.mem_children_of_mem_childProblems hplace)
      rw [h.mem_walk_iff hground] at hnode ⊢
      exact .head hchild hnode
  rw [List.filter_eq_nil_iff]
  intro found hfound
  simp [outlasts, hinside found hfound]

theorem Linked.problems_filter_outlasts (h : tree.Linked) (hground : tree.Grounded id) (hne : id ≠ root) :
    (tree.prune [id]).problems.filter (tree.outlasts id) = tree.problems.filter (tree.outlasts id) := by
  rw [problems, problems, List.filter_flatMap, List.filter_flatMap, h.walk_prune_eq hground hne]
  refine flatMap_eq_of_filter (fun node _ hkept => ?_) fun node _ hgone => ?_
  · exact h.problemsAt_filter_outlasts hground (of_decide_eq_true hkept)
  · exact h.problemsAt_filter_of_mem_walk hground (by simpa using hgone)

/-- If a node in reach of the root, other than the root, is detached from a tree that was built, no text is reported on any node more often than before, and the problems that are left stand in the order they had. Only the nodes of the subtree and the siblings of its root have fewer problems, and the siblings only fewer repetitions. -/
theorem problems_detach (hbuilt : tree.Built) (hid : id ∈ tree.walk root) (hne : id ≠ root) :
    ∃ detached, tree.detach? id = some detached ∧
      (∀ node text, detached.reportCount node text ≤ tree.reportCount node text) ∧
      detached.problems.Sublist tree.problems ∧
      detached.problems.filter (tree.outlasts id) = tree.problems.filter (tree.outlasts id) := by
  have h := hbuilt.linked
  have hunder := (h.mem_walk_iff h.grounded_root).1 hid
  obtain ⟨parent, hparent, -⟩ := hunder.cases_head.resolve_left hne
  have hground : tree.Grounded id := fun below hbelow => h.grounded_root below (hbelow.trans hunder)
  exact ⟨_, h.detach?_eq hparent, reportCount_prune_le [id], problems_prune_sublist [id],
    h.problems_filter_outlasts hground hne⟩

/-- A module with three sections for parameters, the last of which holds a gate. -/
def crowdedModule : ParseTree :=
  ((((ParseTree.new 9).appendChild 0 14).appendChild 0 14).appendChild 0 14).appendChild 3 20

/-- Once the first section is gone, the second one is no repetition, and the third one still is. -/
theorem problems_detach_crowdedModule :
    crowdedModule.Built ∧ ∃ detached, crowdedModule.detach? 1 = some detached ∧
      (∀ node text, detached.reportCount node text ≤ crowdedModule.reportCount node text) ∧
      crowdedModule.problems.map Prod.fst = [0, 2, 3, 4, 4] ∧ detached.problems.map Prod.fst = [0, 3, 4, 4] := by
  have hbuilt : crowdedModule.Built :=
    .appendChild 20 (.appendChild 14 (.appendChild 14 (.appendChild 14 (.new 9) (by decide)) (by decide)) (by decide))
      (by decide)
  obtain ⟨detached, hdetach, hcounts, -, -⟩ := problems_detach hbuilt (by decide +kernel : 1 ∈ crowdedModule.walk root)
    (by decide)
  refine ⟨hbuilt, detached, hdetach, hcounts, by decide +kernel, ?_⟩
  have hproblems : (crowdedModule.detach? 1).map (fun tree => tree.problems.map Prod.fst) = some [0, 3, 4, 4] := by
    decide +kernel
  rw [hdetach] at hproblems
  exact Option.some.inj hproblems

end ParseTree

end NedCheck
