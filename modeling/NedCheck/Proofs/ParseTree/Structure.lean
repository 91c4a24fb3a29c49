import Mathlib.Data.List.Nodup
import NedCheck.ParseTree.Structure

/-!
# What the structural checks accept

A node without problems is one that fits the element schema: its values are complete and legal, its children are of kinds it allows, and no section occurs twice among them. `Tag.Fits` says so of a kind, its values and the kinds below it, so that the same notion serves nodes and elements.

Problems of place can only go away when children do: leaving children out takes problems from a node and adds none.
-/

namespace NedCheck

/-- An element of the given kind with these values may have children of these kinds. -/
structure Tag.Fits (tag : Tag) (values : List String) (kinds : List Tag) : Prop where
  complete : values.length = tag.attributes.length
  legal : ∀ pair ∈ tag.attributes.zip values, ParseTree.valueProblem? tag pair.1 pair.2 = none
  allowed : ∀ kind ∈ kinds, tag.allows kind = true
  single : (kinds.filter Tag.isSingleton).Nodup

theorem Tag.Fits.of_sublist {tag : Tag} {values : List String} {kinds fewer : List Tag}
    (h : tag.Fits values kinds) (hsub : fewer.Sublist kinds) : tag.Fits values fewer where
  complete := h.complete
  legal := h.legal
  allowed kind hkind := h.allowed kind (hsub.subset hkind)
  single := h.single.sublist (hsub.filter _)

namespace ParseTree

variable (tree : ParseTree)

/-- The known kinds among the given nodes, in order. -/
def kinds (ids : List Nat) : List Tag := ids.filterMap fun id => (tree.node id).tag?

/-! ### Places -/

theorem placeProblems_eq_nil_iff (tag : Tag) (seen : List Tag) (children : List Nat) :
    tree.placeProblems tag seen children = [] ↔
      (∀ kind ∈ tree.kinds children, tag.allows kind = true) ∧
        ((tree.kinds children).filter Tag.isSingleton).Nodup ∧
        ∀ kind ∈ (tree.kinds children).filter Tag.isSingleton, kind ∉ seen := by
  induction children generalizing seen with
  | nil => simp [placeProblems, kinds]
  | cons child rest ih =>
    rw [placeProblems]
    cases hkind : (tree.node child).tag? with
    | none =>
      have hrest : tree.kinds (child :: rest) = tree.kinds rest := by simp [kinds, hkind]
      rw [hrest, ih]
    | some kind =>
      have hrest : tree.kinds (child :: rest) = kind :: tree.kinds rest := by simp [kinds, hkind]
      rw [hrest]
      by_cases hallows : tag.allows kind = true
      · by_cases hsingle : kind.isSingleton = true
        · by_cases hseen : kind ∈ seen
          · simp [hallows, hsingle, hseen]
          · rw [List.filter_cons_of_pos hsingle]
            simp only [hallows, hsingle, Bool.not_true, Bool.false_eq_true, if_false,
              List.contains_eq_mem, hseen, decide_false, ih, List.mem_cons, List.nodup_cons]
            constructor
            · intro h
              obtain ⟨hall, hnodup, hfresh⟩ := h
              refine ⟨?_, ⟨fun hmem => hfresh kind hmem (.inl rfl), hnodup⟩, ?_⟩
              · intro other hother
                rcases hother with heq | hother
                · exact heq ▸ hallows
                · exact hall other hother
              · intro other hother
                rcases hother with heq | hother
                · exact heq ▸ hseen
                · exact fun hmem => hfresh other hother (.inr hmem)
            · intro h
              obtain ⟨hall, ⟨hnot, hnodup⟩, hfresh⟩ := h
              refine ⟨fun other hother => hall other (.inr hother), hnodup, ?_⟩
              intro other hother hmem
              rcases hmem with heq | hmem
              · exact hnot (heq ▸ hother)
              · exact hfresh other (.inr hother) hmem
        · rw [List.filter_cons_of_neg hsingle]
          simp [hallows, hsingle, ih]
      · simp [hallows]

theorem mem_of_mem_placeProblems {tag : Tag} {seen : List Tag} {children : List Nat}
    {found : Nat × StructureProblem} (h : found ∈ tree.placeProblems tag seen children) :
    found.1 ∈ children := by
  induction children generalizing seen with
  | nil => simp [placeProblems] at h
  | cons child rest ih =>
    rw [List.mem_cons]
    rw [placeProblems] at h
    split at h
    · exact .inr (ih h)
    · split_ifs at h
      · rcases List.mem_cons.1 h with heq | hmem
        · exact .inl (congrArg Prod.fst heq)
        · exact .inr (ih hmem)
      · exact .inr (ih h)
      · rcases List.mem_cons.1 h with heq | hmem
        · exact .inl (congrArg Prod.fst heq)
        · exact .inr (ih hmem)
      · exact .inr (ih h)

theorem placeProblems_filter_sublist (keep : Nat → Bool) (tag : Tag) {fewer seen : List Tag}
    (hseen : fewer ⊆ seen) (children : List Nat) :
    (tree.placeProblems tag fewer (children.filter keep)).Sublist
      (tree.placeProblems tag seen children) := by
  induction children generalizing fewer seen with
  | nil => simp [placeProblems]
  | cons child rest ih =>
    by_cases hkeep : keep child = true
    · rw [List.filter_cons_of_pos hkeep, placeProblems, placeProblems]
      split
      · exact ih hseen
      · rename_i kind _
        by_cases hallows : tag.allows kind = true
        · by_cases hsingle : kind.isSingleton = true
          · by_cases hfewer : kind ∈ fewer
            · simpa [hallows, hsingle, hfewer, hseen hfewer] using ih hseen
            · by_cases hmet : kind ∈ seen
              · have hstep : kind :: fewer ⊆ seen := List.cons_subset.2 ⟨hmet, hseen⟩
                simpa [hallows, hsingle, hfewer, hmet] using (ih hstep).cons _
              · simpa [hallows, hsingle, hfewer, hmet] using ih (List.cons_subset_cons kind hseen)
          · simpa [hallows, hsingle] using ih hseen
        · simpa [hallows] using ih hseen
    · rw [List.filter_cons_of_neg hkeep, placeProblems]
      split
      · exact ih hseen
      · split_ifs
        · exact (ih hseen).cons _
        · exact ih hseen
        · exact (ih hseen).cons _
        · exact ih fun _ hmem => List.mem_cons_of_mem _ (hseen hmem)

/-! ### Nodes -/

/-- The problems of a node with its kind and its values. -/
def ownProblems (id : Nat) : List StructureProblem :=
  match (tree.node id).tag? with
  | none => [.unknownCode (tree.node id).code]
  | some tag =>
    if (tree.node id).attributes.length ≠ tag.attributes.length then
      [.attributeCount tag (tree.node id).attributes.length]
    else
      (tag.attributes.zip (tree.node id).attributes).filterMap fun pair =>
        valueProblem? tag pair.1 pair.2

/-- The problems of a node's children with their places; they are looked for if the node has the values of its kind. -/
def childProblems (id : Nat) : List (Nat × StructureProblem) :=
  match (tree.node id).tag? with
  | none => []
  | some tag =>
    if (tree.node id).attributes.length ≠ tag.attributes.length then []
    else tree.placeProblems tag [] (tree.node id).children

theorem problemsAt_eq (id : Nat) :
    tree.problemsAt id = (tree.ownProblems id).map (id, ·) ++ tree.childProblems id := by
  cases hkind : (tree.node id).tag? with
  | none => simp [problemsAt, ownProblems, childProblems, hkind]
  | some tag =>
    simp only [problemsAt, ownProblems, childProblems, hkind]
    by_cases hlength : (tree.node id).attributes.length = tag.attributes.length
    · simp only [hlength, ne_eq, not_true_eq_false, if_false, List.map_filterMap]
    · simp [hlength]

theorem mem_children_of_mem_childProblems {id : Nat} {found : Nat × StructureProblem}
    (h : found ∈ tree.childProblems id) : found.1 ∈ (tree.node id).children := by
  unfold childProblems at h
  split at h
  · simp at h
  · split_ifs at h
    · simp at h
    · exact tree.mem_of_mem_placeProblems h

theorem problemsAt_eq_nil_iff (id : Nat) :
    tree.problemsAt id = [] ↔
      ∃ tag, (tree.node id).tag? = some tag ∧
        tag.Fits (tree.node id).attributes (tree.kinds (tree.node id).children) := by
  rw [problemsAt_eq]
  unfold ownProblems childProblems
  cases (tree.node id).tag? with
  | none => simp
  | some tag =>
    by_cases hlength : (tree.node id).attributes.length = tag.attributes.length
    · simp only [hlength, ne_eq, not_true_eq_false, if_false, List.append_eq_nil_iff,
        List.map_eq_nil_iff, List.filterMap_eq_nil_iff, placeProblems_eq_nil_iff,
        Option.some.injEq, exists_eq_left']
      constructor
      · intro h
        obtain ⟨hlegal, hallowed, hsingle, -⟩ := h
        exact ⟨hlength, hlegal, hallowed, hsingle⟩
      · intro h
        exact ⟨h.legal, h.allowed, h.single, fun _ _ => List.not_mem_nil⟩
    · have hnot : ¬ tag.Fits (tree.node id).attributes (tree.kinds (tree.node id).children) :=
        fun h => hlength h.complete
      simp [hlength, hnot]

theorem problems_eq_nil_iff : tree.problems = [] ↔ ∀ id ∈ tree.walk root, tree.problemsAt id = [] := by
  simp only [problems, List.flatMap_eq_nil_iff]

end ParseTree

end NedCheck
