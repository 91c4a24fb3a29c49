import NedCheck.Proofs.ParseTree.Layout

/-!
# Conversion of sound trees

Conversion meets the nodes that a walk meets, so a tree in which a walk finds no problem is converted, and every element made of it fits the schema as its node did. This holds of every tree, also of one whose links make no sense: what a walk does not reach, conversion does not reach either.
-/

namespace NedCheck

theorem Attributes.values_fill {tag : Tag} {values : List String}
    (h : values.length = tag.attributes.length) : (Attributes.fill tag values).values = values := by
  have hnone : (Attributes.initial tag).values.drop values.length = [] := by
    rw [h, ← (Attributes.initial tag).complete, List.drop_length]
  show values.take tag.attributes.length ++ (Attributes.initial tag).values.drop values.length = values
  rw [hnone, ← h, List.take_length, List.append_nil]

theorem exists_mapM_eq_ok {ε α β : Type} {f : α → Except ε β} {P : α → β → Prop} {xs : List α}
    (h : ∀ x ∈ xs, ∃ y, f x = .ok y ∧ P x y) : ∃ ys, xs.mapM f = .ok ys ∧ List.Forall₂ P xs ys := by
  induction xs with
  | nil => exact ⟨[], rfl, .nil⟩
  | cons x xs ih =>
    obtain ⟨y, hy, hP⟩ := h x (by simp)
    obtain ⟨ys, hys, hall⟩ := ih fun x hx => h x (by simp [hx])
    refine ⟨y :: ys, ?_, .cons hP hall⟩
    rw [List.mapM_cons, hy, hys]
    rfl

theorem forall_right_of_forall₂ {α β : Type} {P : β → Prop} {xs : List α} {ys : List β}
    (h : List.Forall₂ (fun _ y => P y) xs ys) : ∀ y ∈ ys, P y := by
  induction h with
  | nil => simp
  | cons hy _ ih => exact List.forall_mem_cons.2 ⟨hy, ih⟩

namespace ParseTree

variable {tree : ParseTree}

theorem exists_assemble_eq_ok {id : Nat} {tag : Tag} {children : List Element}
    (htag : (tree.node id).tag? = some tag)
    (hfits : tag.Fits (tree.node id).attributes (children.map Element.tag))
    (hsound : ∀ child ∈ children, child.Sound) :
    ∃ e, tree.assemble id (.ok children) = .ok e ∧ e.tag = tag ∧ e.Sound := by
  rw [assemble, htag]
  refine ⟨_, rfl, rfl, ?_⟩
  rw [Element.sound_iff]
  refine ⟨?_, hsound⟩
  rw [Attributes.values_fill hfits.complete]
  exact hfits

/-- What a walk finds sound is converted to a sound element. -/
theorem exists_toElementTo_eq_ok {depth id : Nat}
    (h : ∀ number ∈ tree.walkTo depth id, tree.problemsAt number = []) :
    ∃ e, tree.toElementTo depth id = .ok e ∧ (tree.node id).tag? = some e.tag ∧ e.Sound := by
  induction depth generalizing id with
  | zero =>
    obtain ⟨tag, htag, hfits⟩ := (tree.problemsAt_eq_nil_iff id).1 (h id (by simp [walkTo]))
    have hleaf : tag.Fits (tree.node id).attributes (([] : List Element).map Element.tag) :=
      hfits.of_sublist (List.nil_sublist _)
    obtain ⟨e, he, hkind, hsound⟩ := exists_assemble_eq_ok htag hleaf (by simp)
    exact ⟨e, he, by rw [htag, hkind], hsound⟩
  | succ depth ih =>
    rw [walkTo, List.forall_mem_cons] at h
    obtain ⟨hnode, hbelow⟩ := h
    obtain ⟨tag, htag, hfits⟩ := (tree.problemsAt_eq_nil_iff id).1 hnode
    have hconverted : ∀ number ∈ (tree.node id).children, ∃ e, tree.toElementTo depth number = .ok e ∧
        (tree.node number).tag? = some e.tag ∧ e.Sound := by
      intro number hnumber
      exact ih fun n hn => hbelow n (List.mem_flatMap.2 ⟨number, hnumber, hn⟩)
    obtain ⟨children, hchildren, hall⟩ :=
      exists_mapM_eq_ok (P := fun number (e : Element) => (tree.node number).tag? = some e.tag ∧ e.Sound)
        hconverted
    have hkinds := kinds_eq_of_forall₂ (hall.imp fun _ _ hpair => hpair.1)
    have hsounds := forall_right_of_forall₂ (hall.imp fun _ _ hpair => hpair.2)
    rw [hkinds] at hfits
    obtain ⟨e, he, hkind, hsound⟩ := exists_assemble_eq_ok htag hfits hsounds
    exact ⟨e, by rw [toElementTo, hchildren, he], by rw [htag, hkind], hsound⟩

theorem exists_toElement_eq_ok (h : tree.problems = []) : ∃ e, tree.toElement = .ok e ∧ e.Sound := by
  obtain ⟨e, he, -, hsound⟩ := exists_toElementTo_eq_ok (tree.problems_eq_nil_iff.1 h)
  exact ⟨e, he, hsound⟩

end ParseTree

end NedCheck
