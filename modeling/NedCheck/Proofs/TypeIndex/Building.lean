import NedCheck.Proofs.TypeIndex.Linearization

/-!
# How a type is worked out

One step of `build`: a type that is not remembered has the members it inherits on its path and then its own. The rest of the theory knows building through this step only. The types on a path are different declared ones (`IsPath`), so a path has an end. Bases are filtered by what they were built to and not by what they were declared as, which comes to the same thing as long as what is remembered is `Sourced`.
-/

namespace NedCheck

/-- The type of a declaration with inherited members. -/
def TypeEntry.withInherited (entry : TypeEntry) (inherited : List (String × Member)) : TypeInfo where
  name := entry.name
  qualifiedName := entry.qualifiedName
  element := entry.element
  headerContext := entry.headerContext
  members := Table.insertAll (Table.insertAll ∅ inherited) entry.ownMembers

theorem TypeEntry.entries_withInherited (entry : TypeEntry) (inherited : List (String × Member)) :
    (entry.withInherited inherited).members.entries = firsts (inherited ++ entry.ownMembers) := by
  rw [withInherited, Table.insertAll_append, Table.entries_insertAll_empty]

theorem TypeEntry.mem_keys_withInherited {entry : TypeEntry} {inherited : List (String × Member)} {name : String} :
    name ∈ (entry.withInherited inherited).members.keys ↔
      name ∈ inherited.map Prod.fst ∨ name ∈ entry.ownMembers.map Prod.fst := by
  rw [Table.keys, entries_withInherited, mem_keys_firsts, List.map_append, List.mem_append]

namespace TypeIndex

variable {index : TypeIndex} {path : List TypeKey} {key : TypeKey} {entry : TypeEntry} {info : TypeInfo}
  {depth : Nat}

/-- The members of the bases that are worked out on account of a path. -/
def inheritedOn (index : TypeIndex) (depth : Nat) (path : List TypeKey) (entry : TypeEntry) :
    List (String × Member) :=
  (((index.baseKeys entry).filterMap (index.build depth path)).filter fun base =>
    base.tag = entry.element.tag).flatMap (·.members.entries)

theorem build_of_known (hknown : index.known.get? key = some info) : index.build (depth + 1) path key = some info := by
  rw [build, hknown]

theorem build_eq_none (hunknown : index.known.get? key = none) (hentry : index.types.get? key = none) :
    index.build (depth + 1) path key = none := by
  rw [build, hunknown, hentry]

theorem build_of_mem (hunknown : index.known.get? key = none) (hmem : key ∈ path) :
    index.build (depth + 1) path key = none := by
  rw [build, hunknown]
  dsimp only
  split
  · rfl
  · rw [if_pos (List.contains_iff_mem.2 hmem)]

/-- A type that is not remembered is worked out from its declaration, unless it is on the path. -/
theorem build_succ (hunknown : index.known.get? key = none) (hentry : index.types.get? key = some entry)
    (hnew : key ∉ path) :
    index.build (depth + 1) path key = some (entry.withInherited (index.inheritedOn depth (key :: path) entry)) := by
  have hnot : path.contains key = false := by
    rw [List.contains_eq_mem, decide_eq_false_iff_not]
    exact hnew
  rw [build, hunknown, hentry]
  dsimp only
  rw [hnot, if_neg Bool.false_ne_true, ← List.filterMap_filterMap]
  rfl

theorem build_cases (h : index.build depth path key = some info) :
    index.known.get? key = some info ∨
      ∃ below entry, depth = below + 1 ∧ index.types.get? key = some entry ∧
        info = entry.withInherited (index.inheritedOn below (key :: path) entry) := by
  cases depth with
  | zero => exact absurd h (by simp [build])
  | succ depth =>
    cases hknown : index.known.get? key with
    | some known =>
      rw [build_of_known hknown] at h
      exact .inl h
    | none =>
      cases hentry : index.types.get? key with
      | none => simp [build_eq_none hknown hentry] at h
      | some entry =>
        by_cases hnew : key ∈ path
        · rw [build_of_mem hknown hnew] at h
          cases h
        · rw [build_succ hknown hentry hnew] at h
          exact .inr ⟨depth, entry, rfl, rfl, (Option.some.inj h).symm⟩

/-! ### Paths -/

/-- The types on a path are different ones, and all of them are declared. -/
structure IsPath (index : TypeIndex) (path : List TypeKey) : Prop where
  nodup : path.Nodup
  declared : path ⊆ index.types.keys

namespace IsPath

theorem nil (index : TypeIndex) : index.IsPath [] := ⟨List.nodup_nil, List.nil_subset _⟩

theorem cons (h : index.IsPath path) (hentry : index.types.get? key = some entry) (hnew : key ∉ path) :
    index.IsPath (key :: path) :=
  ⟨List.nodup_cons.2 ⟨hnew, h.nodup⟩, List.cons_subset.2 ⟨mem_keys_of_get? hentry, h.declared⟩⟩

theorem length_le_size (h : index.IsPath path) : path.length ≤ index.size := by
  have hlength := (h.nodup.subperm h.declared).length_le
  rwa [Table.keys, List.length_map] at hlength

theorem depth_ne_zero (h : index.IsPath path) (hdepth : index.size < path.length + depth) : depth ≠ 0 := by
  have hlength := h.length_le_size
  omega

end IsPath

/-! ### Sources -/

/-- Whatever is remembered of a type is about its declaration. -/
def Sourced (index : TypeIndex) : Prop :=
  ∀ key info, index.known.get? key = some info →
    ∃ entry, index.types.get? key = some entry ∧ info.element = entry.element

namespace Sourced

variable (hsourced : index.Sourced)

include hsourced

theorem element_of_build (h : index.build depth path key = some info) :
    ∃ entry, index.types.get? key = some entry ∧ info.element = entry.element := by
  rcases build_cases h with hknown | ⟨below, entry, -, hentry, rfl⟩
  · exact hsourced key info hknown
  · exact ⟨entry, hentry, rfl⟩

theorem inheritedOn_eq : index.inheritedOn depth path entry =
    (index.bases entry).flatMap fun base => ((index.build depth path base).map (·.members.entries)).getD [] := by
  rw [inheritedOn, bases]
  induction index.baseKeys entry with
  | nil => rfl
  | cons key rest ih =>
    rw [List.filterMap_cons, List.filter_cons]
    cases hbuild : index.build depth path key with
    | none =>
      -- a base that is cut off has no members here, whatever its kind
      dsimp only
      rw [ih]
      split
      · rw [List.flatMap_cons, hbuild]
        rfl
      · rfl
    | some info =>
      obtain ⟨declared, hdeclared, helement⟩ := hsourced.element_of_build hbuild
      have hkind : decide (info.tag = entry.element.tag) = index.isSameKind entry key := by
        rw [isSameKind, hdeclared, Option.any_some, TypeInfo.tag, helement]
      dsimp only
      rw [List.filter_cons, hkind]
      split
      · rw [List.flatMap_cons, List.flatMap_cons, hbuild, ih]
        rfl
      · exact ih

end Sourced

end TypeIndex

end NedCheck
