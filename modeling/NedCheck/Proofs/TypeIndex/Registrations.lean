import Mathlib.Tactic.SplitIfs
import NedCheck.TypeIndex.Lookup

/-!
# What look-ups leave alone

An index holds what has been registered and, besides, what it remembers. Names resolve by what has been registered alone, and a look-up changes nothing but what is remembered. So two indexes with the same registrations resolve alike, whatever has been asked of them.

What is remembered was worked out from what is registered, or from what was remembered before. `Reached.known_induction` is the induction over histories that this gives.
-/

namespace NedCheck

namespace TypeIndex

variable {left middle right : TypeIndex}

theorem outward_congr {project : String} (h : ∀ name, left.types.get? (project, name) = right.types.get? (project, name))
    (bound : Nat) (name : String) : left.outward project bound name = right.outward project bound name := by
  induction bound generalizing name with
  | zero => rfl
  | succ bound ih =>
    rw [outward, outward, h]
    cases (right.types.get? (project, name)).bind (·.enclosing) with
    | none => rfl
    | some outer =>
      dsimp only
      rw [ih]

theorem candidates_congr (h : left.types = right.types) (origin : Origin) (name : String) :
    left.candidates origin name = right.candidates origin name := by
  have himported : left.importedBy? = right.importedBy? := by
    funext project name spec
    rw [importedBy?, importedBy?, h]
  have hfile : left.fileCandidates = right.fileCandidates := by
    funext project name file
    cases file with
    | none => rfl
    | some file => rw [fileCandidates, fileCandidates, himported]
  have henclosed : left.enclosedCandidates = right.enclosedCandidates := by
    funext project name type
    cases type with
    | none => rfl
    | some type =>
      have htypes (name : String) : left.types.get? (project, name) = right.types.get? (project, name) := by rw [h]
      rw [enclosedCandidates, enclosedCandidates, outward_congr htypes]
  rw [candidates, candidates, henclosed, hfile]

/-- The same types, owners and files. -/
structure SameRegistrations (left right : TypeIndex) : Prop where
  types : left.types = right.types
  owners : left.owners = right.owners
  files : left.files = right.files

namespace SameRegistrations

theorem refl (index : TypeIndex) : SameRegistrations index index := ⟨rfl, rfl, rfl⟩

theorem symm (h : SameRegistrations left right) : SameRegistrations right left :=
  ⟨h.types.symm, h.owners.symm, h.files.symm⟩

theorem trans (hleft : SameRegistrations left middle) (hright : SameRegistrations middle right) :
    SameRegistrations left right :=
  ⟨hleft.types.trans hright.types, hleft.owners.trans hright.owners, hleft.files.trans hright.files⟩

theorem resolve?_eq (h : SameRegistrations left right) (name : String) (context : LookupContext) :
    left.resolve? name context = right.resolve? name context := by
  have horigin : left.origin? context = right.origin? context := by
    cases context with
    | file name => rw [origin?, origin?, h.files]
    | type qualifiedName => rw [origin?, origin?, h.owners, h.types, h.files]
  rw [resolve?, resolve?, horigin, h.owners, h.types]
  cases right.origin? context with
  | none => rfl
  | some origin =>
    dsimp only
    rw [candidates_congr h.types]

end SameRegistrations

/-! ### Look-ups -/

/-- A look-up remembers what it has worked out, if it was not known, and that is all it does. -/
theorem typeInfo_snd (index : TypeIndex) (key : TypeKey) :
    (index.typeInfo key).2 = index ∨ ∃ info, index.build (index.size + 1) [] key = some info ∧
      (index.typeInfo key).2 = { index with known := index.known.insert key info } := by
  unfold typeInfo
  split
  · rename_i info hbuild
    by_cases hknown : index.known.contains key = true
    · exact .inl (if_pos hknown)
    · exact .inr ⟨info, hbuild, if_neg hknown⟩
  · exact .inl rfl

theorem sameRegistrations_typeInfo (index : TypeIndex) (key : TypeKey) :
    SameRegistrations (index.typeInfo key).2 index := by
  rcases index.typeInfo_snd key with heq | ⟨info, -, heq⟩
  · rw [heq]
    exact .refl index
  · rw [heq]
    exact ⟨rfl, rfl, rfl⟩

theorem typeInfo_fst (index : TypeIndex) (key : TypeKey) :
    (index.typeInfo key).1 = index.build (index.size + 1) [] key := by
  unfold typeInfo
  split
  · rename_i info hbuild
    exact hbuild.symm
  · rename_i hbuild
    exact hbuild.symm

theorem lookupType_snd (index : TypeIndex) (name : String) (context : LookupContext) :
    (index.lookupType name context).2 = index ∨
      ∃ key, (index.lookupType name context).2 = (index.typeInfo key).2 := by
  unfold lookupType
  split
  · exact .inr ⟨_, rfl⟩
  · exact .inl rfl

theorem lookupType_fst (index : TypeIndex) (name : String) (context : LookupContext) :
    (index.lookupType name context).1 =
      (index.resolve? name context).bind fun key => index.build (index.size + 1) [] key := by
  unfold lookupType
  cases index.resolve? name context with
  | none => rfl
  | some key => exact index.typeInfo_fst key

theorem lookupTopLevel_snd (index : TypeIndex) (qualifiedName project : String) :
    (index.lookupTopLevel qualifiedName project).2 = index ∨
      ∃ key, (index.lookupTopLevel qualifiedName project).2 = (index.typeInfo key).2 := by
  unfold lookupTopLevel
  split
  · split
    · exact .inr ⟨_, rfl⟩
    · exact .inl rfl
  · exact .inl rfl

/-- The key of a type at the top level of the project, if there is one of the name. -/
def topLevelKey? (index : TypeIndex) (qualifiedName project : String) : Option TypeKey :=
  ((index.types.get? (project, qualifiedName)).filter (·.enclosing.isNone)).map fun _ => (project, qualifiedName)

theorem lookupTopLevel_fst (index : TypeIndex) (qualifiedName project : String) :
    (index.lookupTopLevel qualifiedName project).1 =
      (index.topLevelKey? qualifiedName project).bind fun key => index.build (index.size + 1) [] key := by
  unfold lookupTopLevel topLevelKey?
  cases index.types.get? (project, qualifiedName) with
  | none => rfl
  | some entry =>
    cases htop : entry.enclosing.isNone <;> simp [Option.filter, htop, typeInfo_fst]

theorem sameRegistrations_lookupType (index : TypeIndex) (name : String) (context : LookupContext) :
    SameRegistrations (index.lookupType name context).2 index := by
  rcases index.lookupType_snd name context with heq | ⟨key, heq⟩ <;> rw [heq]
  · exact .refl index
  · exact index.sameRegistrations_typeInfo key

theorem sameRegistrations_lookupTopLevel (index : TypeIndex) (qualifiedName project : String) :
    SameRegistrations (index.lookupTopLevel qualifiedName project).2 index := by
  rcases index.lookupTopLevel_snd qualifiedName project with heq | ⟨key, heq⟩ <;> rw [heq]
  · exact .refl index
  · exact index.sameRegistrations_typeInfo key

theorem sameRegistrations_setExpectedPackage (index : TypeIndex) (file package : String) :
    SameRegistrations (index.setExpectedPackage file package) index :=
  ⟨rfl, rfl, rfl⟩

/-! ### Histories -/

/-- The index comes about by adding files and setting packages, with look-ups in between. -/
inductive Reached : TypeIndex → Prop where
  | empty : Reached .empty
  | addFile {index : TypeIndex} (project : String) (root : Element) :
    Reached index → Reached (index.addFile project root)
  | setExpectedPackage {index : TypeIndex} (file package : String) :
    Reached index → Reached (index.setExpectedPackage file package)
  | lookupType {index : TypeIndex} (name : String) (context : LookupContext) :
    Reached index → Reached (index.lookupType name context).2
  | lookupTopLevel {index : TypeIndex} (qualifiedName project : String) :
    Reached index → Reached (index.lookupTopLevel qualifiedName project).2

theorem addFile_eq_or_known (index : TypeIndex) (project : String) (root : Element) :
    index.addFile project root = index ∨ (index.addFile project root).known = ∅ := by
  unfold addFile
  split
  · cases hfiles : root.childrenWithTag .nedFile with
    | nil => exact .inl rfl
    | cons file rest =>
      exact .inr (List.foldlRecOn (motive := fun index : TypeIndex => index.known = ∅) rest _ rfl fun _ _ _ _ => rfl)
  · exact .inr rfl
  · exact .inl rfl

theorem known_typeInfo_cases {index : TypeIndex} {key other : TypeKey} {info : TypeInfo}
    (h : (index.typeInfo key).2.known.get? other = some info) :
    index.known.get? other = some info ∨ index.build (index.size + 1) [] other = some info := by
  rcases index.typeInfo_snd key with heq | ⟨built, hbuild, heq⟩
  · exact .inl (heq ▸ h)
  · rw [heq] at h
    dsimp only at h
    rw [Table.get?_insert] at h
    split_ifs at h with hkey
    · exact .inr (hkey ▸ hbuild.trans h)
    · exact .inl h

/-- A property of remembered types that hangs on what is registered holds in every history, if whatever is worked out has it as long as all that is remembered has. -/
theorem Reached.known_induction {P : TypeIndex → TypeKey → TypeInfo → Prop}
    (congr : ∀ {left right key info}, SameRegistrations left right → P left key info → P right key info)
    (build : ∀ {index key info}, (∀ key info, index.known.get? key = some info → P index key info) →
      index.build (index.size + 1) [] key = some info → P index key info)
    {index : TypeIndex} (hreached : index.Reached) :
    ∀ key info, index.known.get? key = some info → P index key info := by
  have hempty : ∀ index : TypeIndex, index.known = ∅ →
      ∀ key info, index.known.get? key = some info → P index key info := by
    intro index hknown key info hget
    rw [hknown] at hget
    exact absurd hget (by simp [Table.get?])
  have hlookup : ∀ index next : TypeIndex, (∀ key info, index.known.get? key = some info → P index key info) →
      (next = index ∨ ∃ key, next = (index.typeInfo key).2) →
      ∀ key info, next.known.get? key = some info → P next key info := by
    intro index next ih hnext other info hget
    rcases hnext with heq | ⟨key, heq⟩ <;> rw [heq] at hget ⊢
    · exact ih other info hget
    · apply congr (index.sameRegistrations_typeInfo key).symm
      rcases known_typeInfo_cases hget with hknown | hbuild
      · exact ih other info hknown
      · exact build ih hbuild
  induction hreached with
  | empty => exact hempty _ rfl
  | @addFile index project root _ ih =>
    rcases index.addFile_eq_or_known project root with heq | hknown
    · rwa [heq]
    · exact hempty _ hknown
  | @setExpectedPackage index file package _ ih =>
    exact fun key info hget => congr (index.sameRegistrations_setExpectedPackage file package).symm (ih key info hget)
  | @lookupType index name context _ ih => exact hlookup index _ ih (index.lookupType_snd name context)
  | @lookupTopLevel index qualifiedName project _ ih =>
    exact hlookup index _ ih (index.lookupTopLevel_snd qualifiedName project)

/-! ### What is registered -/

/-- Types stand under their qualified names, and a name that is owned is that of a type of its owner. -/
structure Coherent (index : TypeIndex) : Prop where
  named {key : TypeKey} {entry : TypeEntry} : index.types.get? key = some entry → entry.qualifiedName = key.2
  owned {qualifiedName project : String} : index.owners.get? qualifiedName = some project →
    ∃ entry, index.types.get? (project, qualifiedName) = some entry

namespace Coherent

variable {index : TypeIndex}

theorem register (h : index.Coherent) (project : String) (entry : TypeEntry) :
    (index.register project entry).Coherent := by
  refine ⟨?_, ?_⟩
  · intro key found hfound
    simp only [TypeIndex.register, Table.get?_insert] at hfound
    split_ifs at hfound with hkey
    · rw [← hkey, ← Option.some.inj hfound]
    · exact h.named hfound
  · intro qualifiedName owner howner
    simp only [TypeIndex.register, Table.get?_insert] at howner ⊢
    by_cases hkey : (project, entry.qualifiedName) = (owner, qualifiedName)
    · exact ⟨entry, if_pos hkey⟩
    · rw [if_neg hkey]
      -- another owner of the name has been there before
      apply h.owned
      unfold Table.insertIfNew at howner
      split_ifs at howner
      · exact howner
      · rw [Table.get?_insert] at howner
        split_ifs at howner with hname
        · exact absurd (by rw [hname, Option.some.inj howner]) hkey
        · exact howner

theorem addNedFile (h : index.Coherent) (project : String) (file : Element) :
    (index.addNedFile project file).Coherent := by
  have hregistered : (file.fileDeclarations.foldl (fun index entry => index.register project entry) index).Coherent :=
    List.foldlRecOn _ _ h fun _ ih entry _ => ih.register project entry
  exact ⟨hregistered.named, hregistered.owned⟩

theorem addFile (h : index.Coherent) (project : String) (root : Element) :
    (index.addFile project root).Coherent := by
  unfold TypeIndex.addFile
  split
  · exact List.foldlRecOn _ _ h fun _ ih file _ => ih.addNedFile project file
  · exact h.addNedFile project root
  · exact h

theorem congr {other : TypeIndex} (h : index.Coherent) (hsame : SameRegistrations other index) :
    other.Coherent := by
  refine ⟨?_, ?_⟩
  · rw [hsame.types]
    exact h.named
  · rw [hsame.types, hsame.owners]
    exact h.owned

theorem exists_of_resolve? (h : index.Coherent) {name : String} {context : LookupContext} {key : TypeKey}
    (hresolve : index.resolve? name context = some key) : ∃ entry, index.types.get? key = some entry := by
  unfold resolve? at hresolve
  split at hresolve
  · rename_i origin _
    obtain ⟨candidate, hfound, rfl⟩ := Option.map_eq_some_iff.1 hresolve
    have hcontains := List.find?_some hfound
    exact Option.isSome_iff_exists.1 hcontains
  · obtain ⟨project, howner, rfl⟩ := Option.map_eq_some_iff.1 hresolve
    exact h.owned howner

end Coherent

theorem Reached.coherent {index : TypeIndex} (hreached : index.Reached) : index.Coherent := by
  induction hreached with
  | empty => exact ⟨fun h => absurd h (by simp [TypeIndex.empty, Table.get?]),
      fun h => absurd h (by simp [TypeIndex.empty, Table.get?])⟩
  | addFile project root _ ih => exact ih.addFile project root
  | setExpectedPackage file package _ ih => exact ih.congr (sameRegistrations_setExpectedPackage _ file package)
  | lookupType name context _ ih => exact ih.congr (sameRegistrations_lookupType _ name context)
  | lookupTopLevel qualifiedName project _ ih =>
    exact ih.congr (sameRegistrations_lookupTopLevel _ qualifiedName project)

end TypeIndex

end NedCheck
