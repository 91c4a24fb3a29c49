import NedCheck.Proofs.TypeIndex.Inheritance

/-!
# One project among others

An index of one project may be part of an index of several. If the types and files of the project are registered alike in both, and the names of its types are owned by the project, then names stand for the same types in both, from every context of the project: all candidates are types of the project, in the order they were registered, and so are the bases of its types. What the larger index holds of other projects is out of reach.

Types are worked out to different depths, since the larger index has more types. This makes no difference, for both depths are above the number of types of the project.
-/

namespace NedCheck

namespace TypeIndex

variable {project : String} {index alone : TypeIndex}

/-- The context of a file that is known, or of a type of the project. -/
def Holds (index : TypeIndex) (project : String) : LookupContext → Prop
  | .file name => index.files.contains name = true
  | .type qualifiedName => index.contains project qualifiedName = true

theorem project_of_types_filter
    (htypes : (index.types.entries.filter fun entry => entry.1.1 = project) = alone.types.entries) {key : TypeKey}
    {entry : TypeEntry} (hentry : alone.types.get? key = some entry) : key.1 = project := by
  have hmem := Table.get?_eq_some_iff.1 hentry
  rw [← htypes] at hmem
  exact of_decide_eq_true (List.mem_filter.1 hmem).2

/-- The part of an index that belongs to a project is the index `alone`, and what belongs to it is not taken for that of another project. -/
structure Separated (project : String) (index alone : TypeIndex) : Prop where
  types : (index.types.entries.filter fun entry => entry.1.1 = project) = alone.types.entries
  owned {qualifiedName : String} : alone.contains project qualifiedName = true →
    index.owners.get? qualifiedName = some project ∧ alone.owners.get? qualifiedName = some project
  filed {name : String} {file : FileEntry} : alone.files.get? name = some file →
    index.files.get? name = some file ∧ file.project = project
  closed {key : TypeKey} {entry : TypeEntry} : alone.types.get? key = some entry →
    alone.Holds project (.file entry.file) ∧ alone.Holds project entry.headerContext
  known : index.known = alone.known
  expected : index.expectedPackages = alone.expectedPackages
  reached : alone.Reached

namespace Separated

variable (h : Separated project index alone)

include h

/-! ### Types and contexts -/

theorem key_eq {key : TypeKey} {entry : TypeEntry} (hentry : alone.types.get? key = some entry) : key.1 = project :=
  project_of_types_filter h.types hentry

theorem types_get? (name : String) : index.types.get? (project, name) = alone.types.get? (project, name) := by
  apply Option.ext
  intro entry
  rw [Table.get?_eq_some_iff, Table.get?_eq_some_iff, ← h.types, List.mem_filter]
  simp

theorem types_contains (name : String) :
    index.types.contains (project, name) = alone.types.contains (project, name) := by
  rw [Table.contains, Table.contains, h.types_get?]

theorem size_le : alone.size ≤ index.size := by
  have hlength :=
    List.length_filter_le (fun entry : TypeKey × TypeEntry => decide (entry.1.1 = project)) index.types.entries
  rwa [h.types] at hlength

theorem exists_origin {context : LookupContext} (hcontext : alone.Holds project context) :
    ∃ origin, index.origin? context = some origin ∧ alone.origin? context = some origin ∧ origin.project = project := by
  cases context with
  | file name =>
    obtain ⟨file, hfile⟩ := Option.isSome_iff_exists.1 hcontext
    obtain ⟨hindex, hproject⟩ := h.filed hfile
    exact ⟨⟨file.project, some file, none⟩, by rw [origin?, hindex]; rfl, by rw [origin?, hfile]; rfl, hproject⟩
  | type qualifiedName =>
    obtain ⟨entry, hentry⟩ := Option.isSome_iff_exists.1 hcontext
    obtain ⟨howner, hownerAlone⟩ := h.owned hcontext
    have hindex := hentry
    rw [← h.types_get?] at hindex
    obtain ⟨file, hfile⟩ := Option.isSome_iff_exists.1 (h.closed hentry).1
    refine ⟨⟨project, some file, some qualifiedName⟩, ?_, ?_, rfl⟩
    · simp [origin?, howner, hindex, (h.filed hfile).1]
    · simp [origin?, hownerAlone, hentry, hfile]

/-! ### Names -/

theorem importedBy?_eq (name spec : String) :
    index.importedBy? project name spec = alone.importedBy? project name spec := by
  rw [importedBy?, importedBy?, ← h.types, List.find?_filter]
  congr 2
  funext entry
  by_cases hproject : entry.1.1 = project
  · simp only [hproject, decide_true, Bool.true_and, true_and, Bool.decide_eq_true]
  · simp [hproject]

theorem candidates_eq {origin : Origin} (hproject : origin.project = project) (name : String) :
    index.candidates origin name = alone.candidates origin name := by
  have henclosed : index.enclosedCandidates project = alone.enclosedCandidates project := by
    funext name type
    cases type with
    | none => rfl
    | some type => rw [enclosedCandidates, enclosedCandidates, outward_congr h.types_get?]
  have himported : index.importedBy? project = alone.importedBy? project :=
    funext fun name => funext (h.importedBy?_eq name)
  have hfile : index.fileCandidates project = alone.fileCandidates project := by
    funext name file
    cases file with
    | none => rfl
    | some file => rw [fileCandidates, fileCandidates, himported]
  rw [candidates, candidates, hproject, henclosed, hfile]

theorem resolve?_eq {context : LookupContext} (hcontext : alone.Holds project context) (name : String) :
    index.resolve? name context = alone.resolve? name context := by
  obtain ⟨origin, hindex, halone, hproject⟩ := h.exists_origin hcontext
  rw [resolve?, resolve?, hindex, halone]
  dsimp only
  rw [h.candidates_eq hproject, hproject]
  simp only [h.types_contains]

theorem resolve?_key {context : LookupContext} {name : String} {key : TypeKey}
    (hresolve : alone.resolve? name context = some key) : key.1 = project := by
  obtain ⟨entry, hentry⟩ := h.reached.coherent.exists_of_resolve? hresolve
  exact h.key_eq hentry

/-! ### Working out types -/

theorem baseKeys_eq {key : TypeKey} {entry : TypeEntry} (hentry : alone.types.get? key = some entry) :
    index.baseKeys entry = alone.baseKeys entry := by
  unfold baseKeys
  apply List.filterMap_congr
  intro base _
  exact h.resolve?_eq (h.closed hentry).2 base.name

theorem baseKeys_key {entry : TypeEntry} {base : TypeKey} (hbase : base ∈ alone.baseKeys entry) : base.1 = project := by
  obtain ⟨_, -, hresolve⟩ := List.mem_filterMap.1 hbase
  exact h.resolve?_key hresolve

/-- Types of the project come out the same at any two depths, as long as both are above the number of types that are not on the path. -/
theorem build_eq {depth other : Nat} {path : List TypeKey} {key : TypeKey} (hpath : alone.IsPath path)
    (hdepth : alone.size < path.length + depth) (hother : alone.size < path.length + other)
    (hproject : key.1 = project) :
    index.build depth path key = alone.build other path key := by
  induction depth generalizing other path key with
  | zero => exact absurd rfl (hpath.depth_ne_zero hdepth)
  | succ depth ih =>
    cases other with
    | zero => exact absurd rfl (hpath.depth_ne_zero hother)
    | succ other =>
      have htypes : index.types.get? key = alone.types.get? key := by
        obtain ⟨_, name⟩ := key
        obtain rfl := hproject
        exact h.types_get? name
      cases hknown : alone.known.get? key with
      | some info => rw [build_of_known hknown, build_of_known (h.known ▸ hknown)]
      | none =>
        have hunknown : index.known.get? key = none := h.known ▸ hknown
        cases hentry : alone.types.get? key with
        | none => rw [build_eq_none hknown hentry, build_eq_none hunknown (htypes.trans hentry)]
        | some entry =>
          by_cases hnew : key ∈ path
          · rw [build_of_mem hknown hnew, build_of_mem hunknown hnew]
          · have hbases : ∀ base ∈ alone.baseKeys entry,
                index.build depth (key :: path) base = alone.build other (key :: path) base := by
              intro base hbase
              refine ih (hpath.cons hentry hnew) ?_ ?_ (h.baseKeys_key hbase)
              · rw [List.length_cons]
                omega
              · rw [List.length_cons]
                omega
            rw [build_succ hknown hentry hnew, build_succ hunknown (htypes.trans hentry) hnew, inheritedOn, inheritedOn,
              h.baseKeys_eq hentry, List.filterMap_congr hbases]

/-! ### Look-ups -/

omit h in
theorem remember (h : Separated project index alone) (known : Table TypeKey TypeInfo)
    (hreached : ({ alone with known } : TypeIndex).Reached) :
    Separated project { index with known } { alone with known } :=
  ⟨h.types, h.owned, h.filed, h.closed, rfl, h.expected, hreached⟩

theorem typeInfo_eq (key : TypeKey) (hproject : key.1 = project) : ∃ known,
    index.typeInfo key = ((alone.typeInfo key).1, { index with known }) ∧
      (alone.typeInfo key).2 = { alone with known } := by
  have hbuild : index.build (index.types.size + 1) [] key = alone.build (alone.types.size + 1) [] key := by
    have hsize := h.size_le
    unfold size at hsize
    refine h.build_eq (.nil alone) ?_ ?_ hproject <;> rw [size, List.length_nil] <;> omega
  unfold typeInfo
  rw [hbuild, h.known]
  cases alone.build (alone.types.size + 1) [] key with
  | none => exact ⟨alone.known, by rw [← h.known], rfl⟩
  | some info =>
    dsimp only
    split_ifs
    · exact ⟨alone.known, by rw [← h.known], rfl⟩
    · exact ⟨alone.known.insert key info, rfl, rfl⟩

/-- A name that is looked up in a context of the project has the same answer in both. -/
theorem lookupType_eq {context : LookupContext} (hcontext : alone.Holds project context) (name : String) :
    (index.lookupType name context).1 = (alone.lookupType name context).1 ∧
      Separated project (index.lookupType name context).2 (alone.lookupType name context).2 := by
  have hreached := Reached.lookupType name context h.reached
  unfold lookupType at hreached ⊢
  rw [h.resolve?_eq hcontext]
  cases hresolve : alone.resolve? name context with
  | none => exact ⟨rfl, h⟩
  | some key =>
    obtain ⟨known, hindex, halone⟩ := h.typeInfo_eq key (h.resolve?_key hresolve)
    rw [hresolve] at hreached
    dsimp only at hreached ⊢
    rw [hindex, halone]
    exact ⟨rfl, h.remember known (halone ▸ hreached)⟩

theorem lookupTopLevel_eq (qualifiedName : String) :
    (index.lookupTopLevel qualifiedName project).1 = (alone.lookupTopLevel qualifiedName project).1 ∧
      Separated project (index.lookupTopLevel qualifiedName project).2
        (alone.lookupTopLevel qualifiedName project).2 := by
  have hreached := Reached.lookupTopLevel qualifiedName project h.reached
  unfold lookupTopLevel at hreached ⊢
  rw [h.types_get?]
  cases hentry : alone.types.get? (project, qualifiedName) with
  | none => exact ⟨rfl, h⟩
  | some entry =>
    rw [hentry] at hreached
    dsimp only at hreached ⊢
    split_ifs at hreached ⊢
    · obtain ⟨known, hindex, halone⟩ := h.typeInfo_eq (project, qualifiedName) rfl
      rw [hindex, halone]
      exact ⟨rfl, h.remember known (halone ▸ hreached)⟩
    · exact ⟨rfl, h⟩

theorem qualifiedNames_eq : index.qualifiedNames project = alone.qualifiedNames project := by
  rw [qualifiedNames, qualifiedNames, ← h.types, List.filter_filter]
  congr 2
  funext entry
  by_cases hproject : entry.1.1 = project <;> simp [hproject]

theorem holds_of_mem_members {context : LookupContext} {name : String} {info : TypeInfo}
    (hlookup : (alone.lookupType name context).1 = some info) {member : String × Member}
    (hmember : member ∈ info.members.entries) : alone.Holds project (.type member.2.owner) := by
  rw [lookupType_fst] at hlookup
  obtain ⟨key, -, hbuild⟩ := Option.bind_eq_some_iff.1 hlookup
  obtain ⟨above, entry, -, hentry, hown⟩ := (h.reached.faithful.covers_of_build hbuild).owners member hmember
  obtain ⟨e, -, rfl⟩ := List.mem_map.1 hown
  have hname : above = (project, entry.qualifiedName) :=
    Prod.ext (h.key_eq hentry) (h.reached.coherent.named hentry).symm
  rw [hname] at hentry
  exact Option.isSome_iff_exists.2 ⟨entry, hentry⟩

end Separated

end TypeIndex

end NedCheck
