import NedCheck.Proofs.TypeIndex.Declarations
import NedCheck.Proofs.TypeIndex.Separation

/-!
# Several projects in one index

Files are added for one project or another. Types are registered by project, and of each project the index has the types that it has from the files of that project alone, in the same order. Two things are kept by name only: a qualified name is owned by the project that declared it first, and a file name stands for the file that was added last. As long as neither takes a name away from a project, its part of the index is `Separated` from the rest.
-/

namespace NedCheck

/-! ### Tables by parts -/

namespace Table

variable {κ ν : Type} [DecidableEq κ]

theorem filter_putEntry (keep : κ → Bool) (key : κ) (value : ν) (entries : List (κ × ν)) :
    (putEntry key value entries).filter (fun entry => keep entry.1) =
      if keep key then putEntry key value (entries.filter fun entry => keep entry.1)
      else entries.filter fun entry => keep entry.1 := by
  induction entries with
  | nil => by_cases hkeep : keep key = true <;> simp [putEntry, hkeep]
  | cons entry rest ih =>
    by_cases hkey : entry.1 = key
    · by_cases hkeep : keep key = true <;> simp [putEntry, hkey, hkeep]
    · by_cases hentry : keep entry.1 = true <;> by_cases hkeep : keep key = true <;>
        simp [putEntry, hkey, hentry, hkeep, ih]

theorem contains_insert {table : Table κ ν} {key other : κ} {value : ν} :
    (table.insert key value).contains other = true ↔ key = other ∨ table.contains other = true := by
  rw [contains, contains, get?_insert]
  by_cases hkey : key = other <;> simp [hkey]

theorem contains_insertIfNew {table : Table κ ν} {key other : κ} {value : ν} :
    (table.insertIfNew key value).contains other = true ↔ key = other ∨ table.contains other = true := by
  unfold insertIfNew
  split_ifs with hold
  · refine ⟨.inr, ?_⟩
    rintro (rfl | hother)
    · exact hold
    · exact hother
  · exact contains_insert

end Table

namespace Element

theorem enclosing_of_mem_declarations {file : String} {enclosing : Option String} {qualifiedName : String} {e : Element}
    {entry : TypeEntry} (h : entry ∈ declarations file enclosing qualifiedName e) :
    entry.enclosing = enclosing ∨
      ∃ outer ∈ declarations file enclosing qualifiedName e, entry.enclosing = some outer.qualifiedName := by
  induction e using innerTypes_induction generalizing enclosing qualifiedName with
  | step e ih =>
    have hself := mem_declarations_self file enclosing qualifiedName e
    rw [declarations_eq] at h hself ⊢
    rcases List.mem_append.1 h with hinner | hlast
    · obtain ⟨d, hd, hinner⟩ := List.mem_flatMap.1 hinner
      rcases ih d hd hinner with houter | ⟨outer, houter, heq⟩
      · exact .inr ⟨_, hself, houter⟩
      · exact .inr ⟨outer, List.mem_append_left _ (List.mem_flatMap.2 ⟨d, hd, houter⟩), heq⟩
    · obtain rfl := List.mem_singleton.1 hlast
      exact .inl rfl

theorem enclosing_of_mem_fileDeclarations {file : Element} {entry : TypeEntry} (h : entry ∈ file.fileDeclarations) :
    entry.enclosing = none ∨ ∃ outer ∈ file.fileDeclarations, entry.enclosing = some outer.qualifiedName := by
  obtain ⟨e, he, h⟩ := List.mem_flatMap.1 h
  rcases enclosing_of_mem_declarations h with htop | ⟨outer, houter, heq⟩
  · exact .inl htop
  · exact .inr ⟨outer, List.mem_flatMap.2 ⟨e, he, houter⟩, heq⟩

/-- The NED files of a tree that is added to an index. -/
def nedFiles (root : Element) : List Element :=
  match root.tag with
  | .files => root.childrenWithTag .nedFile
  | .nedFile => [root]
  | _ => []

theorem registrations_eq (root : Element) : root.registrations = root.nedFiles.flatMap fileDeclarations := by
  unfold registrations nedFiles
  cases root.tag <;> simp

end Element

namespace TypeIndex

variable {index : TypeIndex} {project : String} {file : Element}

/-! ### Adding a file -/

theorem addFile_eq (index : TypeIndex) (project : String) (root : Element) :
    index.addFile project root = root.nedFiles.foldl (fun index file => index.addNedFile project file) index := by
  unfold addFile Element.nedFiles
  cases root.tag <;> rfl

theorem types_addNedFile (index : TypeIndex) (project : String) (file : Element) :
    (index.addNedFile project file).types =
      file.fileDeclarations.foldl (fun types entry => types.insert (project, entry.qualifiedName) entry) index.types :=
  types_foldl_register index project file.fileDeclarations

theorem files_addNedFile (index : TypeIndex) (project : String) (file : Element) :
    (index.addNedFile project file).files =
      index.files.insert (file.value "filename") ⟨project, file.packageName, file.importSpecs⟩ := by
  have hfiles : (file.fileDeclarations.foldl (fun index entry => index.register project entry) index).files =
      index.files := List.foldlRecOn (motive := fun other : TypeIndex => other.files = index.files) _ _ rfl
        fun _ ih _ _ => ih
  rw [addNedFile, hfiles]

theorem mem_of_types_addNedFile {key : TypeKey} {entry : TypeEntry}
    (h : (index.addNedFile project file).types.get? key = some entry) :
    (entry ∈ file.fileDeclarations ∧ key = (project, entry.qualifiedName)) ∨ index.types.get? key = some entry := by
  rw [types_addNedFile] at h
  generalize index.types = types at h ⊢
  generalize file.fileDeclarations = entries at h ⊢
  induction entries generalizing types with
  | nil => exact .inr h
  | cons first rest ih =>
    rw [List.foldl_cons] at h
    rcases ih _ h with ⟨hmem, hkey⟩ | hold
    · exact .inl ⟨List.mem_cons_of_mem _ hmem, hkey⟩
    · rw [Table.get?_insert] at hold
      split_ifs at hold with hkey
      · obtain rfl := Option.some.inj hold
        exact .inl ⟨List.mem_cons_self, hkey.symm⟩
      · exact .inr hold

theorem contains_addNedFile {other qualifiedName : String} :
    (index.addNedFile project file).contains other qualifiedName = true ↔
      (other = project ∧ ∃ entry ∈ file.fileDeclarations, entry.qualifiedName = qualifiedName) ∨
        index.contains other qualifiedName = true := by
  unfold contains
  rw [types_addNedFile]
  generalize index.types = types
  induction file.fileDeclarations generalizing types with
  | nil => simp
  | cons first rest ih =>
    rw [List.foldl_cons, ih, Table.contains_insert]
    simp only [List.exists_mem_cons_iff, Prod.mk.injEq]
    grind

/-! ### Registered types have their surroundings -/

/-- With each type its file is known, the type around it, if there is one, and an owner of its name. -/
structure Anchored (index : TypeIndex) : Prop where
  filed {key : TypeKey} {entry : TypeEntry} : index.types.get? key = some entry →
    index.files.contains entry.file = true
  enclosed {key : TypeKey} {entry : TypeEntry} {outer : String} : index.types.get? key = some entry →
    entry.enclosing = some outer → index.contains key.1 outer = true
  owned {key : TypeKey} {entry : TypeEntry} : index.types.get? key = some entry → index.owners.contains key.2 = true

theorem owners_foldl_register {entries : List TypeEntry} {name : String} :
    (entries.foldl (fun index entry => index.register project entry) index).owners.contains name = true ↔
      (∃ entry ∈ entries, entry.qualifiedName = name) ∨ index.owners.contains name = true := by
  induction entries generalizing index with
  | nil => simp
  | cons entry rest ih =>
    rw [List.foldl_cons, ih, register, Table.contains_insertIfNew, or_left_comm, ← or_assoc, List.exists_mem_cons_iff]

theorem Anchored.addNedFile (h : index.Anchored) (project : String) (file : Element) :
    (index.addNedFile project file).Anchored := by
  have hfile (name : String) : (index.addNedFile project file).files.contains name = true ↔
      file.value "filename" = name ∨ index.files.contains name = true := by
    rw [files_addNedFile, Table.contains_insert]
  refine ⟨fun hentry => ?_, fun {key entry outer} hentry houter => ?_, fun hentry => owners_foldl_register.2 ?_⟩
  · rw [hfile]
    rcases mem_of_types_addNedFile hentry with ⟨hmem, -⟩ | hold
    · exact .inl (Element.named_of_mem_fileDeclarations hmem).1.symm
    · exact .inr (h.filed hold)
  · rw [contains_addNedFile]
    rcases mem_of_types_addNedFile hentry with ⟨hmem, rfl⟩ | hold
    · rcases Element.enclosing_of_mem_fileDeclarations hmem with htop | ⟨around, haround, heq⟩
      · rw [htop] at houter
        cases houter
      · exact .inl ⟨rfl, around, haround, Option.some.inj (heq.symm.trans houter)⟩
    · exact .inr (h.enclosed hold houter)
  · rcases mem_of_types_addNedFile hentry with ⟨hmem, rfl⟩ | hold
    · exact .inl ⟨_, hmem, rfl⟩
    · exact .inr (h.owned hold)

/-! ### Calls -/

/-- The index after a row of trees has been added, each to a project. -/
def addFiles (calls : List (String × Element)) : TypeIndex :=
  calls.foldl (fun index call => index.addFile call.1 call.2) .empty

/-- The calls that add to the project. -/
def callsFor (project : String) (calls : List (String × Element)) : List (String × Element) :=
  calls.filter fun call => call.1 = project

/-- The files that are added, each with its project. -/
def additions (calls : List (String × Element)) : List (String × Element) :=
  calls.flatMap fun call => call.2.nedFiles.map (call.1, ·)

theorem addFiles_eq (calls : List (String × Element)) : addFiles calls =
    (additions calls).foldl (fun index added => index.addNedFile added.1 added.2) .empty := by
  unfold addFiles additions
  generalize TypeIndex.empty = index
  induction calls generalizing index with
  | nil => rfl
  | cons call rest ih => rw [List.foldl_cons, List.flatMap_cons, List.foldl_append, ih, addFile_eq, List.foldl_map]

/-- What holds of the empty index and is kept with each file that is added holds whatever is added. -/
theorem addFiles_induction {motive : List (String × Element) → TypeIndex → Prop} (empty : motive [] .empty)
    (step : ∀ {earlier index} project file, motive earlier index →
      motive (earlier ++ [(project, file)]) (index.addNedFile project file)) (calls : List (String × Element)) :
    motive (additions calls) (addFiles calls) := by
  rw [addFiles_eq]
  induction additions calls using List.reverseRecOn with
  | nil => exact empty
  | append_singleton earlier last ih =>
    rw [List.foldl_append]
    exact step last.1 last.2 ih

theorem additions_callsFor (project : String) (calls : List (String × Element)) :
    additions (callsFor project calls) = (additions calls).filter fun added => added.1 = project := by
  unfold additions callsFor
  induction calls with
  | nil => rfl
  | cons call rest ih =>
    rw [List.flatMap_cons, List.filter_append, ← ih]
    by_cases hproject : call.1 = project <;> simp [hproject, List.filter_map, Function.comp_def]

theorem mem_additions_callsFor {calls : List (String × Element)} {added : String × Element} :
    added ∈ additions (callsFor project calls) ↔ added ∈ additions calls ∧ added.1 = project := by
  rw [additions_callsFor, List.mem_filter, decide_eq_true_iff]

/-! ### Parts -/

/-- The types of the project, and its files as far as no other project has taken their names. -/
structure Part (project : String) (index alone : TypeIndex) : Prop where
  types : (index.types.entries.filter fun entry => entry.1.1 = project) = alone.types.entries
  filed {name : String} {file : FileEntry} : index.files.get? name = some file → file.project = project →
    alone.files.get? name = some file

namespace Part

variable {alone : TypeIndex}

theorem addNedFile_of_ne (h : Part project index alone) {other : String} (hother : other ≠ project) (file : Element) :
    Part project (index.addNedFile other file) alone where
  types := by
    rw [types_addNedFile, ← h.types]
    generalize index.types = types
    induction file.fileDeclarations generalizing types with
    | nil => rfl
    | cons entry rest ih =>
      rw [List.foldl_cons, ih]
      refine (Table.filter_putEntry (fun key : TypeKey => decide (key.1 = project)) _ entry types.entries).trans ?_
      simp [hother]
  filed {name entry} hentry hproject := by
    rw [files_addNedFile, Table.get?_insert] at hentry
    split_ifs at hentry with hname
    · obtain rfl := Option.some.inj hentry
      exact absurd hproject hother
    · exact h.filed hentry hproject

theorem addNedFile (h : Part project index alone) (file : Element) :
    Part project (index.addNedFile project file) (alone.addNedFile project file) where
  types := by
    rw [types_addNedFile, types_addNedFile]
    have htypes := h.types
    generalize index.types = types at htypes ⊢
    generalize alone.types = own at htypes ⊢
    induction file.fileDeclarations generalizing types own with
    | nil => exact htypes
    | cons entry rest ih =>
      apply ih
      refine (Table.filter_putEntry (fun key : TypeKey => decide (key.1 = project)) _ entry types.entries).trans ?_
      rw [htypes]
      simp [Table.insert]
  filed {name entry} hentry hproject := by
    rw [files_addNedFile, Table.get?_insert] at hentry ⊢
    split_ifs at hentry ⊢ with hname
    · exact hentry
    · exact h.filed hentry hproject

end Part

/-- The part of an index that belongs to a project is what its own calls make. -/
theorem part_addFiles (project : String) (calls : List (String × Element)) :
    Part project (addFiles calls) (addFiles (callsFor project calls)) := by
  rw [addFiles_eq, addFiles_eq, additions_callsFor]
  induction additions calls using List.reverseRecOn with
  | nil => exact ⟨rfl, by simp [empty, Table.get?]⟩
  | append_singleton earlier last ih =>
    rw [List.filter_append, List.foldl_append]
    by_cases hproject : last.1 = project
    · simpa [hproject] using ih.addNedFile last.2
    · simpa [hproject] using ih.addNedFile_of_ne hproject last.2

theorem anchored_addFiles (calls : List (String × Element)) : (addFiles calls).Anchored := by
  refine addFiles_induction (motive := fun _ index => index.Anchored) ?_ (fun project file ih => ?_) calls
  · constructor <;> simp [empty, Table.get?]
  · exact ih.addNedFile project file

theorem reached_addFiles (calls : List (String × Element)) : (addFiles calls).Reached :=
  List.foldlRecOn (motive := Reached) _ _ .empty fun _ ih call _ => .addFile call.1 call.2 ih

theorem contains_addFiles_iff {calls : List (String × Element)} {name : String} :
    (addFiles calls).contains project name = true ↔
      ∃ file, (project, file) ∈ additions calls ∧ ∃ entry ∈ file.fileDeclarations, entry.qualifiedName = name := by
  refine addFiles_induction (motive := fun row index => index.contains project name = true ↔
    ∃ file, (project, file) ∈ row ∧ ∃ entry ∈ file.fileDeclarations, entry.qualifiedName = name)
    ?_ (fun added file ih => ?_) calls
  · simp [empty, contains, Table.contains, Table.get?]
  · rw [contains_addNedFile, ih]
    simp only [List.mem_append, List.mem_singleton, Prod.mk.injEq, or_and_right, exists_or]
    rw [or_comm]
    refine or_congr_right ⟨?_, ?_⟩
    · rintro ⟨rfl, hdeclares⟩
      exact ⟨file, ⟨rfl, rfl⟩, hdeclares⟩
    · rintro ⟨_, ⟨rfl, rfl⟩, hdeclares⟩
      exact ⟨rfl, hdeclares⟩

theorem exists_of_files_addFiles {calls : List (String × Element)} {name : String} {entry : FileEntry}
    (h : (addFiles calls).files.get? name = some entry) :
    ∃ added ∈ additions calls, added.2.value "filename" = name ∧ added.1 = entry.project := by
  revert h
  refine addFiles_induction (motive := fun row index => index.files.get? name = some entry →
    ∃ added ∈ row, added.2.value "filename" = name ∧ added.1 = entry.project)
    ?_ (fun project file ih h => ?_) calls
  · simp [empty, Table.get?]
  · rw [files_addNedFile, Table.get?_insert] at h
    split_ifs at h with hname
    · obtain rfl := Option.some.inj h
      exact ⟨_, List.mem_append_right _ List.mem_cons_self, hname, rfl⟩
    · obtain ⟨found, hfound, hadded⟩ := ih h
      exact ⟨found, List.mem_append_left _ hfound, hadded⟩

theorem files_contains_addFiles {calls : List (String × Element)} {added : String × Element}
    (h : added ∈ additions calls) : (addFiles calls).files.contains (added.2.value "filename") = true := by
  revert h
  refine addFiles_induction (motive := fun row index => added ∈ row →
    index.files.contains (added.2.value "filename") = true) ?_ (fun project file ih h => ?_) calls
  · exact fun h => absurd h List.not_mem_nil
  · rw [files_addNedFile, Table.contains_insert]
    rcases List.mem_append.1 h with hearlier | hlast
    · exact .inr (ih hearlier)
    · obtain rfl := List.mem_singleton.1 hlast
      exact .inl rfl

theorem holds_of_mem_registrations {calls : List (String × Element)} {root : Element} (hcall : (project, root) ∈ calls)
    {entry : TypeEntry} (hentry : entry ∈ root.registrations) :
    (addFiles calls).Holds project entry.headerContext ∧
      (addFiles calls).Holds project (.type entry.qualifiedName) := by
  rw [Element.registrations_eq] at hentry
  obtain ⟨file, hfile, hentry⟩ := List.mem_flatMap.1 hentry
  have hadded : (project, file) ∈ additions calls := List.mem_flatMap.2 ⟨_, hcall, List.mem_map_of_mem hfile⟩
  have hdeclared : ∀ declared ∈ file.fileDeclarations, (addFiles calls).contains project declared.qualifiedName = true :=
    fun declared hmem => contains_addFiles_iff.2 ⟨file, hadded, declared, hmem, rfl⟩
  refine ⟨?_, hdeclared entry hentry⟩
  unfold TypeEntry.headerContext
  cases houter : entry.enclosing with
  | none =>
    have hknown := files_contains_addFiles hadded
    rwa [← (Element.named_of_mem_fileDeclarations hentry).1] at hknown
  | some outer =>
    rcases Element.enclosing_of_mem_fileDeclarations hentry with htop | ⟨around, haround, heq⟩
    · rw [htop] at houter
      cases houter
    · obtain rfl := Option.some.inj (heq.symm.trans houter)
      exact hdeclared around haround

theorem known_addFiles (calls : List (String × Element)) :
    (addFiles calls).known = ∅ ∧ (addFiles calls).expectedPackages = ∅ := by
  refine addFiles_induction (motive := fun _ index => index.known = ∅ ∧ index.expectedPackages = ∅)
    ⟨rfl, rfl⟩ (fun project file ih => ⟨rfl, ?_⟩) calls
  exact List.foldlRecOn (motive := fun index : TypeIndex => index.expectedPackages = ∅) _ _ ih.2 fun _ ih _ _ => ih

/-- No name of a type of the project was declared first by another project, and no file name of the project was given last to a file of another. -/
structure Undisputed (calls : List (String × Element)) (project : String) : Prop where
  types {qualifiedName : String} : (addFiles (callsFor project calls)).contains project qualifiedName = true →
    (addFiles calls).owners.get? qualifiedName = some project
  files {name : String} : (addFiles (callsFor project calls)).files.contains name = true →
    ((addFiles calls).files.get? name).map (·.project) = some project

/-- If its names are undisputed, the project is separated from the rest of the index. -/
theorem Undisputed.separated {calls : List (String × Element)} (h : Undisputed calls project) :
    Separated project (addFiles calls) (addFiles (callsFor project calls)) := by
  have hpart := part_addFiles project calls
  have hanchored := anchored_addFiles (callsFor project calls)
  have hreached := reached_addFiles (callsFor project calls)
  have hknown := (known_addFiles calls).1.trans (known_addFiles (callsFor project calls)).1.symm
  have hexpected := (known_addFiles calls).2.trans (known_addFiles (callsFor project calls)).2.symm
  refine ⟨hpart.types, fun hcontains => ⟨h.types hcontains, ?_⟩, fun {name file} hfile => ⟨?_, ?_⟩, ?_,
    hknown, hexpected, hreached⟩
  · obtain ⟨entry, hentry⟩ := Option.isSome_iff_exists.1 hcontains
    obtain ⟨owner, howner⟩ := Option.isSome_iff_exists.1 (hanchored.owned hentry)
    obtain ⟨declared, hdeclared⟩ := hreached.coherent.owned howner
    obtain rfl : owner = project := project_of_types_filter hpart.types hdeclared
    exact howner
  · obtain ⟨other, hother, hproject⟩ := Option.map_eq_some_iff.1 (h.files (Option.isSome_iff_exists.2 ⟨file, hfile⟩))
    have hsame := hpart.filed hother hproject
    rw [hother, ← hfile, hsame]
  · obtain ⟨added, hadded, -, hproject⟩ := exists_of_files_addFiles hfile
    exact hproject.symm.trans (mem_additions_callsFor.1 hadded).2
  · intro key entry hentry
    have hfile := hanchored.filed hentry
    refine ⟨hfile, ?_⟩
    unfold TypeEntry.headerContext
    cases houter : entry.enclosing with
    | none => exact hfile
    | some outer =>
      have hcontains := hanchored.enclosed hentry houter
      rwa [project_of_types_filter hpart.types hentry] at hcontains

end TypeIndex

end NedCheck
