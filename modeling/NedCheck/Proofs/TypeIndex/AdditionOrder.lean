import NedCheck.Proofs.TypeIndex.Resolution

/-!
# The order of additions

Two trees whose files have different names and declare no type of one qualified name can be added to a project in either order. The types come out the same, at other places, and places matter in one case only: of several types that match a wildcard import the earliest counts. Where no import has a choice, names stand for the same types, types are worked out alike, and what is remembered stays alike, so that a whole row of look-ups is answered alike.

A tree that is added again right away leaves the index as it was.
-/

namespace NedCheck

/-! ### Writing rows -/

namespace Table

variable {κ ν : Type} [DecidableEq κ] {left right table : Table κ ν} {entries : List (κ × ν)}

theorem perm_of_get?_eq (h : ∀ key, left.get? key = right.get? key) : left.entries.Perm right.entries := by
  refine (List.perm_ext_iff_of_nodup left.nodup.of_map right.nodup.of_map).2 ?_
  rintro ⟨key, value⟩
  rw [← get?_eq_some_iff, ← get?_eq_some_iff, h]

theorem eq_of_keys_of_get? (hkeys : left.keys = right.keys) (hget : ∀ key, left.get? key = right.get? key) :
    left = right := by
  -- a table is its keys with the answers to them
  have hentries (table : Table κ ν) :
      table.entries.map (fun entry => (entry.1, some entry.2)) = table.keys.map fun key => (key, table.get? key) := by
    rw [keys, List.map_map]
    exact List.map_congr_left fun entry hentry => by simp [get?_eq_some_iff.2 hentry]
  have hsame := hentries left
  rw [hkeys, funext hget, ← hentries right] at hsame
  refine Table.ext (List.map_injective_iff.2 ?_ hsame)
  rintro ⟨key, value⟩ ⟨other, found⟩ heq
  simpa using heq

theorem mem_keys_write {key : κ} :
    key ∈ (table.write entries).keys ↔ key ∈ table.keys ∨ key ∈ entries.map Prod.fst := by
  induction entries generalizing table with
  | nil => simp [write]
  | cons entry rest ih =>
    have hstep : table.write (entry :: rest) = (table.insert entry.1 entry.2).write rest := rfl
    rw [hstep, ih, ← contains_iff, contains_insert, contains_iff, List.map_cons, List.mem_cons, or_comm (a := entry.1 = key),
      or_assoc, eq_comm]

theorem keys_write_of_subset (h : entries.map Prod.fst ⊆ table.keys) : (table.write entries).keys = table.keys := by
  induction entries generalizing table with
  | nil => rfl
  | cons entry rest ih =>
    rw [List.map_cons, List.cons_subset] at h
    have hstep : table.write (entry :: rest) = (table.insert entry.1 entry.2).write rest := rfl
    have hkeys : (table.insert entry.1 entry.2).keys = table.keys := by rw [keys_insert, if_pos h.1]
    rw [hstep, ih (by rw [hkeys]; exact h.2), hkeys]

theorem write_write (table : Table κ ν) (entries : List (κ × ν)) :
    (table.write entries).write entries = table.write entries := by
  apply eq_of_keys_of_get?
  · exact keys_write_of_subset fun key hkey => mem_keys_write.2 (.inr hkey)
  · intro key
    rw [get?_write, get?_write]
    cases ((entries.filter fun entry => entry.1 = key).getLast?).map Prod.snd <;> rfl

/-- Rows without a common key may be written in either order. -/
theorem get?_write_comm (table : Table κ ν) {first second : List (κ × ν)}
    (h : ∀ entry ∈ first, ∀ other ∈ second, entry.1 ≠ other.1) (key : κ) :
    ((table.write first).write second).get? key = ((table.write second).write first).get? key := by
  simp only [get?_write]
  by_cases hfirst : ∃ entry ∈ first, entry.1 = key
  · obtain ⟨entry, hentry, rfl⟩ := hfirst
    have hsecond : (second.filter fun other => other.1 = entry.1) = [] :=
      List.filter_eq_nil_iff.2 fun other hother => by simpa using (h entry hentry other hother).symm
    simp [hsecond]
  · have hnone : (first.filter fun entry => entry.1 = key) = [] :=
      List.filter_eq_nil_iff.2 fun entry hentry => by simpa using fun heq => hfirst ⟨entry, hentry, heq⟩
    simp [hnone]

theorem insertAll_insertAll (table : Table κ ν) (entries : List (κ × ν)) :
    (table.insertAll entries).insertAll entries = table.insertAll entries := by
  apply Table.ext
  rw [entries_insertAll, List.filter_eq_nil_iff.2, List.append_nil]
  intro entry hentry
  have hkey : entry.1 ∈ (table.insertAll entries).keys := by
    rw [← contains_iff, contains, get?_insertAll]
    have hfound : (entries.find? fun other => other.1 = entry.1).isSome = true :=
      List.find?_isSome.2 ⟨entry, firsts_subset _ hentry, by simp⟩
    cases table.get? entry.1 <;> simp [hfound]
  simpa using hkey

end Table

theorem find?_eq_of_perm {α : Type} {passes : α → Bool} {xs ys : List α} (hperm : xs.Perm ys)
    (hone : ∀ x ∈ xs, ∀ y ∈ xs, passes x = true → passes y = true → x = y) : xs.find? passes = ys.find? passes := by
  cases hfind : xs.find? passes with
  | none =>
    symm
    rw [List.find?_eq_none] at hfind ⊢
    exact fun y hy => hfind y (hperm.mem_iff.2 hy)
  | some x =>
    have hx := List.mem_of_find?_eq_some hfind
    have hpasses := List.find?_some hfind
    cases hother : ys.find? passes with
    | none => exact absurd hpasses (List.find?_eq_none.1 hother x (hperm.mem_iff.1 hx))
    | some y =>
      have hy := hperm.mem_iff.2 (List.mem_of_find?_eq_some hother)
      rw [hone x hx y hy hpasses (List.find?_some hother)]

/-- The files of the trees have different names, and no type of the one has the qualified name of a type of the other. -/
structure Element.Apart (first second : Element) : Prop where
  files : ∀ file ∈ first.nedFiles, ∀ other ∈ second.nedFiles, file.value "filename" ≠ other.value "filename"
  types : ∀ entry ∈ first.registrations, ∀ other ∈ second.registrations, entry.qualifiedName ≠ other.qualifiedName

namespace TypeIndex

variable {index left right : TypeIndex} {project : String}

/-! ### What a tree adds -/

theorem types_addFile_eq (index : TypeIndex) (project : String) (root : Element) :
    (index.addFile project root).types =
      index.types.write (root.registrations.map fun entry => ((project, entry.qualifiedName), entry)) := by
  rw [types_addFile, Table.write, List.foldl_map]

theorem owners_addFile (index : TypeIndex) (project : String) (root : Element) :
    (index.addFile project root).owners =
      index.owners.insertAll (root.registrations.map fun entry => (entry.qualifiedName, project)) := by
  rw [addFile_eq, Element.registrations_eq]
  induction root.nedFiles generalizing index with
  | nil => rfl
  | cons file rest ih =>
    have hfile : (index.addNedFile project file).owners =
        index.owners.insertAll (file.fileDeclarations.map fun entry => (entry.qualifiedName, project)) :=
      owners_foldl_register_eq index project file.fileDeclarations
    rw [List.foldl_cons, ih, hfile, Table.insertAll_append, List.flatMap_cons, List.map_append]

/-- What an index keeps of a file besides its types. -/
def fileEntry (project : String) (file : Element) : String × FileEntry :=
  (file.value "filename", ⟨project, file.packageName, file.importSpecs⟩)

theorem files_addFile (index : TypeIndex) (project : String) (root : Element) :
    (index.addFile project root).files = index.files.write (root.nedFiles.map (fileEntry project)) := by
  rw [addFile_eq]
  induction root.nedFiles generalizing index with
  | nil => rfl
  | cons file rest ih =>
    rw [List.foldl_cons, ih, files_addNedFile]
    rfl

theorem known_addFile (index : TypeIndex) (project : String) (root : Element) :
    (index.addFile project root).known = if root.nedFiles = [] then index.known else ∅ := by
  rw [addFile_eq]
  cases root.nedFiles with
  | nil => rfl
  | cons file rest =>
    rw [List.foldl_cons, if_neg (List.cons_ne_nil file rest)]
    exact List.foldlRecOn (motive := fun index : TypeIndex => index.known = ∅) rest _ rfl fun _ _ _ _ => rfl

theorem expectedPackages_addFile (index : TypeIndex) (project : String) (root : Element) :
    (index.addFile project root).expectedPackages = index.expectedPackages := by
  rw [addFile_eq]
  refine List.foldlRecOn (motive := fun other : TypeIndex => other.expectedPackages = index.expectedPackages)
    _ _ rfl fun before ih file _ => ?_
  have hregistered : (file.fileDeclarations.foldl (fun index entry => index.register project entry)
      before).expectedPackages = before.expectedPackages :=
    List.foldlRecOn (motive := fun other : TypeIndex => other.expectedPackages = before.expectedPackages)
      _ _ rfl fun _ ih _ _ => ih
  rw [← ih, ← hregistered]
  rfl

theorem eq_of_tables (htypes : left.types = right.types) (howners : left.owners = right.owners)
    (hfiles : left.files = right.files) (hexpected : left.expectedPackages = right.expectedPackages)
    (hknown : left.known = right.known) : left = right := by
  cases left
  cases right
  simp_all

theorem addFile_addFile (index : TypeIndex) (project : String) (root : Element) :
    (index.addFile project root).addFile project root = index.addFile project root := by
  have htypes : ((index.addFile project root).addFile project root).types = (index.addFile project root).types := by
    rw [types_addFile_eq, types_addFile_eq, Table.write_write]
  have howners : ((index.addFile project root).addFile project root).owners = (index.addFile project root).owners := by
    rw [owners_addFile, owners_addFile, Table.insertAll_insertAll]
  have hfiles : ((index.addFile project root).addFile project root).files = (index.addFile project root).files := by
    rw [files_addFile, files_addFile, Table.write_write]
  have hexpected := expectedPackages_addFile (index.addFile project root) project root
  have hknown : ((index.addFile project root).addFile project root).known = (index.addFile project root).known := by
    rw [known_addFile, known_addFile]
    split_ifs <;> rfl
  exact eq_of_tables htypes howners hfiles hexpected hknown

/-! ### Indexes with the same contents -/

/-- Both indexes have the same types, owners and files and remember the same, in whatever order. -/
structure SameContents (left right : TypeIndex) : Prop where
  types (key : TypeKey) : left.types.get? key = right.types.get? key
  owners (name : String) : left.owners.get? name = right.owners.get? name
  files (name : String) : left.files.get? name = right.files.get? name
  known (key : TypeKey) : left.known.get? key = right.known.get? key

/-- No wildcard import of a file matches two types of one simple name at the top level of one project. -/
def UnambiguousImports (index : TypeIndex) : Prop :=
  ∀ file ∈ index.files.entries, ∀ spec ∈ file.2.imports, isWildcardImport spec = true →
    ∀ type ∈ index.types.entries, ∀ other ∈ index.types.entries, type.1.1 = other.1.1 →
      type.2.enclosing = none → other.2.enclosing = none → type.2.name = other.2.name →
      importMatches spec type.1.2 = true → importMatches spec other.1.2 = true → type.1 = other.1

theorem UnambiguousImports.congr (h : left.UnambiguousImports) (hsame : SameRegistrations right left) :
    right.UnambiguousImports := by
  unfold UnambiguousImports
  rw [hsame.types, hsame.files]
  exact h

namespace SameContents

variable (h : SameContents left right)

include h

theorem size_eq : left.size = right.size := (Table.perm_of_get?_eq h.types).length_eq

theorem origin?_eq (context : LookupContext) : left.origin? context = right.origin? context := by
  cases context with
  | file name => rw [origin?, origin?, h.files]
  | type qualifiedName => simp only [origin?, h.owners, h.types, h.files]

/-- An import that has no choice stands for the same type in both. -/
theorem importedBy?_eq (himports : left.UnambiguousImports) {name : String} {file : FileEntry}
    (hfile : left.files.get? name = some file) {spec : String} (hspec : spec ∈ file.imports)
    (hwildcard : isWildcardImport spec = true) (project wanted : String) :
    left.importedBy? project wanted spec = right.importedBy? project wanted spec := by
  rw [importedBy?, importedBy?, find?_eq_of_perm (Table.perm_of_get?_eq h.types)]
  intro type htype other hother hpasses hpassesOther
  simp only [Bool.and_eq_true, decide_eq_true_eq, Option.isNone_iff_eq_none] at hpasses hpassesOther
  obtain ⟨⟨⟨hproject, htop⟩, hname⟩, hmatches⟩ := hpasses
  obtain ⟨⟨⟨hprojectOther, htopOther⟩, hnameOther⟩, hmatchesOther⟩ := hpassesOther
  have hkey : type.1 = other.1 :=
    himports _ (Table.get?_eq_some_iff.1 hfile) spec hspec hwildcard type htype other hother
      (hproject.trans hprojectOther.symm) htop htopOther (hname.trans hnameOther.symm) hmatches hmatchesOther
  have hget := Table.get?_eq_some_iff.2 hother
  rw [← hkey, Table.get?_eq_some_iff.2 htype] at hget
  exact Prod.ext hkey (Option.some.inj hget)

theorem candidates_eq (himports : left.UnambiguousImports) {context : LookupContext} {origin : Origin}
    (horigin : left.origin? context = some origin) (name : String) :
    left.candidates origin name = right.candidates origin name := by
  obtain ⟨project, file, enclosing⟩ := origin
  have henclosed : left.enclosedCandidates project name enclosing = right.enclosedCandidates project name enclosing := by
    cases enclosing with
    | none => rfl
    | some type => rw [enclosedCandidates, enclosedCandidates, outward_congr fun name => h.types (project, name)]
  have hfile : left.fileCandidates project name file = right.fileCandidates project name file := by
    cases file with
    | none => rfl
    | some file =>
      obtain ⟨fileName, hfile⟩ : ∃ fileName, left.files.get? fileName = some file := by
        cases context with
        | file fileName =>
          obtain ⟨found, hfound, heq⟩ := Option.map_eq_some_iff.1 horigin
          cases heq
          exact ⟨fileName, hfound⟩
        | type type =>
          obtain ⟨owner, -, hentry⟩ := Option.bind_eq_some_iff.1 horigin
          obtain ⟨entry, -, heq⟩ := Option.bind_eq_some_iff.1 hentry
          exact ⟨entry.file, congrArg Origin.file (Option.some.inj heq)⟩
      have hpicked : (file.imports.filter isWildcardImport).filterMap (left.importedBy? project name) =
          (file.imports.filter isWildcardImport).filterMap (right.importedBy? project name) := by
        apply List.filterMap_congr
        intro spec hspec
        obtain ⟨hmem, hwildcard⟩ := List.mem_filter.1 hspec
        exact h.importedBy?_eq himports hfile hmem hwildcard project name
      rw [fileCandidates, fileCandidates, hpicked]
  rw [candidates, candidates, henclosed, hfile]

theorem resolve?_eq (himports : left.UnambiguousImports) (name : String) (context : LookupContext) :
    left.resolve? name context = right.resolve? name context := by
  rw [resolve?, resolve?, ← h.origin?_eq, h.owners]
  cases horigin : left.origin? context with
  | none => rfl
  | some origin =>
    dsimp only
    simp only [h.candidates_eq himports horigin, Table.contains, h.types]

theorem build_eq (himports : left.UnambiguousImports) (depth : Nat) (path : List TypeKey) (key : TypeKey) :
    left.build depth path key = right.build depth path key := by
  induction depth generalizing path key with
  | zero => rfl
  | succ depth ih =>
    have hbelow : left.build depth = right.build depth := funext fun path => funext (ih path)
    rw [build, build, h.known, h.types, hbelow]
    simp only [h.resolve?_eq himports]

theorem typeInfo_eq (himports : left.UnambiguousImports) (key : TypeKey) :
    (left.typeInfo key).1 = (right.typeInfo key).1 ∧ SameContents (left.typeInfo key).2 (right.typeInfo key).2 := by
  have hsize : left.types.size = right.types.size := h.size_eq
  unfold typeInfo
  rw [h.build_eq himports, hsize, Table.contains, Table.contains, h.known]
  cases right.build (right.types.size + 1) [] key with
  | none => exact ⟨rfl, h⟩
  | some info =>
    dsimp only
    split_ifs
    · exact ⟨rfl, h⟩
    · refine ⟨rfl, h.types, h.owners, h.files, fun other => ?_⟩
      rw [Table.get?_insert, Table.get?_insert, h.known]

theorem lookupType_eq (himports : left.UnambiguousImports) (name : String) (context : LookupContext) :
    (left.lookupType name context).1 = (right.lookupType name context).1 ∧
      SameContents (left.lookupType name context).2 (right.lookupType name context).2 := by
  unfold lookupType
  rw [h.resolve?_eq himports]
  cases right.resolve? name context with
  | none => exact ⟨rfl, h⟩
  | some key => exact h.typeInfo_eq himports key

end SameContents

/-- The index after a row of look-ups. -/
def lookUpAll (index : TypeIndex) (asked : List (String × LookupContext)) : TypeIndex :=
  asked.foldl (fun index ask => (index.lookupType ask.1 ask.2).2) index

theorem SameContents.lookUpAll (h : SameContents left right) (himports : left.UnambiguousImports)
    (asked : List (String × LookupContext)) :
    SameContents (left.lookUpAll asked) (right.lookUpAll asked) ∧ (left.lookUpAll asked).UnambiguousImports := by
  induction asked generalizing left right with
  | nil => exact ⟨h, himports⟩
  | cons ask rest ih =>
    exact ih (h.lookupType_eq himports ask.1 ask.2).2
      (himports.congr (left.sameRegistrations_lookupType ask.1 ask.2))

/-! ### Two trees -/

/-- Trees that are apart leave the same contents in either order. -/
theorem sameContents_addFile_comm (index : TypeIndex) (project : String) {first second : Element}
    (h : first.Apart second) : SameContents ((index.addFile project first).addFile project second)
      ((index.addFile project second).addFile project first) where
  types key := by
    simp only [types_addFile_eq]
    refine Table.get?_write_comm _ ?_ key
    simp only [List.forall_mem_map, ne_eq, Prod.mk.injEq, true_and]
    exact h.types
  owners name := by
    simp only [owners_addFile, Table.get?_insertAll, List.find?_map, Function.comp_def, Option.map_map, Option.or_assoc]
    -- whichever tree comes first, the name goes to the project
    congr 1
    cases first.registrations.find? fun entry => entry.qualifiedName = name <;>
      cases second.registrations.find? fun entry => entry.qualifiedName = name <;> rfl
  files name := by
    simp only [files_addFile]
    refine Table.get?_write_comm _ ?_ name
    simp only [List.forall_mem_map]
    exact h.files
  known key := by
    simp only [known_addFile]
    split_ifs <;> rfl

/-- Trees with files of different names that have no qualified name of a type in common can be added to a project in either order, whatever the index holds: if no wildcard import of a file then has a choice between two types, every look-up has the same answer, right after the additions and after any look-ups made since. A tree that is added twice in a row leaves the index that it leaves when it is added once, with all its answers and listings. -/
theorem lookups_addFile_comm (index : TypeIndex) (project : String) :
    (∀ first second : Element, first.Apart second →
      ((index.addFile project first).addFile project second).UnambiguousImports →
      ∀ (asked : List (String × LookupContext)) (name : String) (context : LookupContext),
        ((((index.addFile project first).addFile project second).lookUpAll asked).lookupType name context).1 =
          ((((index.addFile project second).addFile project first).lookUpAll asked).lookupType name context).1) ∧
    ∀ root : Element, (index.addFile project root).addFile project root = index.addFile project root := by
  refine ⟨fun first second hapart himports asked name context => ?_, addFile_addFile index project⟩
  obtain ⟨hsame, hunambiguous⟩ := (sameContents_addFile_comm index project hapart).lookUpAll himports asked
  exact (hsame.lookupType_eq hunambiguous name context).1

/-- A file with a module `Nic`. -/
def nicFile : Element :=
  let speed : Element := ⟨0, .param, .fill _ ["int", "false", "speed"], [], none, {}⟩
  let nic : Element := ⟨0, .simpleModule, .fill _ ["Nic"], [{ Element.new .parameters with children := [speed] }], none, {}⟩
  ⟨0, .nedFile, .fill _ ["nic.ned"], [⟨0, .package, .fill _ ["lib.link"], [], none, {}⟩, nic], none, {}⟩

/-- A file of another package with a module that extends `Nic` by way of a wildcard import. -/
def cardFile : Element :=
  let slots : Element := ⟨0, .param, .fill _ ["int", "false", "slots"], [], none, {}⟩
  let card : Element := ⟨0, .simpleModule, .fill _ ["Card"], [⟨0, .extendsName, .fill _ ["Nic"], [], none, {}⟩,
    { Element.new .parameters with children := [slots] }], none, {}⟩
  ⟨0, .nedFile, .fill _ ["card.ned"], [⟨0, .package, .fill _ ["net"], [], none, {}⟩,
    ⟨0, .importDecl, .fill _ ["**.link.*"], [], none, {}⟩, card], none, {}⟩

/-- The module has the members of its base also if the file of the base comes in last, in an index that has types of another project. -/
theorem lookups_addFile_comm_card :
    let index := TypeIndex.empty.addFile "q" nicNetFile
    nicFile.Apart cardFile ∧ ((index.addFile "p" nicFile).addFile "p" cardFile).UnambiguousImports ∧
      (((((index.addFile "p" cardFile).addFile "p" nicFile).lookUpAll [("Nic", .type "net.Card")]).lookupType "Card"
        (.file "card.ned")).1.map fun info => info.members.keys) = some ["speed", "slots"] := by
  intro index
  have hapart : nicFile.Apart cardFile := ⟨by decide +kernel, by decide +kernel⟩
  have himports : ((index.addFile "p" nicFile).addFile "p" cardFile).UnambiguousImports := by
    unfold UnambiguousImports
    decide +kernel
  refine ⟨hapart, himports, ?_⟩
  rw [← (lookups_addFile_comm index "p").1 nicFile cardFile hapart himports]
  decide +kernel

end TypeIndex

end NedCheck
