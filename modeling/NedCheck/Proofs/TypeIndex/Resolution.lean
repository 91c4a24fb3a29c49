import NedCheck.Proofs.ImportSpec
import NedCheck.Proofs.TypeIndex.Inheritance
import NedCheck.Proofs.TypeIndex.Listing

/-!
# What names stand for

Where a name is sought is a matter of what has been added: the project that declared a type first, the file that was added last under a name, the types around a type as they were declared last. `Candidates` lists the qualified names that a name may stand for, in the order of the scopes, and `StandsFor` picks the first one that is declared. The index comes to the same result from its tables. Its walk outwards has a bound that cuts nothing off, since the name of a type is longer than that of the type around it.
-/

namespace NedCheck

namespace TypeIndex

variable {calls : List (String × Element)} {project name : String}

/-! ### What was added -/

/-- The file that was added last under the file name, and the project it was added to. -/
def lastAdded? (calls : List (String × Element)) (name : String) : Option (String × Element) :=
  ((additions calls).filter fun added => added.2.value "filename" = name).getLast?

/-- The project that declared a type of the qualified name first. -/
def firstOwner? (calls : List (String × Element)) (name : String) : Option String :=
  ((registered calls).find? fun entry => entry.1.2 = name).map (·.1.1)

theorem files_addFiles_get? (calls : List (String × Element)) (name : String) :
    (addFiles calls).files.get? name =
      (lastAdded? calls name).map fun added => ⟨added.1, added.2.packageName, added.2.importSpecs⟩ := by
  have hfiles : (addFiles calls).files = Table.write ∅ ((additions calls).map fun added =>
      (added.2.value "filename", (⟨added.1, added.2.packageName, added.2.importSpecs⟩ : FileEntry))) := by
    refine addFiles_induction (motive := fun row index => index.files = Table.write ∅ (row.map fun added =>
      (added.2.value "filename", ⟨added.1, added.2.packageName, added.2.importSpecs⟩)))
      rfl (fun project file ih => ?_) calls
    rw [files_addNedFile, ih, List.map_append, Table.write, Table.write, List.foldl_append]
    rfl
  rw [hfiles, Table.get?_write, List.filter_map, List.getLast?_map, Option.map_map]
  exact Option.or_none

theorem owners_foldl_register_eq (index : TypeIndex) (project : String) (entries : List TypeEntry) :
    (entries.foldl (fun index entry => index.register project entry) index).owners =
      index.owners.insertAll (entries.map fun entry => (entry.qualifiedName, project)) := by
  induction entries generalizing index with
  | nil => rfl
  | cons entry rest ih => exact ih (index.register project entry)

theorem SameRegistrations.addNedFile {left right : TypeIndex} (h : SameRegistrations left right) (project : String)
    (file : Element) : SameRegistrations (left.addNedFile project file) (right.addNedFile project file) where
  types := by rw [types_addNedFile, types_addNedFile, h.types]
  owners := by
    rw [TypeIndex.addNedFile, TypeIndex.addNedFile]
    dsimp only
    rw [owners_foldl_register_eq, owners_foldl_register_eq, h.owners]
  files := by rw [files_addNedFile, files_addNedFile, h.files]

/-- Whatever else has been done to an index, its registrations are those of the trees that have been added. -/
theorem Reached.exists_calls {index : TypeIndex} (h : index.Reached) :
    ∃ calls, SameRegistrations index (addFiles calls) := by
  induction h with
  | empty => exact ⟨[], .refl _⟩
  | @addFile index project root _ ih =>
    obtain ⟨calls, hsame⟩ := ih
    refine ⟨calls ++ [(project, root)], ?_⟩
    have hlast : addFiles (calls ++ [(project, root)]) = (addFiles calls).addFile project root := List.foldl_append
    rw [hlast, addFile_eq, addFile_eq]
    induction root.nedFiles using List.reverseRecOn with
    | nil => exact hsame
    | append_singleton earlier file ih =>
      rw [List.foldl_append, List.foldl_append]
      exact ih.addNedFile project file
  | @setExpectedPackage index file package _ ih =>
    exact ih.imp fun _ hsame => (index.sameRegistrations_setExpectedPackage file package).trans hsame
  | @lookupType index name context _ ih =>
    exact ih.imp fun _ hsame => (index.sameRegistrations_lookupType name context).trans hsame
  | @lookupTopLevel index qualifiedName project _ ih =>
    exact ih.imp fun _ hsame => (index.sameRegistrations_lookupTopLevel qualifiedName project).trans hsame

theorem registered_eq (calls : List (String × Element)) : registered calls =
    (additions calls).flatMap fun added =>
      added.2.fileDeclarations.map fun entry => ((added.1, entry.qualifiedName), entry) := by
  unfold registered additions
  induction calls with
  | nil => rfl
  | cons call rest ih =>
    rw [List.flatMap_cons, List.flatMap_cons, List.flatMap_append, ih, Element.registrations_eq, List.map_flatMap,
      List.flatMap_map]

theorem owners_addFiles (calls : List (String × Element)) : (addFiles calls).owners =
    Table.insertAll ∅ ((registered calls).map fun entry => (entry.1.2, entry.1.1)) := by
  rw [registered_eq]
  refine addFiles_induction (motive := fun row index => index.owners = Table.insertAll ∅ ((row.flatMap fun added =>
    added.2.fileDeclarations.map fun entry => ((added.1, entry.qualifiedName), entry)).map
      fun entry => (entry.1.2, entry.1.1))) rfl (fun project file ih => ?_) calls
  rw [addNedFile, owners_foldl_register_eq, ih, Table.insertAll_append, List.flatMap_append, List.map_append,
    List.flatMap_singleton, List.map_map]
  rfl

theorem owners_addFiles_get? (calls : List (String × Element)) (name : String) :
    (addFiles calls).owners.get? name = firstOwner? calls name := by
  rw [owners_addFiles, Table.get?_insertAll, List.find?_map, Option.map_map]
  exact Option.none_or

/-! ### Contexts -/

/-- The context lies in the project and in the file, and in the body of the type unless it is the top level of the file. -/
inductive Lies (calls : List (String × Element)) :
    LookupContext → (project : String) → (file : Element) → (type : Option String) → Prop where
  | file {name project : String} {file : Element} : lastAdded? calls name = some (project, file) →
    Lies calls (.file name) project file none
  | type {name project other : String} {entry : TypeEntry} {file : Element} : firstOwner? calls name = some project →
    lastRegistered? calls project name = some entry → lastAdded? calls entry.file = some (other, file) →
    Lies calls (.type name) project file (some name)

theorem Lies.origin?_eq {context : LookupContext} {file : Element} {type : Option String}
    (h : Lies calls context project file type) : ∃ entry, (addFiles calls).origin? context = some ⟨project, some entry, type⟩ ∧
      entry.package = file.packageName ∧ entry.imports = file.importSpecs := by
  cases h with
  | file hadded => exact ⟨_, by rw [origin?, files_addFiles_get?, hadded]; rfl, rfl, rfl⟩
  | @type name _ other entry _ howner hentry hadded =>
    refine ⟨⟨other, file.packageName, file.importSpecs⟩, ?_, rfl, rfl⟩
    rw [origin?, owners_addFiles_get?, howner, Option.bind_eq_bind, Option.bind_some, types_addFiles_get?, hentry,
      Option.bind_eq_bind, Option.bind_some, files_addFiles_get?, hadded]
    rfl

theorem exists_lies {context : LookupContext} {origin : Origin} (h : (addFiles calls).origin? context = some origin) :
    ∃ file, Lies calls context origin.project file origin.enclosing := by
  cases context with
  | file name =>
    rw [origin?, files_addFiles_get?, Option.map_map] at h
    obtain ⟨⟨project, file⟩, hadded, rfl⟩ := Option.map_eq_some_iff.1 h
    exact ⟨file, .file hadded⟩
  | type name =>
    obtain ⟨project, howner, h⟩ := Option.bind_eq_some_iff.1 h
    obtain ⟨entry, hentry, h⟩ := Option.bind_eq_some_iff.1 h
    obtain rfl := Option.some.inj h
    obtain ⟨found, hfound⟩ := Option.isSome_iff_exists.1 ((anchored_addFiles calls).filed hentry)
    rw [files_addFiles_get?] at hfound
    obtain ⟨⟨other, file⟩, hadded, -⟩ := Option.map_eq_some_iff.1 hfound
    rw [owners_addFiles_get?] at howner
    rw [types_addFiles_get?] at hentry
    exact ⟨file, .type howner hentry hadded⟩

/-! ### The types around a type -/

/-- The type and the types around it, as they were declared last, from the inside outwards. -/
inductive Outward (calls : List (String × Element)) (project : String) : String → List String → Prop where
  | top {type : String} : (∀ entry, lastRegistered? calls project type = some entry → entry.enclosing = none) →
    Outward calls project type [type]
  | inner {type outer : String} {entry : TypeEntry} {around : List String} :
    lastRegistered? calls project type = some entry → entry.enclosing = some outer →
    Outward calls project outer around → Outward calls project type (type :: around)

theorem eq_of_enclosing {type outer : String} {entry : TypeEntry}
    (hentry : lastRegistered? calls project type = some entry) (houter : entry.enclosing = some outer) :
    type = outer ++ "." ++ entry.name := by
  obtain ⟨⟨key, _⟩, hlast, rfl⟩ := Option.map_eq_some_iff.1 hentry
  obtain ⟨hmem, hkey⟩ := List.mem_filter.1 (List.mem_of_getLast? hlast)
  obtain ⟨hname, -, -, -, file, -, hdeclares⟩ := mem_registered_iff.1 hmem
  obtain rfl : key = (project, type) := of_decide_eq_true hkey
  cases hdeclares with
  | top => cases houter
  | inner =>
    obtain rfl := Option.some.inj houter
    exact hname

/-- The bound of the walk outwards cuts nothing off. -/
theorem outward_iff {bound : Nat} {type : String} {around : List String} (hbound : type.length < bound) :
    Outward calls project type around ↔ around = (addFiles calls).outward project bound type := by
  induction bound generalizing type around with
  | zero => omega
  | succ bound ih =>
    rw [outward, types_addFiles_get?]
    cases hentry : lastRegistered? calls project type with
    | none =>
      constructor
      · rintro (_ | ⟨hinner, -, -⟩)
        · rfl
        · rw [hentry] at hinner
          cases hinner
      · rintro rfl
        exact .top fun entry h => by rw [hentry] at h; cases h
    | some entry =>
      rw [Option.bind_some]
      cases houter : entry.enclosing with
      | none =>
        constructor
        · rintro (_ | ⟨hinner, hinnerOuter, -⟩)
          · rfl
          · obtain rfl := Option.some.inj (hentry.symm.trans hinner)
            rw [houter] at hinnerOuter
            cases hinnerOuter
        · rintro rfl
          exact .top fun other h => Option.some.inj (hentry.symm.trans h) ▸ houter
      | some outer =>
        have hlength : outer.length < bound := by
          have hname := congrArg String.length (eq_of_enclosing hentry houter)
          rw [String.length_append, String.length_append] at hname
          have hdot : ".".length = 1 := rfl
          omega
        constructor
        · rintro (htop | ⟨hinner, hinnerOuter, hrest⟩)
          · rw [htop entry hentry] at houter
            cases houter
          · obtain rfl := Option.some.inj (hentry.symm.trans hinner)
            obtain rfl := Option.some.inj (houter.symm.trans hinnerOuter)
            rw [(ih hlength).1 hrest]
        · rintro rfl
          exact .inner hentry houter ((ih hlength).2 rfl)

/-- The types around a place in a file, from the inside outwards: none outside of all types. -/
inductive Around (calls : List (String × Element)) (project : String) : Option String → List String → Prop where
  | outside : Around calls project none []
  | inside {type : String} {around : List String} : Outward calls project type around →
    Around calls project (some type) around

theorem Around.enclosedCandidates_eq {type : Option String} {around : List String}
    (h : Around calls project type around) (name : String) :
    (addFiles calls).enclosedCandidates project name type = around.map fun outer => outer ++ "." ++ name := by
  cases h with
  | outside => rfl
  | inside hout =>
    rw [(outward_iff (Nat.lt_succ_self _)).1 hout]
    rfl

theorem exists_around (calls : List (String × Element)) (project : String) (type : Option String) :
    ∃ around, Around calls project type around := by
  cases type with
  | none => exact ⟨[], .outside⟩
  | some type => exact ⟨_, .inside ((outward_iff (Nat.lt_succ_self _)).2 rfl)⟩

/-! ### Imports -/

/-- The qualified name is that of a type at the top level of the project which has the name, and it splits into pieces for the tokens of the import. -/
def Imports (calls : List (String × Element)) (project spec name qualifiedName : String) : Prop :=
  ∃ entry, lastRegistered? calls project qualifiedName = some entry ∧ entry.enclosing = none ∧ entry.name = name ∧
    ImportSpec.Splits (ImportSpec.tokens spec.toList) qualifiedName.toList

/-- For each of the wildcard imports in turn, the earliest registered one of the types that it imports under the name. -/
inductive Picks (calls : List (String × Element)) (project name : String) : List String → List String → Prop where
  | nil : Picks calls project name [] []
  | skip {spec : String} {specs picked : List String} : (∀ other, ¬Imports calls project spec name other) →
    Picks calls project name specs picked → Picks calls project name (spec :: specs) picked
  | pick {spec earliest : String} {specs picked : List String} : Imports calls project spec name earliest →
    (∀ other, Imports calls project spec name other → ((registered calls).map Prod.fst).idxOf (project, earliest) ≤
      ((registered calls).map Prod.fst).idxOf (project, other)) →
    Picks calls project name specs picked → Picks calls project name (spec :: specs) (earliest :: picked)

theorem imports_iff {spec qualifiedName : String} : Imports calls project spec name qualifiedName ↔
    ∃ entry, ((project, qualifiedName), entry) ∈ (addFiles calls).types.entries ∧ entry.enclosing = none ∧
      entry.name = name ∧ importMatches spec qualifiedName = true := by
  refine exists_congr fun entry => ?_
  rw [← types_addFiles_get?, Table.get?_eq_some_iff, importMatches_iff]

theorem importedBy?_eq_none_iff {spec : String} :
    (addFiles calls).importedBy? project name spec = none ↔ ∀ other, ¬Imports calls project spec name other := by
  simp only [importedBy?, Option.map_eq_none_iff, List.find?_eq_none, imports_iff, Prod.forall, Bool.and_eq_true,
    decide_eq_true_eq, Option.isNone_iff_eq_none]
  constructor
  · rintro hnone other ⟨entry, hmem, htop, hname, hmatches⟩
    exact hnone _ _ _ hmem ⟨⟨⟨rfl, htop⟩, hname⟩, hmatches⟩
  · rintro hnone _ other entry hmem ⟨⟨⟨rfl, htop⟩, hname⟩, hmatches⟩
    exact hnone other ⟨entry, hmem, htop, hname, hmatches⟩

theorem importedBy?_eq_some {spec earliest : String}
    (h : (addFiles calls).importedBy? project name spec = some earliest) :
    Imports calls project spec name earliest ∧ ∀ other, Imports calls project spec name other →
      ((registered calls).map Prod.fst).idxOf (project, earliest) ≤
        ((registered calls).map Prod.fst).idxOf (project, other) := by
  obtain ⟨⟨⟨_, _⟩, entry⟩, hfound, rfl⟩ := Option.map_eq_some_iff.1 h
  obtain ⟨hmatch, before, after, hentries, hbefore⟩ := List.find?_eq_some_iff_append.1 hfound
  simp only [Bool.and_eq_true, decide_eq_true_eq, Option.isNone_iff_eq_none] at hmatch
  obtain ⟨⟨⟨rfl, htop⟩, hname⟩, hmatches⟩ := hmatch
  refine ⟨imports_iff.2 ⟨entry, List.mem_of_find?_eq_some hfound, htop, hname, hmatches⟩, fun other hother => ?_⟩
  obtain ⟨found, hmem, hotherTop, hotherName, hotherMatches⟩ := imports_iff.1 hother
  rw [hentries] at hmem
  rcases List.mem_append.1 hmem with hearlier | hlater
  · have hnot := hbefore _ hearlier
    simp [hotherTop, hotherName, hotherMatches] at hnot
  · rcases List.mem_cons.1 hlater with heq | hlater
    · cases heq
      exact le_rfl
    · have hordered := pairwise_idxOf_firsts (registered calls)
      rw [← keys_addFiles, Table.keys, hentries, List.map_append, List.map_cons] at hordered
      have hafter := (List.pairwise_cons.1 (List.pairwise_append.1 hordered).2.1).1
      exact (hafter _ (List.mem_map_of_mem hlater)).le

theorem picks_filterMap (calls : List (String × Element)) (project name : String) (specs : List String) :
    Picks calls project name specs (specs.filterMap ((addFiles calls).importedBy? project name)) := by
  induction specs with
  | nil => exact .nil
  | cons spec specs ih =>
    cases hpicked : (addFiles calls).importedBy? project name spec with
    | none =>
      rw [List.filterMap_cons_none hpicked]
      exact .skip (importedBy?_eq_none_iff.1 hpicked) ih
    | some earliest =>
      rw [List.filterMap_cons_some hpicked]
      obtain ⟨himports, hearliest⟩ := importedBy?_eq_some hpicked
      exact .pick himports hearliest ih

/-- Two types have not been registered at one place, so there is one way to pick. -/
theorem Picks.unique {specs picked others : List String} (h : Picks calls project name specs picked)
    (hothers : Picks calls project name specs others) : picked = others := by
  induction h generalizing others with
  | nil =>
    cases hothers
    rfl
  | skip hnone _ ih =>
    cases hothers with
    | skip _ hrest => exact ih hrest
    | pick himports => exact absurd himports (hnone _)
  | @pick spec earliest _ _ himports hearliest _ ih =>
    cases hothers with
    | skip hnone => exact absurd himports (hnone _)
    | @pick _ other _ _ hotherImports hotherEarliest hrest =>
      have hregistered : (project, earliest) ∈ (registered calls).map Prod.fst := by
        obtain ⟨entry, hmem, -⟩ := imports_iff.1 himports
        rw [← mem_keys_firsts, ← keys_addFiles]
        exact List.mem_map_of_mem hmem
      have hplace := le_antisymm (hearliest _ hotherImports) (hotherEarliest _ himports)
      obtain rfl : earliest = other := congrArg Prod.snd ((List.idxOf_inj hregistered).1 hplace)
      rw [ih hrest]

/-! ### Names -/

/-- The qualified names that a name may stand for in the file, in the body of the type if there is one, in the order in which they are tried. A name with a dot stands for itself. -/
inductive Candidates (calls : List (String × Element)) (project : String) (file : Element) (type : Option String)
    (name : String) : List String → Prop where
  | dotted : '.' ∈ name.toList → Candidates calls project file type name [name]
  | simple {around picked : List String} : '.' ∉ name.toList → Around calls project type around →
    Picks calls project name (file.importSpecs.filter isWildcardImport) picked →
    Candidates calls project file type name ((around.map fun outer => outer ++ "." ++ name) ++
      qualify file.packageName name ::
        ((file.importSpecs.filter fun spec => !isWildcardImport spec && lastSegment spec = name) ++ picked))

theorem candidates_iff {file : Element} {type : Option String} {entry : FileEntry} {candidates : List String}
    (hpackage : entry.package = file.packageName) (himports : entry.imports = file.importSpecs) :
    Candidates calls project file type name candidates ↔
      (addFiles calls).candidates ⟨project, some entry, type⟩ name = candidates := by
  unfold TypeIndex.candidates
  by_cases hdot : '.' ∈ name.toList
  · rw [if_pos (List.contains_iff_mem.2 hdot)]
    constructor
    · rintro (_ | ⟨hsimple, -, -⟩)
      · rfl
      · exact absurd hdot hsimple
    · rintro rfl
      exact .dotted hdot
  · have hexplicit : ((file.importSpecs.filter fun spec => !isWildcardImport spec).filter (importsName · name)) =
        file.importSpecs.filter fun spec => !isWildcardImport spec && lastSegment spec = name := by
      rw [List.filter_filter]
      refine List.filter_congr fun spec _ => ?_
      rw [Bool.eq_iff_iff, Bool.and_eq_true, Bool.and_eq_true, importsName_iff hdot, decide_eq_true_iff, and_comm]
    have hpicked := picks_filterMap calls project name (file.importSpecs.filter isWildcardImport)
    rw [if_neg fun hcontains => hdot (List.contains_iff_mem.1 hcontains), fileCandidates, hpackage, himports, hexplicit]
    constructor
    · rintro (hdotted | ⟨-, haround, hpicks⟩)
      · exact absurd hdotted hdot
      · rw [haround.enclosedCandidates_eq, hpicks.unique hpicked]
        rfl
    · rintro rfl
      obtain ⟨around, haround⟩ := exists_around calls project type
      rw [haround.enclosedCandidates_eq]
      exact .simple hdot haround hpicked

/-- What the name stands for in the context: in a known one, for the first of the candidates that is registered, if there is one, and in an unknown one for the qualified name that it spells, in the project that registered it first. -/
inductive StandsFor (calls : List (String × Element)) (name : String) (context : LookupContext) :
    Option TypeKey → Prop where
  | first {project : String} {file : Element} {type : Option String} {before after : List String} {found : String} :
    Lies calls context project file type → Candidates calls project file type name (before ++ found :: after) →
    (project, found) ∈ (registered calls).map Prod.fst →
    (∀ other ∈ before, (project, other) ∉ (registered calls).map Prod.fst) →
    StandsFor calls name context (some (project, found))
  | nothing {project : String} {file : Element} {type : Option String} {candidates : List String} :
    Lies calls context project file type → Candidates calls project file type name candidates →
    (∀ other ∈ candidates, (project, other) ∉ (registered calls).map Prod.fst) →
    StandsFor calls name context none
  | unknown : (∀ project file type, ¬Lies calls context project file type) →
    StandsFor calls name context ((firstOwner? calls name).map (·, name))

theorem contains_addFiles (calls : List (String × Element)) (key : TypeKey) :
    (addFiles calls).types.contains key = true ↔ key ∈ (registered calls).map Prod.fst := by
  rw [Table.contains_iff, keys_addFiles, mem_keys_firsts]

theorem Lies.resolve?_eq {context : LookupContext} {file : Element} {type : Option String} {candidates : List String}
    (h : Lies calls context project file type) (hcandidates : Candidates calls project file type name candidates) :
    (addFiles calls).resolve? name context =
      (candidates.find? fun candidate => (addFiles calls).types.contains (project, candidate)).map (project, ·) := by
  obtain ⟨entry, horigin, hpackage, himports⟩ := h.origin?_eq
  rw [resolve?, horigin]
  dsimp only
  rw [(candidates_iff hpackage himports).1 hcandidates]

theorem StandsFor.resolve?_eq {context : LookupContext} {found : Option TypeKey}
    (h : StandsFor calls name context found) : (addFiles calls).resolve? name context = found := by
  cases h with
  | first hlies hcandidates hregistered hbefore =>
    rw [hlies.resolve?_eq hcandidates, Option.map_eq_some_iff]
    refine ⟨_, List.find?_eq_some_iff_append.2 ⟨(contains_addFiles _ _).2 hregistered, _, _, rfl, ?_⟩, rfl⟩
    intro other hother
    rw [Bool.not_eq_true', ← Bool.not_eq_true, contains_addFiles]
    exact hbefore other hother
  | nothing hlies hcandidates hnone =>
    rw [hlies.resolve?_eq hcandidates, Option.map_eq_none_iff, List.find?_eq_none]
    intro other hother
    rw [contains_addFiles]
    exact hnone other hother
  | unknown hunknown =>
    have horigin : (addFiles calls).origin? context = none := by
      rw [Option.eq_none_iff_forall_not_mem]
      intro origin horigin
      obtain ⟨file, hlies⟩ := exists_lies horigin
      exact hunknown _ _ _ hlies
    rw [resolve?, horigin]
    dsimp only
    rw [owners_addFiles_get?]

theorem exists_standsFor (calls : List (String × Element)) (name : String) (context : LookupContext) :
    ∃ found, StandsFor calls name context found := by
  by_cases hunknown : ∀ project file type, ¬Lies calls context project file type
  · exact ⟨_, .unknown hunknown⟩
  · simp only [not_forall, not_not] at hunknown
    obtain ⟨project, file, type, hlies⟩ := hunknown
    obtain ⟨entry, -, hpackage, himports⟩ := hlies.origin?_eq
    have hcandidates : Candidates calls project file type name
        ((addFiles calls).candidates ⟨project, some entry, type⟩ name) := (candidates_iff hpackage himports).2 rfl
    cases hfind : ((addFiles calls).candidates ⟨project, some entry, type⟩ name).find? fun candidate =>
        (addFiles calls).types.contains (project, candidate) with
    | none =>
      refine ⟨none, .nothing hlies hcandidates fun other hother => ?_⟩
      rw [← contains_addFiles]
      exact List.find?_eq_none.1 hfind other hother
    | some found =>
      obtain ⟨hregistered, before, after, heq, hbefore⟩ := List.find?_eq_some_iff_append.1 hfind
      rw [heq] at hcandidates
      refine ⟨some (project, found), .first hlies hcandidates ((contains_addFiles _ _).1 hregistered) ?_⟩
      intro other hother
      rw [← contains_addFiles, Bool.not_eq_true, ← Bool.not_eq_true']
      exact hbefore other hother

/-- What a name stands for is found, whatever has been looked up before, and nothing else is. In a known context it is a type of the project in which the context lies. A look-up answers with the last declaration of that type, and it answers if there is one. -/
theorem standsFor_iff_resolve? {index : TypeIndex} (hreached : index.Reached)
    (hsame : SameRegistrations index (addFiles calls)) (name : String) (context : LookupContext) :
    (∀ found, StandsFor calls name context found ↔ index.resolve? name context = found) ∧
    (∀ project file type key, Lies calls context project file type → StandsFor calls name context (some key) →
      key.1 = project) ∧
    (StandsFor calls name context none ↔ (index.lookupType name context).1 = none) ∧
    ∀ key, StandsFor calls name context (some key) → ∃ entry info, lastRegistered? calls key.1 key.2 = some entry ∧
      (index.lookupType name context).1 = some info ∧ info.qualifiedName = key.2 ∧ info.element = entry.element := by
  have hresolve (found : Option TypeKey) : StandsFor calls name context found ↔ index.resolve? name context = found := by
    rw [hsame.resolve?_eq]
    refine ⟨StandsFor.resolve?_eq, ?_⟩
    rintro rfl
    obtain ⟨found, hfound⟩ := exists_standsFor calls name context
    rwa [hfound.resolve?_eq]
  have hlookup : ∀ key, index.resolve? name context = some key → ∃ entry info,
      lastRegistered? calls key.1 key.2 = some entry ∧ (index.lookupType name context).1 = some info ∧
        info.qualifiedName = key.2 ∧ info.element = entry.element := by
    intro key hkey
    obtain ⟨entry, hentry⟩ := hreached.coherent.exists_of_resolve? hkey
    obtain ⟨info, hbuild, hcovers⟩ := hreached.faithful.exists_covers hentry
    obtain ⟨declared, inherited, hdeclared, rfl⟩ := hcovers.declared
    obtain rfl := Option.some.inj (hentry.symm.trans hdeclared)
    refine ⟨entry, entry.withInherited inherited, ?_, ?_, hreached.coherent.named hentry, rfl⟩
    · rw [← types_addFiles_get?, ← hsame.types, hentry]
    · rw [lookupType_fst, hkey, Option.bind_some, hbuild]
  refine ⟨hresolve, ?_, ?_, fun key hkey => hlookup key ((hresolve _).1 hkey)⟩
  · intro project file type key hlies hkey
    obtain ⟨entry, -, hpackage, himports⟩ := hlies.origin?_eq
    have hfound := hkey.resolve?_eq
    rw [hlies.resolve?_eq ((candidates_iff hpackage himports).2 rfl)] at hfound
    obtain ⟨_, -, rfl⟩ := Option.map_eq_some_iff.1 hfound
    rfl
  · rw [hresolve]
    constructor
    · intro hnone
      rw [lookupType_fst, hnone]
      rfl
    · intro hnone
      by_contra hsome
      obtain ⟨key, hkey⟩ := Option.ne_none_iff_exists'.1 hsome
      obtain ⟨_, info, -, hinfo, -⟩ := hlookup key hkey
      rw [hnone] at hinfo
      cases hinfo

/-- A library of three modules called `Nic`: two at the top level of packages, and one inside of a module `Host`. -/
def nicFiles : List (String × Element) :=
  let package (name : String) : Element := ⟨0, .package, .fill _ [name], [], none, {}⟩
  let nic : Element := ⟨0, .simpleModule, .fill _ ["Nic"], [], none, {}⟩
  let host : Element := ⟨0, .compoundModule, .fill _ ["Host"], [{ Element.new .types with children := [nic] }], none, {}⟩
  [("p", ⟨0, .nedFile, .fill _ ["host.ned"], [package "lib", host], none, {}⟩),
    ("p", ⟨0, .nedFile, .fill _ ["nic.ned"], [package "lib.link", nic], none, {}⟩),
    ("p", ⟨0, .nedFile, .fill _ ["old.ned"], [package "old.link", nic], none, {}⟩)]

/-- A network of another package, with a type inside, and all modules of the library imported. -/
def nicNetFile : Element :=
  let own : Element := ⟨0, .simpleModule, .fill _ ["Link"], [], none, {}⟩
  let net : Element := ⟨0, .compoundModule, .fill _ ["Net"], [{ Element.new .types with children := [own] }], none, {}⟩
  ⟨0, .nedFile, .fill _ ["net.ned"], [⟨0, .package, .fill _ ["net"], [], none, {}⟩,
    ⟨0, .importDecl, .fill _ ["lib.Nic"], [], none, {}⟩, ⟨0, .importDecl, .fill _ ["**.link.*"], [], none, {}⟩,
    own, net], none, {}⟩

/-- In the type inside of the network `Nic` stands for neither the inner type nor the later one that the wildcards match, and `Link` for the type inside rather than the one around it. -/
theorem standsFor_nicNetFile :
    let calls := nicFiles ++ [("p", nicNetFile)]
    StandsFor calls "Nic" (.type "net.Net.Link") (some ("p", "lib.link.Nic")) ∧
      StandsFor calls "Link" (.type "net.Net.Link") (some ("p", "net.Net.Link")) ∧
      StandsFor calls "Link" (.file "net.ned") (some ("p", "net.Link")) ∧
      StandsFor calls "Host" (.file "net.ned") none ∧
      StandsFor calls "lib.Host.Nic" (.file "none.ned") (some ("p", "lib.Host.Nic")) := by
  intro calls
  have hstands (name : String) (context : LookupContext) (found : Option TypeKey) :=
    (standsFor_iff_resolve? (reached_addFiles calls) (.refl _) name context).1 found
  refine ⟨(hstands _ _ _).2 ?_, (hstands _ _ _).2 ?_, (hstands _ _ _).2 ?_, (hstands _ _ _).2 ?_,
    (hstands _ _ _).2 ?_⟩ <;> decide +kernel

end TypeIndex

end NedCheck
