import NedCheck.Proofs.TypeIndex.Resolution
import NedCheck.Validation.Walk

/-!
# Imports that name nothing

Validation reports an import if no type at the top level of a file of the project is meant by it. When names are resolved, a wildcard import is matched with the same types, so one that is reported can be left out: every name stands for what it stands for without it. An explicit import is only looked up by its qualified name then, and this may be the name of a type inside of another one. Such an import is reported as well, but unless something else is in scope under its last segment, that name stands for the inner type. This is all that a reported import can do.
-/

namespace NedCheck

theorem Element.exists_importSpecs {root e : Element} {before after : List Element} (htag : e.tag = .importDecl)
    (hchildren : root.children = before ++ e :: after) :
    ∃ front back, root.importSpecs = front ++ e.value "import-spec" :: back ∧
      ({ root with children := before ++ after } : Element).importSpecs = front ++ back := by
  refine ⟨(before.filter fun child => child.tag = .importDecl).map (·.value "import-spec"),
    (after.filter fun child => child.tag = .importDecl).map (·.value "import-spec"), ?_, ?_⟩
  · rw [importSpecs, childrenWithTag, hchildren, List.filter_append, List.filter_cons_of_pos (by simpa using htag),
      List.map_append, List.map_cons]
  · rw [importSpecs, childrenWithTag, List.filter_append, List.map_append]

namespace TypeIndex

variable {index without : TypeIndex} {project file spec : String}

/-- The import means no type at the top level of the project. -/
def MeansNothing (index : TypeIndex) (project spec : String) : Prop :=
  ∀ name entry, index.types.get? (project, name) = some entry → entry.enclosing = none →
    ¬ImportSpec.Splits (ImportSpec.tokens spec.toList) name.toList

/-- The import is explicit, and its type is inside of another one. -/
def NamesInner (index : TypeIndex) (project spec : String) : Prop :=
  isWildcardImport spec = false ∧
    ∃ entry outer, index.types.get? (project, spec) = some entry ∧ entry.enclosing = some outer

/-- The second index is like the first one, with an import of a file of the project left out. -/
structure LacksImport (index without : TypeIndex) (project file spec : String) : Prop where
  types : without.types = index.types
  owners : without.owners = index.owners
  others {name : String} : name ≠ file → without.files.get? name = index.files.get? name
  imports : ∃ package before after, index.files.get? file = some ⟨project, package, before ++ spec :: after⟩ ∧
    without.files.get? file = some ⟨project, package, before ++ after⟩

/-! ### Leaving out an import -/

section

variable {calls earlier later : List (String × Element)} {root : Element}
  (hcalls : additions calls = earlier ++ (project, root) :: later)

include hcalls

theorem lastAdded?_of_last (hlast : ∀ added ∈ later, added.2.value "filename" ≠ root.value "filename") :
    lastAdded? calls (root.value "filename") = some (project, root) := by
  have hlater : (later.filter fun added => added.2.value "filename" = root.value "filename") = [] :=
    List.filter_eq_nil_iff.2 fun added hadded => by simpa using hlast added hadded
  rw [lastAdded?, hcalls, List.filter_append, List.filter_cons_of_pos (by simp), hlater, List.getLast?_concat]

theorem lastAdded?_of_ne {name : String} (hname : root.value "filename" ≠ name) :
    lastAdded? calls name = ((earlier ++ later).filter fun added => added.2.value "filename" = name).getLast? := by
  rw [lastAdded?, hcalls, List.filter_append, List.filter_cons_of_neg (by simpa using hname), ← List.filter_append]

end

theorem lacksImport_addFiles {calls others earlier later : List (String × Element)} {root e : Element}
    {before after : List Element} (htag : e.tag = .importDecl) (hchildren : root.children = before ++ e :: after)
    (hcalls : additions calls = earlier ++ (project, root) :: later)
    (hothers : additions others = earlier ++ (project, { root with children := before ++ after }) :: later)
    (hlast : ∀ added ∈ later, added.2.value "filename" ≠ root.value "filename") :
    LacksImport (addFiles calls) (addFiles others) project (root.value "filename") (e.value "import-spec") := by
  have hpackage : ({ root with children := before ++ after } : Element).packageName = root.packageName := by
    simp [Element.packageName, Element.firstChild?, hchildren, htag]
  have hdeclarations : ({ root with children := before ++ after } : Element).fileDeclarations =
      root.fileDeclarations := by
    have htypes : root.children.filter (·.tag.isTypeDeclaration) =
        (before ++ after).filter (·.tag.isTypeDeclaration) := by
      rw [hchildren, List.filter_append, List.filter_append, List.filter_cons_of_neg (by rw [htag]; decide)]
    rw [Element.fileDeclarations, Element.fileDeclarations, hpackage, htypes]
    rfl
  have hregistered : registered others = registered calls := by
    rw [registered_eq, registered_eq, hcalls, hothers, List.flatMap_append, List.flatMap_append, List.flatMap_cons,
      List.flatMap_cons, hdeclarations]
  obtain ⟨front, back, himports, himportsWithout⟩ := Element.exists_importSpecs htag hchildren
  refine ⟨by rw [types_addFiles, types_addFiles, hregistered], by rw [owners_addFiles, owners_addFiles, hregistered],
    fun hname => ?_, root.packageName, front, back, ?_, ?_⟩
  · rw [files_addFiles_get?, files_addFiles_get?, lastAdded?_of_ne hcalls hname.symm, lastAdded?_of_ne hothers hname.symm]
  · rw [files_addFiles_get?, lastAdded?_of_last hcalls hlast, ← himports]
    rfl
  · have hadded : lastAdded? others (root.value "filename") =
        some (project, { root with children := before ++ after }) := lastAdded?_of_last hothers hlast
    rw [files_addFiles_get?, hadded, Option.map_some, hpackage, himportsWithout]

/-! ### What names stand for without it -/

theorem MeansNothing.importedBy?_eq_none (h : index.MeansNothing project spec) (name : String) :
    index.importedBy? project name spec = none := by
  rw [importedBy?, Option.map_eq_none_iff, List.find?_eq_none]
  rintro ⟨⟨owner, qualifiedName⟩, entry⟩ hmem
  simp only [Bool.and_eq_true, decide_eq_true_eq, Option.isNone_iff_eq_none, importMatches_iff]
  rintro ⟨⟨⟨rfl, htop⟩, -⟩, hsplits⟩
  exact h _ _ (Table.get?_eq_some_iff.2 hmem) htop hsplits

theorem MeansNothing.candidates_cases (h : index.MeansNothing project spec) (owner package name : String)
    (before after : List String) (type : Option String) : ∃ front back,
      index.candidates ⟨project, some ⟨owner, package, before ++ after⟩, type⟩ name = front ++ back ∧
      (index.candidates ⟨project, some ⟨owner, package, before ++ spec :: after⟩, type⟩ name = front ++ back ∨
        isWildcardImport spec = false ∧ lastSegment spec = name ∧
          index.candidates ⟨project, some ⟨owner, package, before ++ spec :: after⟩, type⟩ name =
            front ++ spec :: back) := by
  by_cases hdot : '.' ∈ name.toList
  · have hself (origin : Origin) : index.candidates origin name = [name] :=
      if_pos (List.contains_iff_mem.2 hdot)
    exact ⟨[name], [], hself _, .inl (hself _)⟩
  · have hsimple (origin : Origin) : index.candidates origin name =
        index.enclosedCandidates origin.project name origin.enclosing ++
          index.fileCandidates origin.project name origin.file :=
      if_neg fun hcontains => hdot (List.contains_iff_mem.1 hcontains)
    have hnone := h.importedBy?_eq_none name
    by_cases htried : isWildcardImport spec = false ∧ importsName spec name = true
    · obtain ⟨hexplicit, himports⟩ := htried
      refine ⟨index.enclosedCandidates project name type ++ qualify package name ::
          (before.filter fun spec => !isWildcardImport spec).filter (importsName · name),
        (after.filter fun spec => !isWildcardImport spec).filter (importsName · name) ++
          ((before ++ after).filter isWildcardImport).filterMap (index.importedBy? project name),
        ?_, .inr ⟨hexplicit, (importsName_iff hdot).1 himports, ?_⟩⟩
      · simp [hsimple, fileCandidates]
      · simp [hsimple, fileCandidates, hexplicit, himports]
    · refine ⟨_, [], (List.append_nil _).symm, .inl ?_⟩
      cases hwildcard : isWildcardImport spec with
      | true => simp [hsimple, fileCandidates, hwildcard, hnone]
      | false =>
        have hnot : importsName spec name = false := by simpa [hwildcard] using htried
        simp [hsimple, fileCandidates, hwildcard, hnot]

namespace LacksImport

variable (h : LacksImport index without project file spec)

include h

/-- A context lies alike in both indexes or in the file that has the import. -/
theorem origin?_cases {context : LookupContext}
    (hown : ∀ type owner entry, context = .type type → index.types.get? (owner, type) = some entry →
      entry.file = file → owner = project) :
    without.origin? context = index.origin? context ∨ ∃ package before after type,
      index.origin? context = some ⟨project, some ⟨project, package, before ++ spec :: after⟩, type⟩ ∧
        without.origin? context = some ⟨project, some ⟨project, package, before ++ after⟩, type⟩ := by
  obtain ⟨package, before, after, hfile, hfileWithout⟩ := h.imports
  cases context with
  | file name =>
    by_cases hname : name = file
    · subst hname
      exact .inr ⟨package, before, after, none, by rw [origin?, hfile]; rfl, by rw [origin?, hfileWithout]; rfl⟩
    · exact .inl (by rw [origin?, origin?, h.others hname])
  | type type =>
    rw [origin?, origin?, h.owners, h.types]
    cases howner : index.owners.get? type with
    | none => exact .inl rfl
    | some owner =>
      cases hentry : index.types.get? (owner, type) with
      | none => exact .inl (by simp [hentry])
      | some entry =>
        by_cases hname : entry.file = file
        · obtain rfl := hown type owner entry rfl hentry hname
          refine .inr ⟨package, before, after, some type, ?_, ?_⟩
          · simp [hentry, hname, hfile]
          · simp [hentry, hname, hfileWithout]
        · exact .inl (by simp [hentry, h.others hname])

/-- If the import means nothing, a name stands for the same with and without it, or for an inner type that it names. -/
theorem resolve?_cases (hnothing : index.MeansNothing project spec) {context : LookupContext}
    (hown : ∀ type owner entry, context = .type type → index.types.get? (owner, type) = some entry →
      entry.file = file → owner = project) (name : String) :
    index.resolve? name context = without.resolve? name context ∨
      index.NamesInner project spec ∧ lastSegment spec = name ∧ index.resolve? name context = some (project, spec) := by
  have hcandidates (origin : Origin) : without.candidates origin name = index.candidates origin name :=
    candidates_congr h.types origin name
  unfold resolve?
  rw [h.owners, h.types]
  rcases h.origin?_cases hown with hsame | ⟨package, before, after, type, horigin, horiginWithout⟩
  · refine .inl ?_
    rw [hsame]
    simp only [hcandidates]
  · rw [horigin, horiginWithout]
    dsimp only
    rw [hcandidates]
    obtain ⟨front, back, hwithout, hwith | ⟨hexplicit, hlast, hwith⟩⟩ :=
      hnothing.candidates_cases project package name before after type
    · rw [hwith, hwithout]
      exact .inl rfl
    · rw [hwith, hwithout, List.find?_append, List.find?_append]
      cases hfront : front.find? fun candidate => index.types.contains (project, candidate) with
      | some found => exact .inl rfl
      | none =>
        cases hspec : index.types.contains (project, spec) with
        | false => exact .inl (by rw [List.find?_cons_of_neg (by simpa using hspec)])
        | true =>
          obtain ⟨entry, hentry⟩ := Option.isSome_iff_exists.1 hspec
          have hself := (splits_iff_of_explicit hexplicit).2 rfl
          obtain ⟨outer, houter⟩ := Option.ne_none_iff_exists'.1 fun htop => hnothing spec entry hentry htop hself
          refine .inr ⟨⟨hexplicit, entry, outer, hentry, houter⟩, hlast, ?_⟩
          rw [List.find?_cons_of_pos (by simpa using hspec)]
          rfl

end LacksImport

theorem build_congr {left right : TypeIndex} (htypes : left.types = right.types) (hknown : left.known = right.known)
    (hresolve : ∀ name context, left.resolve? name context = right.resolve? name context) (depth : Nat)
    (path : List TypeKey) (key : TypeKey) : left.build depth path key = right.build depth path key := by
  induction depth generalizing path key with
  | zero => rfl
  | succ depth ih =>
    have hbelow : left.build depth (key :: path) = right.build depth (key :: path) := funext (ih (key :: path))
    rw [build, build, htypes, hknown]
    simp only [hresolve, hbelow]

theorem Reached.lookupTopLevel_eq_none_iff (h : index.Reached) {name : String} :
    (index.lookupTopLevel name project).1 = none ↔
      ∀ entry, index.types.get? (project, name) = some entry → entry.enclosing ≠ none := by
  rw [lookupTopLevel_fst, Option.bind_eq_none_iff, topLevelKey?]
  constructor
  · intro hnone entry hentry htop
    obtain ⟨info, hbuild, -⟩ := h.faithful.exists_covers hentry
    have hunbuilt := hnone (project, name) (by simp [hentry, htop])
    rw [hunbuilt] at hbuild
    cases hbuild
  · intro hinner key hkey
    obtain ⟨entry, hentry, -⟩ := Option.map_eq_some_iff.1 hkey
    obtain ⟨hentry, htop⟩ := Option.filter_eq_some_iff.1 hentry
    exact absurd (Option.isNone_iff_eq_none.1 htop) (hinner entry hentry)

end TypeIndex

namespace Validator

variable {σ : Type} {v : Validator TypeIndex} {index without : TypeIndex}

/-- Validation reports that the import has not been found or matches nothing. -/
def ReportsImport (v : Validator σ) (e : Element) (session : Session) (state : σ) : Prop :=
  ∃ report ∈ (v.enter e session state).reports, report.problem = .importNotFound (e.value "import-spec") ∨
    report.problem = .importMatchesNothing (e.value "import-spec")

theorem reportsImport_iff_eq_false {v : Validator σ} {e : Element} {session : Session} {state : σ} {problem : Problem}
    {found : Bool} {clash : Option String}
    (hproblem : problem = .importNotFound (e.value "import-spec") ∨ problem = .importMatchesNothing (e.value "import-spec"))
    (hreports : (v.enter e session state).reports =
      ((if found then [] else [problem]).map fun problem => Report.mk e problem) ++ hookReports e clash) :
    v.ReportsImport e session state ↔ found = false := by
  rw [ReportsImport, hreports]
  constructor
  · rintro ⟨report, hreport, heither⟩
    rcases List.mem_append.1 hreport with hown | hhook
    · cases found with
      | false => rfl
      | true => simp at hown
    · obtain ⟨message, -, rfl⟩ := List.mem_map.1 hhook
      simp at heither
  · rintro rfl
    exact ⟨⟨e, problem⟩, by simp, hproblem⟩

theorem reportsImport_iff (hresolver : v.resolver = TypeIndex.resolver) (hreached : index.Reached) {e : Element}
    (htag : e.tag = .importDecl) (session : Session) :
    v.ReportsImport e session index ↔ index.MeansNothing v.project (e.value "import-spec") := by
  have hreports : (v.enter e session index).reports = (v.enterImport e session index).reports := by
    simp only [enter, htag]
  unfold enterImport at hreports
  rw [hresolver] at hreports
  cases hwildcard : isWildcardImport (e.value "import-spec") with
  | true =>
    simp only [hwildcard, if_true] at hreports
    rw [reportsImport_iff_eq_false (.inr rfl) hreports, List.any_eq_false]
    constructor
    · intro hnone name entry hentry htop hsplits
      exact hnone name (hreached.coherent.mem_qualifiedNames_iff.2 ⟨entry, hentry, htop⟩) (importMatches_iff.2 hsplits)
    · intro hnothing name hname
      obtain ⟨entry, hentry, htop⟩ := hreached.coherent.mem_qualifiedNames_iff.1 hname
      exact fun hmatches => hnothing name entry hentry htop (importMatches_iff.1 hmatches)
  | false =>
    simp only [hwildcard, Bool.false_eq_true, if_false] at hreports
    rw [reportsImport_iff_eq_false (.inl rfl) hreports, Option.isSome_eq_false_iff, Option.isNone_iff_eq_none]
    refine hreached.lookupTopLevel_eq_none_iff.trans ⟨?_, ?_⟩
    · intro hnone name entry hentry htop hsplits
      obtain rfl := (splits_iff_of_explicit hwildcard).1 hsplits
      exact hnone entry hentry htop
    · exact fun hnothing entry hentry htop => hnothing _ entry hentry htop ((splits_iff_of_explicit hwildcard).2 rfl)

/-- An import of a file of the project is reported if and only if it means no type at the top level of the project. One that is reported brings nothing into the file: every name stands for the same without it, save that the last segment of an explicit import may stand for the inner type that the import spells. If it spells none, and no other project has types in files of the name, then not even what is worked out of any type is different without it, as long as the same is remembered. -/
theorem lookups_of_reportsImport (hresolver : v.resolver = TypeIndex.resolver) (hreached : index.Reached) {file : String}
    {e : Element} (htag : e.tag = .importDecl) (session : Session)
    (hlacks : index.LacksImport without v.project file (e.value "import-spec")) :
    (v.ReportsImport e session index ↔ index.MeansNothing v.project (e.value "import-spec")) ∧
    (v.ReportsImport e session index →
      (∀ name, index.resolve? name (.file file) = without.resolve? name (.file file) ∨
        index.NamesInner v.project (e.value "import-spec") ∧ lastSegment (e.value "import-spec") = name ∧
          index.resolve? name (.file file) = some (v.project, e.value "import-spec")) ∧
      (¬index.NamesInner v.project (e.value "import-spec") → index.known = without.known →
        (∀ key entry, index.types.get? key = some entry → entry.file = file → key.1 = v.project) →
        ∀ name context, (index.lookupType name context).1 = (without.lookupType name context).1)) := by
  have hreported := reportsImport_iff hresolver hreached htag session
  refine ⟨hreported, fun hreports => ⟨fun name => ?_, fun hnot hknown hown => ?_⟩⟩
  · exact hlacks.resolve?_cases (hreported.1 hreports) (by simp) name
  · have hresolve (name : String) (context : LookupContext) :
        index.resolve? name context = without.resolve? name context :=
      (hlacks.resolve?_cases (hreported.1 hreports) (fun type owner entry _ => hown (owner, type) entry) name).resolve_right
        fun hinner => hnot hinner.1
    have hbuild := TypeIndex.build_congr hlacks.types.symm hknown hresolve
    intro name context
    rw [TypeIndex.lookupType_fst, TypeIndex.lookupType_fst, hresolve, TypeIndex.size, TypeIndex.size, hlacks.types]
    exact Option.bind_congr fun key _ => hbuild _ _ _

/-! ### A module inside of a module -/

/-- A module with a module `Nic` inside. -/
def hostFile : Element :=
  let types : Element :=
    { Element.new .types with children := [⟨0, .simpleModule, .fill _ ["Nic"], [], none, {}⟩] }
  ⟨0, .nedFile, .fill _ ["lib.ned"], [⟨0, .package, .fill _ ["lib"], [], none, {}⟩,
    ⟨0, .compoundModule, .fill _ ["Host"], [types], none, {}⟩], none, {}⟩

def importOf (spec : String) : Element := ⟨0, .importDecl, .fill _ [spec], [], none, {}⟩

/-- A module of another package that extends `Nic`, with the imports. -/
def cardFile (imports : List String) : Element :=
  let card : Element :=
    ⟨0, .simpleModule, .fill _ ["Card"], [⟨0, .extendsName, .fill _ ["Nic"], [], none, {}⟩], none, {}⟩
  ⟨0, .nedFile, .fill _ ["app.ned"],
    ⟨0, .package, .fill _ ["app"], [], none, {}⟩ :: (imports.map importOf ++ [card]), none, {}⟩

def cardCalls (imports : List String) : List (String × Element) := [("p", hostFile), ("p", cardFile imports)]

theorem lacksImport_cardCalls (spec : String) :
    (TypeIndex.addFiles (cardCalls [spec])).LacksImport (.addFiles (cardCalls [])) "p" "app.ned"
      ((importOf spec).value "import-spec") := by
  have hchildren : (cardFile [spec]).children =
      (cardFile []).children.take 1 ++ importOf spec :: (cardFile []).children.drop 1 := rfl
  have hcalls : TypeIndex.additions (cardCalls [spec]) = [("p", hostFile)] ++ ("p", cardFile [spec]) :: [] := rfl
  exact TypeIndex.lacksImport_addFiles rfl hchildren hcalls rfl fun _ hadded => absurd hadded List.not_mem_nil

/-- An import of the module inside is reported, and the module that extends `Nic` is in order. Without the import it is not. -/
theorem lookups_of_import_inner :
    let v : Validator TypeIndex := .standard TypeIndex.resolver "p"
    let index := TypeIndex.addFiles (cardCalls ["lib.Host.Nic"])
    let without := TypeIndex.addFiles (cardCalls [])
    index.LacksImport without "p" "app.ned" ((importOf "lib.Host.Nic").value "import-spec") ∧
      v.ReportsImport (importOf "lib.Host.Nic") .initial index ∧
      index.resolve? "Nic" (.file "app.ned") = some ("p", "lib.Host.Nic") ∧
      without.resolve? "Nic" (.file "app.ned") = none ∧
      (v.validate (cardFile ["lib.Host.Nic"]) .initial index).diagnostics.map (·.message) =
        ["imported NED type not found: 'lib.Host.Nic'"] ∧
      (v.validate (cardFile []) .initial without).diagnostics.map (·.message) = ["no such component: 'Nic'"] := by
  refine ⟨lacksImport_cardCalls _, ?_, by decide +kernel, by decide +kernel, by decide +kernel, by decide +kernel⟩
  unfold ReportsImport
  decide +kernel

/-- An import with a star that matches no other module brings nothing. -/
theorem lookups_of_import_wildcard :
    let index := TypeIndex.addFiles (cardCalls ["lib.Host.*"])
    let without := TypeIndex.addFiles (cardCalls [])
    (Validator.standard TypeIndex.resolver "p").ReportsImport (importOf "lib.Host.*") .initial index ∧
      ∀ name context, (index.lookupType name context).1 = (without.lookupType name context).1 := by
  intro index without
  have hreports : (Validator.standard TypeIndex.resolver "p").ReportsImport (importOf "lib.Host.*") .initial index := by
    unfold ReportsImport
    decide +kernel
  have hnot : ¬index.NamesInner "p" "lib.Host.*" := fun hinner => absurd hinner.1 (by decide +kernel)
  have hknown : index.known = without.known := (TypeIndex.known_addFiles _).1.trans (TypeIndex.known_addFiles _).1.symm
  have hown : ∀ key entry, index.types.get? key = some entry → entry.file = "app.ned" → key.1 = "p" := by
    intro key entry hentry _
    obtain ⟨call, hcall, hproject⟩ := TypeIndex.exists_call_of_get? hentry
    rw [← hproject]
    rcases List.mem_pair.1 hcall with rfl | rfl <;> rfl
  have hlookups := lookups_of_reportsImport (v := .standard TypeIndex.resolver "p") rfl
    (TypeIndex.reached_addFiles _) rfl .initial (lacksImport_cardCalls "lib.Host.*")
  exact ⟨hreports, (hlookups.2 hreports).2 hnot hknown hown⟩

end Validator

end NedCheck
