import NedCheck.Proofs.TypeIndex.Projects
import NedCheck.Proofs.Validation.Confinement

/-!
# Files of one project among others

A file is checked for its project, and with an index that holds other projects besides it should come out as with the files of its own project alone. It does if the names of its types and files are undisputed: then the index is separated, names are looked up in contexts of the project only, and the two indexes remain alike all through the walk.

Names are disputed if another project declared a type of the same qualified name first, or was given a file of the same name last. The context of a type or of a file does not say which project is meant, and then stands for that of the other one.
-/

namespace NedCheck

namespace TypeIndex

variable {project : String} {base index alone : TypeIndex}

/-- The second index has the registrations of a base, which is all that the first one has of the project. -/
def Alike (project : String) (base : TypeIndex) (index alone : TypeIndex) : Prop :=
  Separated project index alone ∧ SameRegistrations alone base

theorem SameRegistrations.holds_iff (h : SameRegistrations alone base) (context : LookupContext) :
    alone.Holds project context ↔ base.Holds project context := by
  cases context with
  | file name => rw [Holds, Holds, h.files]
  | type qualifiedName => rw [Holds, Holds, contains, contains, h.types]

theorem confined_resolver (project : String) (base : TypeIndex) :
    resolver.Confined project (base.Holds project) (Alike project base) where
  lookupType {context index alone} name hcontext halike := by
    obtain ⟨hseparated, hsame⟩ := halike
    obtain ⟨hanswer, hnext⟩ := hseparated.lookupType_eq ((hsame.holds_iff context).2 hcontext) name
    exact ⟨hanswer, hnext, (sameRegistrations_lookupType alone name context).trans hsame⟩
  members _ halike hlookup := by
    intro member hmember
    exact (halike.2.holds_iff _).1 (halike.1.holds_of_mem_members hlookup hmember)
  lookupTopLevel {index alone} qualifiedName halike := by
    obtain ⟨hseparated, hsame⟩ := halike
    obtain ⟨hanswer, hnext⟩ := hseparated.lookupTopLevel_eq qualifiedName
    exact ⟨hanswer, hnext, (sameRegistrations_lookupTopLevel alone qualifiedName project).trans hsame⟩
  expectedPackage? file halike := ⟨congrArg (·.get? file) halike.1.expected, halike⟩
  qualifiedNames halike := ⟨halike.1.qualifiedNames_eq, halike⟩

theorem holds_entered {calls : List (String × Element)} {root : Element} (hcall : (project, root) ∈ calls)
    (hroot : root.tag = .nedFile ∨ root.tag = .files) (hsound : root.Sound) (hplaced : root.Placed)
    {v : Validator TypeIndex} {state : TypeIndex} {opened : OpenType}
    (hopened : opened ∈ v.entered root .initial state) : (Frame.type opened).AtHome ((addFiles calls).Holds project) := by
  have henters : v.Enters (v.trace root .initial state) (v.validate root .initial state).fault
      (root.registrations.map TypeEntry.opened) := by
    unfold Element.registrations
    rcases hroot with hfile | hfiles
    · rw [hfile]
      exact Validator.enters_file hfile hsound hplaced rfl
    · rw [hfiles]
      exact Validator.enters_files hfiles hsound hplaced rfl
  obtain ⟨entry, hentry, rfl⟩ := List.mem_map.1 (henters.within.subset hopened)
  exact holds_of_mem_registrations hcall hentry

variable {calls : List (String × Element)}

/-- If the names of a project are undisputed, what is added for other projects changes nothing for it. Names in the contexts of its files and types stand for the same types and are answered alike, so are its types at the top level, and the project has the same names of types. A tree all of whose types are known to the index is checked alike, and that goes for every file that was added for the project and fits the schema. -/
theorem Undisputed.checkFile_eq (hundisputed : Undisputed calls project) :
    let index := addFiles calls
    let alone := addFiles (callsFor project calls)
    (∀ name context, alone.Holds project context → index.resolve? name context = alone.resolve? name context ∧
      (index.lookupType name context).1 = (alone.lookupType name context).1) ∧
    (∀ qualifiedName, (index.lookupTopLevel qualifiedName project).1 = (alone.lookupTopLevel qualifiedName project).1) ∧
    index.qualifiedNames project = alone.qualifiedNames project ∧
    (∀ root, (∀ opened ∈ (Validator.standard resolver project).entered root .initial alone,
        alone.Holds project opened.headerContext ∧ alone.Holds project (.type opened.qualifiedName)) →
      (checkFile resolver project root index).1 = (checkFile resolver project root alone).1) ∧
    (∀ root, (project, root) ∈ calls → (root.tag = .nedFile ∨ root.tag = .files) →
      (ParseTree.ofElement root).isSound = true → (∀ e ∈ root.descendants, e.tag ≠ .unknown) →
      (checkFile resolver project root index).1 = (checkFile resolver project root alone).1) := by
  intro index alone
  have hseparated : Separated project index alone := hundisputed.separated
  have hcheck : ∀ root, (∀ opened ∈ (Validator.standard resolver project).entered root .initial alone,
      alone.Holds project opened.headerContext ∧ alone.Holds project (.type opened.qualifiedName)) →
      (checkFile resolver project root index).1 = (checkFile resolver project root alone).1 :=
    fun root hentered =>
      (checkFile_matches (confined_resolver project alone) ⟨hseparated, .refl alone⟩ hentered).1
  refine ⟨?_, fun qualifiedName => (hseparated.lookupTopLevel_eq qualifiedName).1, hseparated.qualifiedNames_eq, hcheck,
    ?_⟩
  · intro name context hcontext
    exact ⟨hseparated.resolve?_eq hcontext name, (hseparated.lookupType_eq hcontext name).1⟩
  · intro root hcall hroot hsound hknown
    have hrootSound := ParseTree.isSound_ofElement_iff.1 hsound
    have hownCall : (project, root) ∈ callsFor project calls := List.mem_filter.2 ⟨hcall, decide_eq_true rfl⟩
    exact hcheck root fun opened hopened =>
      holds_entered hownCall hroot hrootSound (hrootSound.placed hknown) hopened

/-! ### Names in dispute -/

/-- A file with a simple module, another that extends it, and a compound module of the given name with a submodule of the first. -/
def nodeFile (file net : String) : Element :=
  let node : Element := ⟨0, .simpleModule, .fill _ ["Node"], [], none, {}⟩
  let base : Element := ⟨0, .extendsName, .fill _ ["Node"], [], none, {}⟩
  let sensor : Element := ⟨0, .simpleModule, .fill _ ["Sensor"], [base], none, {}⟩
  let submodules : Element :=
    { Element.new .submodules with children := [⟨0, .submodule, .fill _ ["n", "Node"], [], none, {}⟩] }
  ⟨0, .nedFile, .fill _ [file], [node, sensor, ⟨0, .compoundModule, .fill _ [net], [submodules], none, {}⟩], none, {}⟩

/-- A file with a compound module and nothing else. -/
def bareFile (file net : String) : Element :=
  ⟨0, .nedFile, .fill _ [file], [⟨0, .compoundModule, .fill _ [net], [], none, {}⟩], none, {}⟩

/-- The messages on a file for a project, after some calls. -/
def messagesOn (calls : List (String × Element)) (project : String) (root : Element) : Option (List String) :=
  (checkFile resolver project root (addFiles calls)).1.toOption.map fun diagnostics => diagnostics.map (·.message)

/-- A module that another project declared first has its submodules looked up there, and the bases of types are looked up in the project that was given a file of the name last. Alone the project has no problems. -/
theorem messagesOn_disputed :
    messagesOn [("q", bareFile "q.ned" "Net"), ("p", nodeFile "p.ned" "Net")] "p" (nodeFile "p.ned" "Net") =
        some ["'Node': no such module type"] ∧
      messagesOn [("p", nodeFile "a.ned" "Net"), ("q", bareFile "a.ned" "Other")] "p" (nodeFile "a.ned" "Net") =
        some ["no such component: 'Node'"] ∧
      messagesOn (callsFor "p" [("q", bareFile "q.ned" "Net"), ("p", nodeFile "p.ned" "Net")]) "p"
        (nodeFile "p.ned" "Net") = some [] ∧
      messagesOn (callsFor "p" [("p", nodeFile "a.ned" "Net"), ("q", bareFile "a.ned" "Other")]) "p"
        (nodeFile "a.ned" "Net") = some [] := by
  decide +kernel

theorem Undisputed.checkFile_eq_nodeFile :
    let calls := [("p", nodeFile "p.ned" "Net"), ("q", bareFile "q.ned" "Net")]
    Undisputed calls "p" ∧ (checkFile resolver "p" (nodeFile "p.ned" "Net") (addFiles calls)).1 =
      (checkFile resolver "p" (nodeFile "p.ned" "Net") (addFiles (callsFor "p" calls))).1 := by
  intro calls
  have htypes : ∀ key ∈ (addFiles (callsFor "p" calls)).types.keys, (addFiles calls).owners.get? key.2 = some "p" := by
    decide +kernel
  have hfiles : ∀ name ∈ (addFiles (callsFor "p" calls)).files.keys,
      ((addFiles calls).files.get? name).map (·.project) = some "p" := by decide +kernel
  have hundisputed : Undisputed calls "p" :=
    ⟨fun hcontains => htypes _ (Table.contains_iff.1 hcontains),
      fun hcontains => hfiles _ (Table.contains_iff.1 hcontains)⟩
  have hcheck := hundisputed.checkFile_eq.2.2.2.2 (nodeFile "p.ned" "Net")
  exact ⟨hundisputed, hcheck (by simp [calls]) (.inl rfl) (by decide +kernel) (by decide +kernel)⟩

end TypeIndex

end NedCheck
