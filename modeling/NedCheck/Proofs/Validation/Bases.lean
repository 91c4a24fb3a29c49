import Mathlib.Algebra.GroupWithZero.Nat
import NedCheck.Proofs.Table
import NedCheck.Proofs.Validation.Trace

/-!
# Bases

A type names its bases one after another. A base that is not found, or that is of another kind than the type, is reported and brings nothing. Any other hands its members on, except those whose names are taken: these are reported, and the names stay with whoever has them. So of several bases the first one that has a name decides what the type has under it, nothing that was in scope before is lost or moved, and each member of a base is either new in scope or reported.
-/

namespace NedCheck

variable {σ : Type}

/-! ### Members -/

/-- The session with other members in scope. -/
def Session.withMembers (session : Session) (members : Table String Member) : Session :=
  session.withScope { session.scope with members }

@[simp] theorem Session.withMembers_members (session : Session) (members : Table String Member) :
    (session.withMembers members).scope.members = members := rfl

namespace Scope

variable (scope : Scope) (base : TypeInfo)

theorem entries_inherit : (scope.inherit base).members.entries =
    scope.members.entries ++ base.members.entries.filter fun entry => entry.1 ∉ scope.members.keys := by
  rw [inherit, Table.entries_insertAll, firsts_eq_self base.members.nodup]

theorem conflicts_eq : scope.conflicts base = base.members.keys.filter (· ∈ scope.members.keys) := by
  refine List.filter_congr fun name _ => ?_
  rw [Bool.eq_iff_iff, Table.contains_iff, decide_eq_true_eq]

/-- Each member of a base is reported or comes into scope. -/
theorem length_conflicts_add_size :
    (scope.conflicts base).length + (scope.inherit base).members.size = scope.members.size + base.members.size := by
  have htaken : (scope.conflicts base).length =
      (base.members.entries.filter fun entry => entry.1 ∈ scope.members.keys).length := by
    have hkeys : base.members.keys = base.members.entries.map Prod.fst := rfl
    rw [conflicts_eq, hkeys, List.filter_map, List.length_map]
    rfl
  have hall := List.length_eq_length_filter_add (l := base.members.entries) fun entry => entry.1 ∈ scope.members.keys
  simp only [← decide_not] at hall
  rw [htaken, Table.size, entries_inherit, List.length_append, Table.size, Table.size]
  omega

end Scope

/-! ### One base -/

namespace Validator

/-- What a type has to report on a base whose members come too late for their names. -/
def conflictReports (e : Element) (scope : Scope) (base : TypeInfo) : List Report :=
  (scope.conflicts base).map fun member => ⟨e, .inheritedConflict member e.name⟩

section One

variable {v : Validator σ} {e : Element} {session : Session} {type : OpenType} {state next : σ} {base : TypeInfo}
  (htag : e.tag = .extendsName) (htype : session.scope.currentType? = some type)

include htag htype

theorem validate_of_missing_base (hlookup : v.resolver.lookupType e.name type.headerContext state = (none, next)) :
    v.validate e session state = ⟨[⟨e, .noComponent e.name⟩], session, next, none⟩ := by
  have hruling : v.enter e session state = ⟨[⟨e, .noComponent e.name⟩], session, next, .skip⟩ := by
    rw [enter, htag]
    simp only [enterExtends, htype, hlookup]
  rw [validate_eq, hruling]
  rfl

theorem validate_of_other_kind (hlookup : v.resolver.lookupType e.name type.headerContext state = (some base, next))
    (hkind : base.tag ≠ type.element.tag) :
    v.validate e session state = ⟨[⟨e, .wrongKind e.name type.element.tag⟩], session, next, none⟩ := by
  have hruling : v.enter e session state = ⟨[⟨e, .wrongKind e.name type.element.tag⟩], session, next, .skip⟩ := by
    rw [enter, htag]
    simp only [enterExtends, htype, hlookup, if_pos hkind]
  rw [validate_eq, hruling]
  rfl

theorem validate_of_base (hlookup : v.resolver.lookupType e.name type.headerContext state = (some base, next))
    (hkind : base.tag = type.element.tag) :
    v.validate e session state =
      (v.validateAll e.children (session.withMembers (session.scope.inherit base).members) next).after
        (hookReports e (v.hooks.inheritance type.element base) ++ conflictReports e session.scope base) := by
  have hruling : v.enter e session state =
      ⟨hookReports e (v.hooks.inheritance type.element base) ++ conflictReports e session.scope base,
        session.withMembers (session.scope.inherit base).members, next, .descend⟩ := by
    rw [enter, htag]
    simp only [enterExtends, htype, hlookup, hkind, ne_eq, not_true_eq_false, if_false]
    rfl
  rw [validate_eq, hruling]
  rfl

end One

/-! ### Several bases -/

theorem get?_insertAll_flatMap (table : Table String Member) (bases : List TypeInfo) (name : String) :
    (table.insertAll (bases.flatMap (·.members.entries))).get? name =
      (table.get? name).or (bases.findSome? (·.member? name)) := by
  rw [Table.get?_insertAll, List.find?_flatMap, List.map_findSome?]
  rfl

/-- What the names of the elements stand for, asked for one after another, and the state after the last answer. -/
def basesFound (v : Validator σ) (context : LookupContext) : List Element → σ → List (Option TypeInfo) × σ
  | [], state => ([], state)
  | e :: rest, state =>
    let (found, state) := v.resolver.lookupType e.name context state
    let (others, state) := basesFound v context rest state
    (found :: others, state)

/-- What comes of a walk over bases that are all of the kind of the type. -/
structure Merged (es : List Element) (bases : List TypeInfo) (before : Session) (last : σ) (outcome : Outcome σ) :
    Prop where
  fault : outcome.fault = none
  state : outcome.state = last
  session : outcome.session =
    before.withMembers (before.scope.members.insertAll (bases.flatMap (·.members.entries)))
  reports : ∀ report ∈ outcome.reports, ∃ e ∈ es, ∃ name, report = ⟨e, .inheritedConflict name e.name⟩
  size : outcome.reports.length + outcome.session.scope.members.size =
    before.scope.members.size + (bases.map (·.members.size)).sum

theorem merged_validateAll (v : Validator σ) {type : OpenType} {es : List Element} {bases : List TypeInfo}
    (hes : ∀ e ∈ es, e.tag = .extendsName ∧ ∀ child ∈ e.children, child.Idle)
    (hkind : ∀ base ∈ bases, base.tag = type.element.tag)
    (hhooks : ∀ base ∈ bases, v.hooks.inheritance type.element base = none) {session : Session}
    (htype : session.scope.currentType? = some type) {state : σ}
    (hfound : (v.basesFound type.headerContext es state).1 = bases.map some) :
    Merged es bases session (v.basesFound type.headerContext es state).2 (v.validateAll es session state) := by
  induction es generalizing bases session state with
  | nil =>
    obtain rfl : bases = [] := List.map_eq_nil_iff.1 hfound.symm
    rw [validateAll]
    exact ⟨rfl, rfl, rfl, fun report hreport => absurd hreport List.not_mem_nil, by simp⟩
  | cons e rest ih =>
    obtain ⟨htag, hidle⟩ := hes e (by simp)
    rcases hlookup : v.resolver.lookupType e.name type.headerContext state with ⟨found, next⟩
    simp only [basesFound, hlookup] at hfound ⊢
    obtain ⟨base, others, rfl, rfl, hothers⟩ := List.map_eq_cons_iff.1 hfound.symm
    have hfirst : v.validate e session state =
        ⟨conflictReports e session.scope base, session.withMembers (session.scope.inherit base).members, next, none⟩ := by
      rw [validate_of_base htag htype hlookup (hkind base (by simp)), hhooks base (by simp), v.validateAll_of_idle hidle]
      simp [Outcome.after, hookReports]
    have hinherited : (session.withMembers (session.scope.inherit base).members).scope.currentType? = some type := htype
    have hlater := ih (fun other hother => hes other (by simp [hother])) (fun other hother => hkind other (by simp [hother]))
      (fun other hother => hhooks other (by simp [hother])) hinherited hothers.symm
    have hfault : (v.validate e session state).fault = none := by rw [hfirst]
    rw [validateAll_cons_of_none hfault, hfirst]
    refine ⟨hlater.fault, hlater.state, ?_, ?_, ?_⟩
    · rw [Outcome.after_session, hlater.session, List.flatMap_cons, ← Table.insertAll_append]
      rfl
    · intro report hreport
      rcases List.mem_append.1 hreport with hconflict | hreport
      · obtain ⟨name, -, rfl⟩ := List.mem_map.1 hconflict
        exact ⟨e, by simp, name, rfl⟩
      · obtain ⟨other, hother, hname⟩ := hlater.reports report hreport
        exact ⟨other, by simp [hother], hname⟩
    · have hsize := hlater.size
      have hstep := session.scope.length_conflicts_add_size base
      simp only [Outcome.after_reports, Outcome.after_session, conflictReports, List.length_append, List.length_map,
        List.map_cons, List.sum_cons, Session.withMembers_members] at hsize ⊢
      omega

/-- What a base does to a type is decided by its members and by the names that are taken. One that is not found or is of another kind is the one thing reported, and nothing is in scope that was not. One of the kind of the type is reported once for each of its members whose name is taken, in their order and after what a check of the caller finds; what was in scope stays in front as it was, and the other members follow, each with the element that declares it and its owner. What stands below the base is validated after that, and changes nothing if no rule looks at it, as in every tree that fits the schema.

Over a row of bases of the kind of the type, with no such check, the members are therefore those in scope followed by the first of each new name, and each member of a base is either one that is added or one that is reported. -/
theorem validate_bases (v : Validator σ) {session : Session} {type : OpenType}
    (htype : session.scope.currentType? = some type) (state : σ) :
    (∀ (e : Element) (found : Option TypeInfo) (next : σ), e.tag = .extendsName →
      v.resolver.lookupType e.name type.headerContext state = (found, next) →
      (found = none → v.validate e session state = ⟨[⟨e, .noComponent e.name⟩], session, next, none⟩) ∧
      ∀ base, found = some base →
        (base.tag ≠ type.element.tag →
          v.validate e session state = ⟨[⟨e, .wrongKind e.name type.element.tag⟩], session, next, none⟩) ∧
        (base.tag = type.element.tag → ∃ (members : Table String Member) (reports : List Report),
          members.entries = session.scope.members.entries ++
            base.members.entries.filter (fun entry => entry.1 ∉ session.scope.members.keys) ∧
          reports = hookReports e (v.hooks.inheritance type.element base) ++
            (base.members.keys.filter (· ∈ session.scope.members.keys)).map
              (fun name => ⟨e, .inheritedConflict name e.name⟩) ∧
          v.validate e session state = (v.validateAll e.children (session.withMembers members) next).after reports ∧
          ((∀ child ∈ e.children, child.Idle) →
            v.validate e session state = ⟨reports, session.withMembers members, next, none⟩))) ∧
    ∀ (es : List Element) (bases : List TypeInfo),
      (∀ e ∈ es, e.tag = .extendsName ∧ ∀ child ∈ e.children, child.Idle) →
      (∀ base ∈ bases, base.tag = type.element.tag) →
      (∀ base ∈ bases, v.hooks.inheritance type.element base = none) →
      (v.basesFound type.headerContext es state).1 = bases.map some →
      ∃ (members : Table String Member) (reports : List Report) (added : List (String × Member)),
        v.validateAll es session state =
          ⟨reports, session.withMembers members, (v.basesFound type.headerContext es state).2, none⟩ ∧
        members.entries = session.scope.members.entries ++ added ∧
        added = (firsts (bases.flatMap (·.members.entries))).filter
          (fun entry => entry.1 ∉ session.scope.members.keys) ∧
        (∀ name, members.get? name = (session.scope.members.get? name).or (bases.findSome? (·.member? name))) ∧
        (∀ report ∈ reports, ∃ e ∈ es, ∃ name, report = ⟨e, .inheritedConflict name e.name⟩) ∧
        reports.length + added.length = (bases.map (·.members.size)).sum := by
  refine ⟨fun e found next htag hlookup => ⟨?_, fun base hfound => ⟨?_, ?_⟩⟩, ?_⟩
  · rintro rfl
    exact validate_of_missing_base htag htype hlookup
  · subst hfound
    exact validate_of_other_kind htag htype hlookup
  · subst hfound
    intro hkind
    have hvalidate := validate_of_base htag htype hlookup hkind
    refine ⟨_, _, session.scope.entries_inherit base, rfl, ?_, fun hidle => ?_⟩
    · rw [hvalidate, conflictReports, Scope.conflicts_eq]
    · rw [hvalidate, conflictReports, Scope.conflicts_eq, v.validateAll_of_idle hidle]
      simp [Outcome.after]
  · intro es bases hes hkind hhooks hfound
    obtain ⟨hfault, hstate, hsession, hreports, hsize⟩ := merged_validateAll v hes hkind hhooks htype hfound
    have hentries := session.scope.members.entries_insertAll (bases.flatMap (·.members.entries))
    refine ⟨_, (v.validateAll es session state).reports, _, ?_, hentries, rfl,
      get?_insertAll_flatMap session.scope.members bases, hreports, ?_⟩
    · rw [← hsession, ← hstate, ← hfault]
    · have hlength := congrArg List.length hentries
      rw [hsession, Session.withMembers_members] at hsize
      simp only [List.length_append, Table.size] at hlength hsize ⊢
      omega

/-! ### Two bases with a name in common -/

/-- A simple module with the parameters. -/
def sensorType (name : String) (parameters : List String) : TypeInfo :=
  let param (parameter : String) : Element := ⟨0, .param, .fill _ ["int", "false", parameter], [], none, {}⟩
  ⟨name, name, ⟨0, .simpleModule, .fill _ [name], [], none, {}⟩, .file "a.ned",
    .insertAll ∅ (parameters.map fun parameter => (parameter, ⟨param parameter, name⟩))⟩

/-- A resolver that knows two of them, each with a parameter `y`. -/
def sensorTypes : Resolver Unit where
  lookupType name _ _ :=
    (if name = "A" then some (sensorType "A" ["x", "y"]) else some (sensorType "B" ["y", "z"]), ())
  lookupTopLevel _ _ _ := (none, ())
  expectedPackage? _ _ := (none, ())
  qualifiedNames _ _ := ([], ())

/-- Inside of a module that has a parameter `x`. -/
def sensorSession : Session :=
  let host := sensorType "C" ["x"]
  (Session.initial.enter (.type ⟨host.element, "C", .file "a.ned"⟩)).withMembers host.members

/-- That module extends both. -/
def sensorBases : List Element := ["A", "B"].map fun name => ⟨0, .extendsName, .fill _ [name], [], none, {}⟩

/-- Two of the four members come too late for their names. -/
theorem validate_bases_sensor :
    ((standard sensorTypes "p").validateAll sensorBases sensorSession ()).reports.length = 2 ∧
      (((standard sensorTypes "p").validateAll sensorBases sensorSession ()).session.scope.members.get? "y").map
        (·.owner) = some "A" := by
  have htype : sensorSession.scope.currentType? =
      some ⟨(sensorType "C" ["x"]).element, "C", .file "a.ned"⟩ := rfl
  obtain ⟨-, hrow⟩ := validate_bases (standard sensorTypes "p") htype ()
  obtain ⟨members, reports, added, hvalidate, -, hadded, hget, -, hcount⟩ :=
    hrow sensorBases [sensorType "A" ["x", "y"], sensorType "B" ["y", "z"]]
      (by simp [sensorBases]) (by decide +kernel) (fun _ _ => rfl) rfl
  have hlength : added.length = 2 := by
    rw [hadded]
    decide +kernel
  have hsum : ([sensorType "A" ["x", "y"], sensorType "B" ["y", "z"]].map (·.members.size)).sum = 4 := by decide +kernel
  rw [hvalidate]
  refine ⟨by dsimp only; omega, ?_⟩
  rw [Session.withMembers_members, hget]
  decide +kernel

end Validator

end NedCheck
