import NedCheck.Proofs.Table
import NedCheck.Proofs.Validation.Entering
import NedCheck.Proofs.Validation.Questions

/-!
# Confined validations

A validation asks for the types of its project, and for names in two sorts of contexts: those of the types it is in, and those of the types that declare the members in scope. If all types it enters are at home in some set of contexts, and so are the types that declare members of what the resolver answers there, then it never asks from outside. States of the resolver that give the same answers at home then are as good as one another, whatever they hold besides.

`Resolver.Confined` is this condition on the resolver. The proof goes through a walk in two states at once: the rules keep the scope at home and match, and so do walks by induction over the element.
-/

namespace NedCheck

variable {σ α : Type} {home : LookupContext → Prop} {Alike : σ → σ → Prop}

/-! ### At home -/

/-- The types that declare the members are at home. -/
def Table.FromHome (home : LookupContext → Prop) (members : Table String Member) : Prop :=
  ∀ entry ∈ members.entries, home (.type entry.2.owner)

/-- A type that has been entered is at home with its header and with its body. -/
def Frame.AtHome (home : LookupContext → Prop) : Frame → Prop
  | .type opened => home opened.headerContext ∧ home (.type opened.qualifiedName)
  | _ => True

structure Scope.AtHome (home : LookupContext → Prop) (scope : Scope) : Prop where
  members : scope.members.FromHome home
  frames : ∀ frame ∈ scope.frames, frame.AtHome home

def Verdict.AtHome (home : LookupContext → Prop) : Verdict → Prop
  | .within frame => frame.AtHome home
  | .innerTypes owner => home (.type owner)
  | _ => True

namespace Table.FromHome

theorem empty : (∅ : Table String Member).FromHome home := by
  intro entry hentry
  simp at hentry

theorem insert {members : Table String Member} (h : members.FromHome home) (name : String) {member : Member}
    (howner : home (.type member.owner)) : (members.insert name member).FromHome home := by
  intro entry hentry
  rcases mem_entries_insert.1 hentry with rfl | ⟨-, hold⟩
  · exact howner
  · exact h entry hold

theorem insertAll {members base : Table String Member} (h : members.FromHome home) (hbase : base.FromHome home) :
    (members.insertAll base.entries).FromHome home := by
  intro entry hentry
  rw [entries_insertAll] at hentry
  rcases List.mem_append.1 hentry with hold | hnew
  · exact h entry hold
  · exact hbase entry (firsts_subset _ (List.mem_filter.1 hnew).1)

theorem of_get? {members : Table String Member} (h : members.FromHome home) {name : String} {member : Member}
    (hget : members.get? name = some member) : home (.type member.owner) :=
  h (name, member) (get?_eq_some_iff.1 hget)

end Table.FromHome

namespace Scope.AtHome

variable {scope : Scope}

theorem empty : Scope.empty.AtHome home := ⟨.empty, by simp [Scope.empty]⟩

theorem currentType? (h : scope.AtHome home) {opened : OpenType} (hcurrent : scope.currentType? = some opened) :
    home opened.headerContext ∧ home (.type opened.qualifiedName) := by
  obtain ⟨frame, hframe, heq⟩ := List.exists_of_findSome?_eq_some hcurrent
  have hhome := h.frames frame hframe
  cases frame with
  | type other =>
    obtain rfl : other = opened := Option.some.inj heq
    exact hhome
  | _ => simp at heq

theorem addMember (h : scope.AtHome home) (name : String) {member : Member} (howner : home (.type member.owner)) :
    (scope.addMember name member).AtHome home :=
  ⟨h.members.insert name howner, h.frames⟩

theorem declare (h : scope.AtHome home) {declared : Scope} {e : Element} {owner : String} (howner : home (.type owner))
    (hdeclare : scope.declare e owner = .ok declared) : declared.AtHome home := by
  unfold Scope.declare at hdeclare
  split at hdeclare
  · cases hdeclare
  · rw [← Except.ok.inj hdeclare]
    exact h.addMember _ howner

theorem judgeParam (h : scope.AtHome home) {judged : Scope} {param : Element}
    (hjudged : scope.judgeParam param = .accept judged) : judged.AtHome home := by
  have hdeclared {opened : OpenType} {declared : Scope} (hcurrent : scope.currentType? = some opened)
      (hdeclare : scope.declare param opened.qualifiedName = .ok declared) : declared.AtHome home :=
    h.declare (h.currentType? hcurrent).2 hdeclare
  unfold Scope.judgeParam at hjudged
  grind [eq_of_assignParam]

theorem judgeGate (h : scope.AtHome home) {judged : Scope} {gate : Element}
    (hjudged : scope.judgeGate gate = .accept judged) : judged.AtHome home := by
  have hdeclared {opened : OpenType} {declared : Scope} (hcurrent : scope.currentType? = some opened)
      (hdeclare : scope.declare gate opened.qualifiedName = .ok declared) : declared.AtHome home :=
    h.declare (h.currentType? hcurrent).2 hdeclare
  unfold Scope.judgeGate at hjudged
  grind [eq_of_useGate]

theorem enter {session : Session} (h : session.scope.AtHome home) {frame : Frame} (hframe : frame.AtHome home) :
    (session.enter frame).scope.AtHome home := by
  have hframes : ∀ other ∈ (session.enter frame).scope.frames, other.AtHome home := by
    rw [Session.enter_frames, List.forall_mem_cons]
    exact ⟨hframe, h.frames⟩
  cases frame with
  | type opened => exact ⟨.empty, hframes⟩
  | _ => exact ⟨h.members, hframes⟩

theorem leave {session : Session} (h : session.scope.AtHome home) (frame : Frame) :
    (session.leave frame).scope.AtHome home := by
  have hframes : ∀ other ∈ (session.leave frame).scope.frames, other.AtHome home := by
    rw [Session.leave_frames]
    exact fun other hother => h.frames other (List.mem_of_mem_tail hother)
  cases frame with
  | type opened => exact ⟨.empty, hframes⟩
  | _ => exact ⟨h.members, hframes⟩

end Scope.AtHome

theorem Scope.atHome_everywhere (scope : Scope) : scope.AtHome fun _ => True where
  members _ _ := trivial
  frames frame _ := by cases frame <;> simp [Frame.AtHome]

/-! ### Resolvers -/

/-- The same answer, and states that are alike. -/
def Matching (Alike : σ → σ → Prop) (left right : α × σ) : Prop := left.1 = right.1 ∧ Alike left.2 right.2

theorem Matching.exists_eq {left right : α × σ} (h : Matching Alike left right) :
    ∃ answer next other, left = (answer, next) ∧ right = (answer, other) ∧ Alike next other :=
  ⟨right.1, left.2, right.2, Prod.ext h.1 rfl, rfl, h.2⟩

/-- States that are alike answer alike on the project and to whatever is asked at home, and the answers have their members from home. -/
structure Resolver.Confined (resolver : Resolver σ) (project : String) (home : LookupContext → Prop)
    (Alike : σ → σ → Prop) : Prop where
  lookupType {context : LookupContext} {left right : σ} (name : String) : home context → Alike left right →
    Matching Alike (resolver.lookupType name context left) (resolver.lookupType name context right)
  members {context : LookupContext} {left right : σ} {name : String} {info : TypeInfo} : home context →
    Alike left right → (resolver.lookupType name context right).1 = some info → info.members.FromHome home
  lookupTopLevel {left right : σ} (qualifiedName : String) : Alike left right →
    Matching Alike (resolver.lookupTopLevel qualifiedName project left)
      (resolver.lookupTopLevel qualifiedName project right)
  expectedPackage? {left right : σ} (file : String) : Alike left right →
    Matching Alike (resolver.expectedPackage? file left) (resolver.expectedPackage? file right)
  qualifiedNames {left right : σ} : Alike left right →
    Matching Alike (resolver.qualifiedNames project left) (resolver.qualifiedNames project right)

/-- The same ruling but for the state, and what it leads to is at home. -/
structure Ruling.Matches (home : LookupContext → Prop) (Alike : σ → σ → Prop) (left right : Ruling σ) : Prop where
  answered : left.answered.1 = right.answered.1
  alike : Alike left.state right.state
  scope : right.session.scope.AtHome home
  verdict : right.verdict.AtHome home

/-- The same outcome but for the state, and the scope is at home. -/
structure Outcome.Matches (home : LookupContext → Prop) (Alike : σ → σ → Prop) (left right : Outcome σ) : Prop where
  answered : left.answered.1 = right.answered.1
  alike : Alike left.state right.state
  scope : right.session.scope.AtHome home

namespace Validator

variable {v : Validator σ} {e : Element} {session : Session} {left right : σ}

/-! ### Rules -/

section Rules

variable (hconfined : v.resolver.Confined v.project home Alike) (hscope : session.scope.AtHome home)
  (halike : Alike left right)

include hconfined halike

theorem matching_submoduleType? (submodule : Element) {context : LookupContext} (hcontext : home context) :
    Matching Alike (v.submoduleType? submodule context left) (v.submoduleType? submodule context right) := by
  have hlookup (name : String) := (hconfined.lookupType name hcontext halike).exists_eq
  unfold submoduleType?
  dsimp only
  split_ifs
  · obtain ⟨found, next, other, hleft, hright, hnext⟩ := hlookup (submodule.value "type")
    rw [hleft, hright]
    cases found <;> exact ⟨rfl, hnext⟩
  · obtain ⟨found, next, other, hleft, hright, hnext⟩ := hlookup (submodule.value "like-type")
    rw [hleft, hright]
    cases found <;> exact ⟨rfl, hnext⟩
  · exact ⟨rfl, halike⟩

theorem matching_channelType (spec : Element) {context : LookupContext} (hcontext : home context) :
    Matching Alike (v.channelType spec context left) (v.channelType spec context right) := by
  have hlookup (name : String) := (hconfined.lookupType name hcontext halike).exists_eq
  unfold channelType
  dsimp only
  split_ifs
  · obtain ⟨found, next, other, hleft, hright, hnext⟩ := hlookup (spec.value "type")
    rw [hleft, hright]
    cases found <;> exact ⟨rfl, hnext⟩
  · obtain ⟨found, next, other, hleft, hright, hnext⟩ := hlookup (spec.value "like-type")
    rw [hleft, hright]
    cases found <;> exact ⟨rfl, hnext⟩
  · obtain ⟨found, next, other, hleft, hright, hnext⟩ :=
      (hconfined.lookupTopLevel v.defaultChannelType halike).exists_eq
    rw [hleft, hright]
    cases found <;> exact ⟨rfl, hnext⟩

theorem matching_endpointProblems (connection : Element) (endpoint : Endpoint) {members : Table String Member}
    (hmembers : members.FromHome home) : Matching Alike (v.endpointProblems connection endpoint members left)
      (v.endpointProblems connection endpoint members right) := by
  have hgate (ref : EndpointRef) :
      Matching Alike (v.endpointGate ref members left) (v.endpointGate ref members right) := by
    unfold endpointGate
    split_ifs
    · split <;> exact ⟨rfl, halike⟩
    · cases hmember : (members.get? ref.submodule).filter Member.isSubmodule with
      | none => exact ⟨rfl, halike⟩
      | some member =>
        have howner := hmembers.of_get? (Option.eq_some_of_filter_eq_some hmember)
        obtain ⟨found, next, other, hleft, hright, hnext⟩ :=
          (matching_submoduleType? hconfined halike member.element howner).exists_eq
        dsimp only
        rw [hleft, hright]
        exact ⟨rfl, hnext⟩
  unfold endpointProblems
  obtain ⟨found, next, other, hleft, hright, hnext⟩ := (hgate (.read connection endpoint)).exists_eq
  dsimp only
  rw [hleft, hright]
  exact ⟨rfl, hnext⟩

include hscope

theorem matches_enterFile : (v.enterFile e session left).Matches home Alike (v.enterFile e session right) := by
  obtain ⟨expected, next, other, hleft, hright, hnext⟩ :=
    (hconfined.expectedPackage? (e.value "filename") halike).exists_eq
  simp only [enterFile, hleft, hright]
  exact ⟨rfl, hnext, hscope, trivial⟩

theorem matches_enterImport : (v.enterImport e session left).Matches home Alike (v.enterImport e session right) := by
  unfold enterImport
  by_cases hwildcard : isWildcardImport (e.value "import-spec") = true
  · obtain ⟨names, next, other, hleft, hright, hnext⟩ := (hconfined.qualifiedNames halike).exists_eq
    simp only [if_pos hwildcard, hleft, hright]
    exact ⟨rfl, hnext, hscope, trivial⟩
  · obtain ⟨found, next, other, hleft, hright, hnext⟩ :=
      (hconfined.lookupTopLevel (e.value "import-spec") halike).exists_eq
    simp only [if_neg hwildcard, hleft, hright]
    exact ⟨rfl, hnext, hscope, trivial⟩

theorem matches_enterExtends :
    (v.enterExtends e session left).Matches home Alike (v.enterExtends e session right) := by
  unfold enterExtends
  cases hcurrent : session.scope.currentType? with
  | none => exact ⟨rfl, halike, hscope, trivial⟩
  | some type =>
    have hheader := (hscope.currentType? hcurrent).1
    have hmembers (info : TypeInfo) (hfound : (v.resolver.lookupType e.name type.headerContext right).1 = some info) :=
      hconfined.members hheader halike hfound
    obtain ⟨found, next, other, hleft, hright, hnext⟩ := (hconfined.lookupType e.name hheader halike).exists_eq
    dsimp only
    rw [hright] at hmembers
    rw [hleft, hright]
    cases found with
    | none => exact ⟨rfl, hnext, hscope, trivial⟩
    | some base =>
      dsimp only
      split_ifs
      · exact ⟨rfl, hnext, hscope, trivial⟩
      · exact ⟨rfl, hnext, ⟨hscope.members.insertAll (hmembers base rfl), hscope.frames⟩, trivial⟩

theorem matches_enterInterfaceName :
    (v.enterInterfaceName e session left).Matches home Alike (v.enterInterfaceName e session right) := by
  unfold enterInterfaceName
  cases hcurrent : session.scope.currentType? with
  | none => exact ⟨rfl, halike, hscope, trivial⟩
  | some type =>
    obtain ⟨found, next, other, hleft, hright, hnext⟩ :=
      (hconfined.lookupType e.name (hscope.currentType? hcurrent).1 halike).exists_eq
    dsimp only
    rw [hleft, hright]
    cases found with
    | none => exact ⟨rfl, hnext, hscope, trivial⟩
    | some info =>
      dsimp only
      split_ifs <;> exact ⟨rfl, hnext, hscope, trivial⟩

theorem matches_enterSubmodule :
    (v.enterSubmodule e session left).Matches home Alike (v.enterSubmodule e session right) := by
  unfold enterSubmodule
  cases hcurrent : session.scope.currentType? with
  | none => exact ⟨rfl, halike, hscope, trivial⟩
  | some type =>
    have hbody := (hscope.currentType? hcurrent).2
    obtain ⟨found, next, other, hleft, hright, hnext⟩ := (matching_submoduleType? hconfined halike e hbody).exists_eq
    dsimp only
    rw [hleft, hright]
    cases hdeclare : session.scope.declare e type.qualifiedName with
    | error problem => rcases found with _ | (_ | _) <;> exact ⟨rfl, hnext, hscope, trivial⟩
    | ok declared =>
      have hdeclared := hscope.declare hbody hdeclare
      rcases found with _ | (_ | _) <;> exact ⟨rfl, hnext, hdeclared, trivial⟩

theorem matches_enterChannelSpec :
    (v.enterChannelSpec e session left).Matches home Alike (v.enterChannelSpec e session right) := by
  unfold enterChannelSpec
  cases hcurrent : session.scope.currentType? with
  | none => exact ⟨rfl, halike, hscope, trivial⟩
  | some type =>
    obtain ⟨found, next, other, hleft, hright, hnext⟩ :=
      (matching_channelType hconfined halike e (hscope.currentType? hcurrent).2).exists_eq
    dsimp only
    rw [hleft, hright]
    rcases found with _ | (_ | _) <;> exact ⟨rfl, hnext, hscope, trivial⟩

theorem matches_enterConnection :
    (v.enterConnection e session left).Matches home Alike (v.enterConnection e session right) := by
  unfold enterConnection
  cases session.scope.currentType? with
  | none => exact ⟨rfl, halike, hscope, trivial⟩
  | some type =>
    obtain ⟨source, next, other, hleft, hright, hnext⟩ :=
      (matching_endpointProblems hconfined halike e .source hscope.members).exists_eq
    obtain ⟨destination, last, another, hnextLeft, hnextRight, hlast⟩ :=
      (matching_endpointProblems hconfined hnext e .destination hscope.members).exists_eq
    dsimp only
    rw [hleft, hright]
    dsimp only
    rw [hnextLeft, hnextRight]
    split_ifs
    · exact ⟨rfl, halike, hscope, trivial⟩
    · exact ⟨rfl, hlast, hscope, trivial⟩

/-- The rules match, as long as the type that is entered, if one is, is at home. -/
theorem matches_enter (hentered : ∀ opened, v.typeEntered? ⟨e, session, right⟩ = some opened →
    (Frame.type opened).AtHome home) :
    (v.enter e session left).Matches home Alike (v.enter e session right) := by
  have hdecided (decision : Decision) (hjudged : ∀ scope, decision = .accept scope → scope.AtHome home) :
      (decided e session left decision).Matches home Alike (decided e session right decision) := by
    cases decision with
    | accept scope => exact ⟨rfl, halike, hjudged scope rfl, trivial⟩
    | _ => exact ⟨rfl, halike, hscope, trivial⟩
  have htype (hdeclaration : e.tag.isTypeDeclaration = true) :
      (enterType e session left).Matches home Alike (enterType e session right) := by
    cases hcurrent : session.scope.currentType? with
    | some type =>
      have hnested (state : σ) :
          enterType e session state = ⟨[], session, state, .fault (.nestedTypeScope e.name)⟩ := by
        rw [enterType, hcurrent]
        rfl
      rw [hnested, hnested]
      exact ⟨rfl, halike, hscope, trivial⟩
    | none =>
      have hopens (state : σ) : enterType e session state =
          ⟨[], session, state, .within (.type ⟨e, session.qualifiedName e.name, session.context⟩)⟩ := by
        rw [enterType, hcurrent]
        rfl
      rw [hopens, hopens]
      exact ⟨rfl, halike, hscope, hentered _ (typeEntered?_declaration hdeclaration hcurrent)⟩
  have htypes : (enterTypes session left).Matches home Alike (enterTypes session right) := by
    unfold enterTypes
    cases hcurrent : session.scope.currentType? with
    | none => exact ⟨rfl, halike, hscope, trivial⟩
    | some type => exact ⟨rfl, halike, hscope, (hscope.currentType? hcurrent).2⟩
  unfold enter
  split <;> rename_i htag
  · exact matches_enterFile hconfined hscope halike
  · exact matches_enterImport hconfined hscope halike
  · exact matches_enterExtends hconfined hscope halike
  · exact matches_enterInterfaceName hconfined hscope halike
  iterate 5 exact htype (by rw [htag]; rfl)
  · exact hdecided _ fun _ => hscope.judgeParam
  · exact hdecided _ fun _ => hscope.judgeGate
  · exact htypes
  · exact matches_enterSubmodule hconfined hscope halike
  · exact matches_enterConnection hconfined hscope halike
  · exact matches_enterChannelSpec hconfined hscope halike
  all_goals exact ⟨rfl, halike, hscope, trivial⟩

theorem matches_registerInner {owner : String} (howner : home (.type owner)) :
    (v.registerInner owner e session left).1 = (v.registerInner owner e session right).1 ∧
      Alike (v.registerInner owner e session left).2 (v.registerInner owner e session right).2 ∧
        (v.registerInner owner e session right).1.scope.AtHome home := by
  obtain ⟨found, next, other, hleft, hright, hnext⟩ := (hconfined.lookupType e.name howner halike).exists_eq
  unfold registerInner
  rw [hleft, hright]
  refine ⟨rfl, hnext, ?_⟩
  cases found with
  | none => exact hscope.addMember _ howner
  | some info => exact ⟨hscope.members.insert _ howner, hscope.frames⟩

end Rules

end Validator

/-! ### Going on -/

theorem Outcome.Matches.andThen {left right : Outcome σ} (h : left.Matches home Alike right)
    {next : Session → σ → Outcome σ} (hnext : right.fault = none →
      (next right.session left.state).Matches home Alike (next right.session right.state)) :
    (left.andThen next).Matches home Alike (right.andThen next) := by
  obtain ⟨reports, session, state, fault⟩ := left
  obtain ⟨hanswered, halike, hscope⟩ := h
  obtain ⟨rfl, rfl, rfl⟩ : reports = right.reports ∧ session = right.session ∧ fault = right.fault := by
    simpa [Outcome.answered] using hanswered
  cases hfault : right.fault with
  | some fault =>
    rw [Outcome.andThen_of_some hfault, Outcome.andThen_of_some rfl]
    exact ⟨by simp [Outcome.answered, hfault], halike, hscope⟩
  | none =>
    obtain ⟨hanswered, halike, hscope⟩ := hnext hfault
    rw [Outcome.andThen_of_none hfault, Outcome.andThen_of_none rfl]
    refine ⟨?_, halike, hscope⟩
    simpa [Outcome.answered] using hanswered

theorem Ruling.Matches.follow {left right : Ruling σ} (h : left.Matches home Alike right)
    {all : Session → σ → Outcome σ} {inner : String → Session → σ → Outcome σ}
    (hdescend : right.verdict = .descend →
      (all right.session left.state).Matches home Alike (all right.session right.state))
    (hwithin : ∀ frame, right.verdict = .within frame → (all (right.session.enter frame) left.state).Matches home Alike
      (all (right.session.enter frame) right.state))
    (hinner : ∀ owner, right.verdict = .innerTypes owner →
      (inner owner right.session left.state).Matches home Alike (inner owner right.session right.state)) :
    (left.follow all inner).Matches home Alike (right.follow all inner) := by
  obtain ⟨reports, session, state, verdict⟩ := left
  obtain ⟨hanswered, halike, hscope, -⟩ := h
  obtain ⟨rfl, rfl, rfl⟩ : reports = right.reports ∧ session = right.session ∧ verdict = right.verdict := by
    simpa [Ruling.answered] using hanswered
  unfold Ruling.follow
  cases hverdict : right.verdict with
  | fault fault => exact ⟨rfl, halike, hscope⟩
  | skip => exact ⟨rfl, halike, hscope⟩
  | descend =>
    obtain ⟨hbelow, hnext, hafter⟩ := hdescend hverdict
    refine ⟨?_, hnext, hafter⟩
    simpa [Outcome.answered] using hbelow
  | within frame =>
    obtain ⟨hbelow, hnext, hafter⟩ := hwithin frame hverdict
    refine ⟨?_, hnext, hafter.leave frame⟩
    simp only [Outcome.answered, Prod.mk.injEq] at hbelow
    simp [Outcome.answered, Outcome.leave, hbelow]
  | innerTypes owner =>
    obtain ⟨hbelow, hnext, hafter⟩ := hinner owner hverdict
    refine ⟨?_, hnext, hafter⟩
    simpa [Outcome.answered] using hbelow

/-! ### Walks -/

namespace Validator

variable {v : Validator σ} {session : Session} {left right : σ}

/-- The types that are entered at the points are at home. -/
def Admits (v : Validator σ) (home : LookupContext → Prop) (points : List (Point σ)) : Prop :=
  ∀ opened ∈ points.filterMap v.typeEntered?, (Frame.type opened).AtHome home

theorem admits_append {points later : List (Point σ)} :
    v.Admits home (points ++ later) ↔ v.Admits home points ∧ v.Admits home later := by
  simp only [Admits, List.filterMap_append, List.forall_mem_append]

theorem admits_cons {point : Point σ} {later : List (Point σ)} : v.Admits home (point :: later) ↔
    (∀ opened, v.typeEntered? point = some opened → (Frame.type opened).AtHome home) ∧ v.Admits home later := by
  unfold Admits
  rw [List.filterMap_cons]
  cases v.typeEntered? point <;> simp

/-- From any scope at home the walk over the element matches in states that are alike, as long as the types that it enters are at home. -/
def Confines (v : Validator σ) (home : LookupContext → Prop) (Alike : σ → σ → Prop) (e : Element) : Prop :=
  ∀ session left right, session.scope.AtHome home → Alike left right → v.Admits home (v.trace e session right) →
    (v.validate e session left).Matches home Alike (v.validate e session right)

theorem matches_validateAll {children : List Element} (h : ∀ child ∈ children, v.Confines home Alike child)
    (hscope : session.scope.AtHome home) (halike : Alike left right)
    (hadmits : v.Admits home (v.traceAll children session right)) :
    (v.validateAll children session left).Matches home Alike (v.validateAll children session right) := by
  induction children generalizing session left right with
  | nil =>
    rw [validateAll, validateAll]
    exact ⟨rfl, halike, hscope⟩
  | cons child rest ih =>
    rw [traceAll, admits_append] at hadmits
    have hchild := h child (by simp) session left right hscope halike hadmits.1
    rw [validateAll, validateAll]
    refine hchild.andThen fun hfault => ?_
    have hrest := hadmits.2
    rw [hfault] at hrest
    exact ih (fun other hother => h other (by simp [hother])) hchild.scope hchild.alike hrest

theorem matches_validateInner (hconfined : v.resolver.Confined v.project home Alike) {owner : String}
    (howner : home (.type owner)) {children : List Element} (h : ∀ child ∈ children, v.Confines home Alike child)
    (hscope : session.scope.AtHome home) (halike : Alike left right)
    (hadmits : v.Admits home (v.traceInner owner children session right)) :
    (v.validateInner owner children session left).Matches home Alike
      (v.validateInner owner children session right) := by
  induction children generalizing session left right with
  | nil =>
    rw [validateInner, validateInner]
    exact ⟨rfl, halike, hscope⟩
  | cons child rest ih =>
    have hothers := fun other (hother : other ∈ rest) => h other (by simp [hother])
    rw [traceInner] at hadmits
    rw [validateInner, validateInner]
    by_cases htype : child.tag.isTypeDeclaration = true
    · rw [if_pos htype, admits_append] at hadmits
      rw [if_pos htype, if_pos htype]
      obtain ⟨hanswered, hnext, -⟩ := h child (by simp) (session.inner owner) left right .empty halike hadmits.1
      -- the session of the inner type is dropped, and the one around it goes on
      have hdropped : ({ v.validate child (session.inner owner) left with session } : Outcome σ).Matches home Alike
          { v.validate child (session.inner owner) right with session } := by
        refine ⟨?_, hnext, hscope⟩
        simp only [Outcome.answered, Prod.mk.injEq] at hanswered
        simp [Outcome.answered, hanswered]
      refine hdropped.andThen fun (hfault : (v.validate child (session.inner owner) right).fault = none) => ?_
      obtain ⟨hregistered, hlast, hafter⟩ := matches_registerInner (e := child) hconfined hscope hnext howner
      have hrest := hadmits.2
      rw [hfault] at hrest
      dsimp only
      rw [hregistered]
      exact ih hothers hafter hlast hrest
    · rw [if_neg htype] at hadmits
      rw [if_neg htype, if_neg htype]
      exact ih hothers hscope halike hadmits

theorem confines (hconfined : v.resolver.Confined v.project home Alike) (e : Element) : v.Confines home Alike e := by
  induction e using Element.induction with
  | step e ih =>
    intro session left right hscope halike hadmits
    rw [trace_eq, admits_cons] at hadmits
    obtain ⟨hentered, hbelow⟩ := hadmits
    have hruling := matches_enter hconfined hscope halike hentered
    rw [validate_eq, validate_eq]
    refine hruling.follow ?_ ?_ ?_
    · intro hverdict
      rw [traceBelow_of_descend hverdict] at hbelow
      exact matches_validateAll ih hruling.scope hruling.alike hbelow
    · intro frame hverdict
      have hframe := hruling.verdict
      rw [hverdict] at hframe
      rw [traceBelow_of_within hverdict] at hbelow
      exact matches_validateAll ih (hruling.scope.enter hframe) hruling.alike hbelow
    · intro owner hverdict
      have howner := hruling.verdict
      rw [hverdict] at howner
      rw [traceBelow_of_innerTypes hverdict] at hbelow
      exact matches_validateInner hconfined howner ih hruling.scope hruling.alike hbelow

end Validator

/-- Files are checked alike, as long as the types that are entered are at home. -/
theorem checkFile_matches {resolver : Resolver σ} {project : String} (hconfined : resolver.Confined project home Alike)
    {root : Element} {left right : σ} (halike : Alike left right)
    (hentered : ∀ opened ∈ (Validator.standard resolver project).entered root .initial right,
      (Frame.type opened).AtHome home) :
    Matching Alike (checkFile resolver project root left) (checkFile resolver project root right) := by
  have hconfines := Validator.confines (v := .standard resolver project) hconfined root
  obtain ⟨hanswered, hnext, -⟩ := hconfines .initial left right .empty halike hentered
  simp only [Outcome.answered, Prod.mk.injEq] at hanswered
  unfold checkFile validateTree Outcome.diagnostics
  dsimp only
  rw [hanswered.2.2, hanswered.1]
  cases ((Validator.standard resolver project).validate root .initial right).fault <;> exact ⟨rfl, hnext⟩

end NedCheck
