import NedCheck.Proofs.TypeIndex.Stripping
import NedCheck.Proofs.Validation.Clean

/-!
# Files without their asides

No rule looks at an aside. A walk over a stripped tree, from a stripped session and with a resolver that answers with stripped types, takes the steps of the walk over the whole tree but for those at asides, and has the stripped outcome: the same reports, on the stripped elements. An aside holds nothing but kinds without a rule, as long as the tree fits the schema, so nothing is lost with it.

The diagnostics keep nothing of an element that stripping takes away. So the files of a project are checked alike with their asides and without.
-/

namespace NedCheck

variable {σ : Type}

theorem Tag.isIdle_of_isAside {tag : Tag} (h : tag.isAside = true) : tag.isIdle = true := by
  have all : ∀ tag ∈ Tag.all, tag.isAside = true → tag.isIdle = true := by decide
  exact all tag (mem_all tag) h

/-! ### What a walk goes by -/

def OpenType.strip (opened : OpenType) : OpenType := { opened with element := opened.element.strip }

def Frame.strip : Frame → Frame
  | .type opened => .type opened.strip
  | .submodule element resolved => .submodule element.strip (resolved.map TypeInfo.strip)
  | .channelSpec element resolved => .channelSpec element.strip (resolved.map TypeInfo.strip)

def Scope.strip (scope : Scope) : Scope where
  members := scope.members.mapValues Member.strip
  innerTypes := scope.innerTypes.mapValues TypeInfo.strip
  frames := scope.frames.map Frame.strip

def Session.strip (session : Session) : Session := { session with scope := session.scope.strip }

def Decision.strip : Decision → Decision
  | .fault cause => .fault cause
  | .reject problem => .reject problem
  | .accept scope => .accept scope.strip

def Verdict.strip : Verdict → Verdict
  | .fault cause => .fault cause
  | .skip => .skip
  | .descend => .descend
  | .within frame => .within frame.strip
  | .innerTypes owner => .innerTypes owner

def Report.strip (report : Report) : Report := { report with element := report.element.strip }

def Ruling.strip (stripState : σ → σ) (ruling : Ruling σ) : Ruling σ :=
  ⟨ruling.reports.map Report.strip, ruling.session.strip, stripState ruling.state, ruling.verdict.strip⟩

def Outcome.strip (stripState : σ → σ) (outcome : Outcome σ) : Outcome σ :=
  ⟨outcome.reports.map Report.strip, outcome.session.strip, stripState outcome.state, outcome.fault⟩

@[simp] theorem Report.diagnostic_strip (report : Report) : report.strip.diagnostic = report.diagnostic := by
  rw [diagnostic, diagnostic, Diagnostic.onElement, Diagnostic.onElement, strip, Element.subject_strip, Element.line_strip]

theorem Member.filter_map_strip {property : Member → Bool} (hstrip : ∀ member, property member.strip = property member)
    (found : Option Member) : (found.map strip).filter property = (found.filter property).map strip := by
  cases found with
  | none => rfl
  | some member =>
    rw [Option.map_some, Option.filter_some, Option.filter_some, hstrip]
    split_ifs <;> rfl

namespace TypeInfo

variable (info : TypeInfo) (name : String)

@[simp] theorem paramDeclaration?_strip :
    info.strip.paramDeclaration? name = (info.paramDeclaration? name).map Element.strip := by
  rw [paramDeclaration?, member?_strip, Member.filter_map_strip Member.isParamDeclaration_strip, paramDeclaration?,
    Option.map_map, Option.map_map]
  rfl

@[simp] theorem gateDeclaration?_strip :
    info.strip.gateDeclaration? name = (info.gateDeclaration? name).map Element.strip := by
  rw [gateDeclaration?, member?_strip, Member.filter_map_strip Member.isGateDeclaration_strip, gateDeclaration?,
    Option.map_map, Option.map_map]
  rfl

end TypeInfo

/-! ### Scopes -/

namespace Scope

variable (scope : Scope)

theorem frames_strip : scope.strip.frames = scope.frames.map Frame.strip := rfl

theorem get?_members_strip (name : String) :
    scope.strip.members.get? name = (scope.members.get? name).map Member.strip :=
  Table.get?_mapValues Member.strip scope.members name

theorem currentType?_strip : scope.strip.currentType? = scope.currentType?.map OpenType.strip := by
  unfold currentType? strip
  induction scope.frames with
  | nil => rfl
  | cons frame rest ih => cases frame <;> simp_all [Frame.strip]

theorem strip_addMember (name : String) (member : Member) :
    (scope.addMember name member).strip = scope.strip.addMember name member.strip := by
  rw [addMember, strip, Table.mapValues_insert]
  rfl

theorem strip_addInnerType (name : String) (info : TypeInfo) :
    (scope.addInnerType name info).strip = scope.strip.addInnerType name info.strip := by
  rw [addInnerType, strip, Table.mapValues_insert]
  rfl

theorem declare_strip (e : Element) (owner : String) :
    scope.strip.declare e.strip owner = (scope.declare e owner).map strip := by
  rw [declare, declare, Element.name_strip, get?_members_strip]
  cases scope.members.get? e.name with
  | some existing => simp [Except.map, Member.strip]
  | none =>
    have hadded := scope.strip_addMember e.name ⟨e, owner⟩
    simp [Except.map, hadded, Member.strip]

theorem conflicts_strip (base : TypeInfo) : scope.strip.conflicts base.strip = scope.conflicts base := by
  have hcontains : scope.strip.members.contains = scope.members.contains :=
    funext (Table.contains_mapValues Member.strip scope.members)
  rw [conflicts, hcontains, TypeInfo.strip, Table.keys_mapValues, conflicts]

theorem strip_inherit (base : TypeInfo) : (scope.inherit base).strip = scope.strip.inherit base.strip := by
  rw [inherit, strip, Table.mapValues_insertAll]
  rfl

/-! ### Parameters and gates -/

theorem assignParam_strip (param : Element) : scope.strip.assignParam param.strip = (scope.assignParam param).strip := by
  have hbody : (scope.strip.members.get? param.name).any Member.isParamDeclaration =
      (scope.members.get? param.name).any Member.isParamDeclaration := by
    rw [get?_members_strip]
    cases scope.members.get? param.name <;> simp
  unfold assignParam
  rw [frames_strip, Element.name_strip, hbody]
  rcases scope.frames with _ | ⟨_ | ⟨_, _ | info⟩ | ⟨_, _ | info⟩, outer⟩ <;>
    simp only [List.map_nil, List.map_cons, Frame.strip, Option.map_none, Option.map_some,
      TypeInfo.paramDeclaration?_strip, Option.isSome_map]
  -- where the type is unknown the parameter is rejected either way
  case cons.submodule.none => rfl
  case cons.channelSpec.none => rfl
  all_goals split_ifs <;> rfl

theorem judgeParam_strip (param : Element) : scope.strip.judgeParam param.strip = (scope.judgeParam param).strip := by
  unfold judgeParam
  rw [Element.paramType_strip, frames_strip, Element.name_strip, currentType?_strip]
  split_ifs
  · exact scope.assignParam_strip param
  · rcases scope.frames with _ | ⟨_ | _ | _, outer⟩
    case cons.submodule => rfl
    case cons.channelSpec => rfl
    all_goals
      cases scope.currentType? with
      | none => rfl
      | some type =>
        simp only [List.map_nil, List.map_cons, Frame.strip, Option.map_some, OpenType.strip, declare_strip]
        cases scope.declare param type.qualifiedName with
        | error problem => rfl
        | ok declared => exact declared.assignParam_strip param

theorem gateDeclaration_strip (gate : Element) :
    scope.strip.gateDeclaration gate.strip = (scope.gateDeclaration gate).map Element.strip := by
  have hbody : ((scope.strip.members.get? gate.name).filter Member.isGateDeclaration).map (·.element) =
      (((scope.members.get? gate.name).filter Member.isGateDeclaration).map (·.element)).map Element.strip := by
    rw [get?_members_strip, Member.filter_map_strip Member.isGateDeclaration_strip, Option.map_map, Option.map_map]
    rfl
  unfold gateDeclaration
  rw [frames_strip, Element.name_strip, hbody]
  rcases scope.frames with _ | ⟨_ | ⟨_, _ | info⟩ | _, outer⟩ <;>
    simp only [List.map_nil, List.map_cons, Frame.strip, Option.map_none, Option.map_some,
      TypeInfo.gateDeclaration?_strip]
  case cons.submodule.none => rfl
  case cons.submodule.some => cases info.gateDeclaration? gate.name <;> rfl
  all_goals cases ((scope.members.get? gate.name).filter Member.isGateDeclaration).map (·.element) <;> rfl

theorem useGate_strip (gate : Element) : scope.strip.useGate gate.strip = (scope.useGate gate).strip := by
  rw [useGate, useGate, gateDeclaration_strip]
  cases scope.gateDeclaration gate with
  | error problem => rfl
  | ok declaration =>
    simp only [Except.map, Element.isVector_strip, Element.name_strip, Element.describeLocation_strip]
    split_ifs <;> rfl

theorem judgeGate_strip (gate : Element) : scope.strip.judgeGate gate.strip = (scope.judgeGate gate).strip := by
  unfold judgeGate
  rw [Element.gateType_strip, frames_strip, Element.name_strip, currentType?_strip]
  split_ifs
  · exact scope.useGate_strip gate
  · rcases scope.frames with _ | ⟨_ | _ | _, outer⟩
    case cons.submodule => rfl
    all_goals
      cases scope.currentType? with
      | none => rfl
      | some type =>
        simp only [List.map_nil, List.map_cons, Frame.strip, Option.map_some, OpenType.strip, declare_strip]
        cases scope.declare gate type.qualifiedName with
        | error problem => rfl
        | ok declared => exact declared.useGate_strip gate

end Scope

/-! ### Sessions -/

namespace Session

variable (session : Session)

@[simp] theorem strip_inner (owner : String) : (session.inner owner).strip = session.strip.inner owner := rfl

theorem strip_enter (frame : Frame) : (session.enter frame).strip = session.strip.enter frame.strip := by
  cases frame <;> rfl

theorem strip_leave (frame : Frame) : (session.leave frame).strip = session.strip.leave frame.strip := by
  have hpop : session.scope.pop.strip = session.scope.strip.pop := by
    rw [Scope.pop, Scope.pop, Scope.frames_strip, ← List.map_tail]
    rfl
  cases frame with
  | type opened => exact congrArg (fun scope => session.withScope scope.clear) hpop
  | submodule element resolved => exact congrArg session.withScope hpop
  | channelSpec element resolved => exact congrArg session.withScope hpop

end Session

/-! ### Rules -/

/-- The resolver answers with stripped types in stripped states, and goes on in stripped states. -/
structure Resolver.Strips (resolver : Resolver σ) (stripState : σ → σ) : Prop where
  lookupType (name : String) (context : LookupContext) (state : σ) :
    resolver.lookupType name context (stripState state) =
      ((resolver.lookupType name context state).1.map TypeInfo.strip,
        stripState (resolver.lookupType name context state).2)
  lookupTopLevel (qualifiedName project : String) (state : σ) :
    resolver.lookupTopLevel qualifiedName project (stripState state) =
      ((resolver.lookupTopLevel qualifiedName project state).1.map TypeInfo.strip,
        stripState (resolver.lookupTopLevel qualifiedName project state).2)
  expectedPackage? (file : String) (state : σ) :
    resolver.expectedPackage? file (stripState state) =
      ((resolver.expectedPackage? file state).1, stripState (resolver.expectedPackage? file state).2)
  qualifiedNames (project : String) (state : σ) :
    resolver.qualifiedNames project (stripState state) =
      ((resolver.qualifiedNames project state).1, stripState (resolver.qualifiedNames project state).2)

theorem exists_answers {α β : Type} {stripState : σ → σ} {stripAnswer : α → β} {whole : α × σ} {stripped : β × σ}
    (h : stripped = (stripAnswer whole.1, stripState whole.2)) :
    ∃ answer next, whole = (answer, next) ∧ stripped = (stripAnswer answer, stripState next) :=
  ⟨whole.1, whole.2, rfl, h⟩

theorem exists_same_answers {α : Type} {stripState : σ → σ} {whole stripped : α × σ}
    (h : stripped = (whole.1, stripState whole.2)) :
    ∃ answer next, whole = (answer, next) ∧ stripped = (answer, stripState next) :=
  ⟨whole.1, whole.2, rfl, h⟩

/-- The answer about a type that is looked for and has to be of a wanted kind. -/
def judged {α : Type} (wrap : Except Problem TypeInfo → α) (wanted : Tag → Prop) [DecidablePred wanted]
    (missing mismatch : Problem) : Option TypeInfo × σ → α × σ
  | (none, state) => (wrap (.error missing), state)
  | (some info, state) => (wrap (if wanted info.tag then .ok info else .error mismatch), state)

theorem judged_strip {α : Type} {stripState : σ → σ} {whole stripped : Option TypeInfo × σ}
    (h : stripped = (whole.1.map TypeInfo.strip, stripState whole.2)) (wrap : Except Problem TypeInfo → α)
    {stripAnswer : α → α} (hwrap : ∀ found, stripAnswer (wrap found) = wrap (found.map TypeInfo.strip))
    (wanted : Tag → Prop) [DecidablePred wanted] (missing mismatch : Problem) :
    judged wrap wanted missing mismatch stripped =
      (stripAnswer (judged wrap wanted missing mismatch whole).1,
        stripState (judged wrap wanted missing mismatch whole).2) := by
  obtain ⟨_ | info, state⟩ := whole
  · rw [h, judged, hwrap]
    rfl
  · rw [h, judged, hwrap]
    simp only [Option.map_some, judged, TypeInfo.tag_strip]
    split_ifs <;> rfl

theorem TypeIndex.strips_resolver : resolver.Strips strip where
  lookupType name context index := index.lookupType_strip name context
  lookupTopLevel qualifiedName project index := index.lookupTopLevel_strip qualifiedName project
  expectedPackage? _ _ := rfl
  qualifiedNames project index := congrArg (·, index.strip) (index.qualifiedNames_strip project)

namespace Validator

variable {v : Validator σ} {stripState : σ → σ}

section Rules

variable (hstrips : v.resolver.Strips stripState) (e : Element) (session : Session) (state : σ)

include hstrips

theorem submoduleType?_strip (context : LookupContext) : v.submoduleType? e.strip context (stripState state) =
    ((v.submoduleType? e context state).1.map fun found => found.map TypeInfo.strip,
      stripState (v.submoduleType? e context state).2) := by
  unfold submoduleType?
  simp only [Element.value_strip]
  split_ifs
  · exact judged_strip (hstrips.lookupType _ context state) some (fun _ => rfl) (·.isModuleType = true) _ _
  · exact judged_strip (hstrips.lookupType _ context state) some (fun _ => rfl) (· = .moduleInterface) _ _
  · rfl

theorem channelType_strip (context : LookupContext) : v.channelType e.strip context (stripState state) =
    ((v.channelType e context state).1.map fun found => found.map TypeInfo.strip,
      stripState (v.channelType e context state).2) := by
  unfold channelType
  simp only [Element.value_strip]
  split_ifs
  · exact judged_strip (hstrips.lookupType _ context state) Except.ok (fun _ => rfl) (· = .channel) _ _
  · exact judged_strip (hstrips.lookupType _ context state) Except.ok (fun _ => rfl) (· = .channelInterface) _ _
  · obtain ⟨_ | info, next, hwhole, hstripped⟩ :=
      exists_answers (hstrips.lookupTopLevel v.defaultChannelType v.project state)
    · rw [hwhole, hstripped]
      rfl
    · rw [hwhole, hstripped]
      rfl

theorem endpointGate_strip (ref : EndpointRef) (members : Table String Member) :
    v.endpointGate ref (members.mapValues Member.strip) (stripState state) =
      (((v.endpointGate ref members state).1.1, (v.endpointGate ref members state).1.2.map Element.strip),
        stripState (v.endpointGate ref members state).2) := by
  unfold endpointGate
  split_ifs
  · rw [Table.get?_mapValues, Member.filter_map_strip Member.isGateDeclaration_strip]
    cases (members.get? ref.gate).filter Member.isGateDeclaration <;> rfl
  · rw [Table.get?_mapValues, Member.filter_map_strip Member.isSubmodule_strip]
    cases (members.get? ref.submodule).filter Member.isSubmodule with
    | none => rfl
    | some member =>
      obtain ⟨found, next, hwhole, hstripped⟩ :=
        exists_answers (submoduleType?_strip hstrips member.element state (.type member.owner))
      simp only [Option.map_some, Member.strip, hwhole, hstripped, EndpointRef.submoduleIndexProblems, Element.value_strip]
      rcases found with _ | (_ | info)
      · rfl
      · rfl
      · simp only [Option.map_some, Except.map, Option.bind_some, Except.toOption, TypeInfo.gateDeclaration?_strip]
        cases info.gateDeclaration? ref.gate <;> rfl

theorem endpointProblems_strip (endpoint : Endpoint) (members : Table String Member) :
    v.endpointProblems e.strip endpoint (members.mapValues Member.strip) (stripState state) =
      ((v.endpointProblems e endpoint members state).1, stripState (v.endpointProblems e endpoint members state).2) := by
  have hread : EndpointRef.read e.strip endpoint = .read e endpoint := by
    simp only [EndpointRef.read, Element.value_strip]
  have hgate := endpointGate_strip hstrips state (.read e endpoint) members
  unfold endpointProblems
  simp only [hread, hgate, Element.value_strip]
  cases (v.endpointGate (.read e endpoint) members state).1.2 with
  | error problem => rfl
  | ok declaration => simp [Except.map, EndpointRef.gateProblems]

theorem enterFile_strip :
    v.enterFile e.strip session.strip (stripState state) = (v.enterFile e session state).strip stripState := by
  obtain ⟨expected, next, hwhole, hstripped⟩ := exists_same_answers
    (hstrips.expectedPackage? (e.value "filename") state)
  simp only [enterFile, Element.value_strip, Element.packageName_strip, Element.importSpecs_strip, hwhole, hstripped,
    Element.firstChild?_strip (show Tag.isAside .package = false from rfl)]
  cases expected with
  | none => rfl
  | some expected =>
    dsimp only
    split_ifs
    · rfl
    · cases e.firstChild? .package <;> rfl

theorem enterImport_strip (hsilent : v.hooks = .silent) :
    v.enterImport e.strip session.strip (stripState state) = (v.enterImport e session state).strip stripState := by
  unfold enterImport
  simp only [Element.value_strip, hsilent]
  by_cases hwildcard : isWildcardImport (e.value "import-spec") = true
  · obtain ⟨names, next, hwhole, hstripped⟩ := exists_same_answers (hstrips.qualifiedNames v.project state)
    simp only [if_pos hwildcard, hwhole, hstripped]
    split_ifs <;> rfl
  · obtain ⟨found, next, hwhole, hstripped⟩ :=
      exists_answers (hstrips.lookupTopLevel (e.value "import-spec") v.project state)
    simp only [if_neg hwildcard, hwhole, hstripped, Option.isSome_map]
    split_ifs <;> rfl

theorem enterExtends_strip (hsilent : v.hooks = .silent) :
    v.enterExtends e.strip session.strip (stripState state) = (v.enterExtends e session state).strip stripState := by
  unfold enterExtends
  simp only [Session.strip, Scope.currentType?_strip, hsilent]
  cases session.scope.currentType? with
  | none => rfl
  | some type =>
    obtain ⟨_ | base, next, hwhole, hstripped⟩ := exists_answers (hstrips.lookupType e.name type.headerContext state)
    · simp only [Option.map_some, OpenType.strip, Element.name_strip, hwhole, hstripped, Option.map_none]
      rfl
    · simp only [Option.map_some, OpenType.strip, Element.name_strip, Element.tag_strip, TypeInfo.tag_strip, hwhole, hstripped,
        Scope.conflicts_strip]
      split_ifs
      · rfl
      · simp [Ruling.strip, hookReports, Hooks.silent, Report.strip, Function.comp_def, Scope.strip_inherit, Session.strip,
          Session.withScope, Verdict.strip]

theorem enterInterfaceName_strip (hsilent : v.hooks = .silent) :
    v.enterInterfaceName e.strip session.strip (stripState state) =
      (v.enterInterfaceName e session state).strip stripState := by
  unfold enterInterfaceName
  simp only [Session.strip, Scope.currentType?_strip, hsilent]
  cases session.scope.currentType? with
  | none => rfl
  | some type =>
    obtain ⟨_ | info, next, hwhole, hstripped⟩ := exists_answers (hstrips.lookupType e.name type.headerContext state)
    · simp only [Option.map_some, OpenType.strip, Element.name_strip, hwhole, hstripped, Option.map_none]
      rfl
    · simp only [Option.map_some, OpenType.strip, Element.name_strip, Element.tag_strip, TypeInfo.tag_strip, hwhole, hstripped]
      split_ifs <;> rfl

theorem enterSubmodule_strip :
    v.enterSubmodule e.strip session.strip (stripState state) = (v.enterSubmodule e session state).strip stripState := by
  unfold enterSubmodule
  simp only [Session.strip, Scope.currentType?_strip]
  cases session.scope.currentType? with
  | none => rfl
  | some type =>
    obtain ⟨found, next, hwhole, hstripped⟩ := exists_answers (submoduleType?_strip hstrips e state (.type type.qualifiedName))
    simp only [Option.map_some, OpenType.strip, Scope.declare_strip, Element.name_strip, hwhole, hstripped]
    cases session.scope.declare e type.qualifiedName <;> rcases found with _ | (_ | _) <;> rfl

theorem enterChannelSpec_strip :
    v.enterChannelSpec e.strip session.strip (stripState state) = (v.enterChannelSpec e session state).strip stripState := by
  unfold enterChannelSpec
  simp only [Session.strip, Scope.currentType?_strip]
  cases session.scope.currentType? with
  | none => rfl
  | some type =>
    obtain ⟨found, next, hwhole, hstripped⟩ := exists_answers (channelType_strip hstrips e state (.type type.qualifiedName))
    simp only [Option.map_some, OpenType.strip, hwhole, hstripped]
    rcases found with _ | (_ | _) <;> rfl

theorem enterConnection_strip :
    v.enterConnection e.strip session.strip (stripState state) = (v.enterConnection e session state).strip stripState := by
  unfold enterConnection
  simp only [Session.strip, Scope.currentType?_strip]
  cases session.scope.currentType? with
  | none => rfl
  | some type =>
    have hmembers : session.scope.strip.members = session.scope.members.mapValues Member.strip := rfl
    obtain ⟨source, next, hwhole, hstripped⟩ := exists_same_answers
      (endpointProblems_strip hstrips e state .source session.scope.members)
    obtain ⟨destination, last, hwhole', hstripped'⟩ := exists_same_answers
      (endpointProblems_strip hstrips e next .destination session.scope.members)
    simp only [Option.map_some, OpenType.strip, Element.tag_strip, hmembers, hwhole, hstripped, hwhole', hstripped']
    split_ifs
    · rfl
    · simp [Ruling.strip, Report.strip, Function.comp_def, Session.strip, Verdict.strip]

/-- Every rule rules on a stripped element as on the whole one. -/
theorem enter_strip (hsilent : v.hooks = .silent) :
    v.enter e.strip session.strip (stripState state) = (v.enter e session state).strip stripState := by
  have hdecided (decision : Decision) : decided e.strip session.strip (stripState state) decision.strip =
      (decided e session state decision).strip stripState := by
    cases decision <;> rfl
  have htype : enterType e.strip session.strip (stripState state) = (enterType e session state).strip stripState := by
    simp only [enterType, Session.strip, Scope.currentType?_strip, Option.isSome_map, Element.name_strip]
    split_ifs <;> rfl
  have htypes : enterTypes session.strip (stripState state) = (enterTypes session state).strip stripState := by
    simp only [enterTypes, Session.strip, Scope.currentType?_strip]
    cases session.scope.currentType? <;> rfl
  have hparam : session.strip.scope.judgeParam e.strip = (session.scope.judgeParam e).strip :=
    session.scope.judgeParam_strip e
  have hgate : session.strip.scope.judgeGate e.strip = (session.scope.judgeGate e).strip :=
    session.scope.judgeGate_strip e
  unfold enter
  rw [Element.tag_strip, hparam, hgate]
  split
  · exact enterFile_strip hstrips e session state
  · exact enterImport_strip hstrips e session state hsilent
  · exact enterExtends_strip hstrips e session state hsilent
  · exact enterInterfaceName_strip hstrips e session state hsilent
  iterate 5 exact htype
  · exact hdecided _
  · exact hdecided _
  · exact htypes
  · exact enterSubmodule_strip hstrips e session state
  · exact enterConnection_strip hstrips e session state
  · exact enterChannelSpec_strip hstrips e session state
  all_goals rfl

theorem registerInner_strip (owner : String) : v.registerInner owner e.strip session.strip (stripState state) =
    ((v.registerInner owner e session state).1.strip, stripState (v.registerInner owner e session state).2) := by
  obtain ⟨found, next, hwhole, hstripped⟩ := exists_answers (hstrips.lookupType e.name (.type owner) state)
  simp only [registerInner, Element.name_strip, hwhole, hstripped]
  cases found with
  | none => simp [Session.strip, Session.withScope, Scope.strip_addMember, Member.strip]
  | some info => simp [Session.strip, Session.withScope, Scope.strip_addMember, Scope.strip_addInnerType, Member.strip]

end Rules

end Validator

/-! ### Walks -/

section Walks

variable {stripState : σ → σ}

theorem Outcome.andThen_strip (outcome : Outcome σ) {next nextStripped : Session → σ → Outcome σ}
    (hnext : ∀ session state, nextStripped session.strip (stripState state) = (next session state).strip stripState) :
    (outcome.strip stripState).andThen nextStripped = (outcome.andThen next).strip stripState := by
  obtain ⟨reports, session, state, _ | fault⟩ := outcome
  · simp only [strip, andThen, hnext, after, List.map_append]
  · rfl

theorem Ruling.follow_strip (ruling : Ruling σ) {all allStripped : Session → σ → Outcome σ}
    {inner innerStripped : String → Session → σ → Outcome σ}
    (hall : ∀ session state, allStripped session.strip (stripState state) = (all session state).strip stripState)
    (hinner : ∀ owner session state,
      innerStripped owner session.strip (stripState state) = (inner owner session state).strip stripState) :
    (ruling.strip stripState).follow allStripped innerStripped = (ruling.follow all inner).strip stripState := by
  obtain ⟨reports, session, state, verdict⟩ := ruling
  cases verdict with
  | fault fault => simp [strip, follow, Verdict.strip, Outcome.strip, Outcome.after]
  | skip => simp [strip, follow, Verdict.strip, Outcome.strip, Outcome.after]
  | descend => simp [strip, follow, Verdict.strip, hall, Outcome.strip, Outcome.after]
  | within frame =>
    simp [strip, follow, Verdict.strip, ← Session.strip_enter, hall, Outcome.strip, Outcome.after, Outcome.leave,
      Session.strip_leave]
  | innerTypes owner => simp [strip, follow, Verdict.strip, hinner, Outcome.strip, Outcome.after]

namespace Validator

variable {v : Validator σ}

/-- From every session the walk over the stripped element has the stripped outcome. -/
def WalksStripped (v : Validator σ) (stripState : σ → σ) (e : Element) : Prop :=
  ∀ session state, v.validate e.strip session.strip (stripState state) = (v.validate e session state).strip stripState

/-- An aside is passed by, and so nothing is lost with it. -/
theorem validateAll_strip {children : List Element} (h : ∀ child ∈ children, v.WalksStripped stripState child)
    (hidle : ∀ child ∈ children, child.tag.isAside = true → child.Idle) (session : Session) (state : σ) :
    v.validateAll (Element.stripAll children) session.strip (stripState state) =
      (v.validateAll children session state).strip stripState := by
  induction children generalizing session state with
  | nil =>
    rw [Element.stripAll, validateAll, validateAll]
    rfl
  | cons child rest ih =>
    have hrest := ih (fun other hother => h other (by simp [hother])) (fun other hother => hidle other (by simp [hother]))
    rw [Element.stripAll, validateAll]
    cases haside : child.tag.isAside with
    | true =>
      have hpassed := v.validate_of_idle (hidle child (by simp) haside) session state
      rw [if_pos rfl, hrest, hpassed]
      rfl
    | false =>
      rw [if_neg Bool.false_ne_true, validateAll, h child (by simp)]
      exact Outcome.andThen_strip _ hrest

theorem validateInner_strip (hstrips : v.resolver.Strips stripState) (owner : String) {children : List Element}
    (h : ∀ child ∈ children, v.WalksStripped stripState child) (session : Session) (state : σ) :
    v.validateInner owner (Element.stripAll children) session.strip (stripState state) =
      (v.validateInner owner children session state).strip stripState := by
  induction children generalizing session state with
  | nil =>
    rw [Element.stripAll, validateInner, validateInner]
    rfl
  | cons child rest ih =>
    have hrest := ih fun other hother => h other (by simp [hother])
    rw [Element.stripAll, validateInner]
    cases htype : child.tag.isTypeDeclaration with
    | false =>
      rw [if_neg Bool.false_ne_true, ← hrest]
      split_ifs
      · rfl
      · rw [validateInner, Element.tag_strip, htype, if_neg Bool.false_ne_true]
    | true =>
      rw [if_neg (by simp [Tag.isAside_of_isTypeDeclaration htype]), validateInner, Element.tag_strip, htype, if_pos rfl,
        if_pos rfl]
      have hchild := h child (by simp) (session.inner owner) state
      rw [Session.strip_inner] at hchild
      rw [hchild]
      refine Outcome.andThen_strip { v.validate child (session.inner owner) state with session } fun session state => ?_
      simp only [registerInner_strip hstrips]
      exact hrest _ _

/-- A walk over a stripped tree has the stripped outcome. -/
theorem walksStripped (hstrips : v.resolver.Strips stripState) (hsilent : v.hooks = .silent) {e : Element}
    (hplaced : e.Placed) : v.WalksStripped stripState e := by
  induction e using Element.induction with
  | step e ih =>
    intro session state
    have hchildren (child : Element) (hchild : child ∈ e.children) := ih child hchild (hplaced.child hchild)
    have hidle (child : Element) (hchild : child ∈ e.children) (haside : child.tag.isAside = true) : child.Idle :=
      (hplaced.child hchild).idle (Tag.isIdle_of_isAside haside)
    rw [validate_eq, validate_eq, enter_strip hstrips e session state hsilent, Element.children_strip]
    exact Ruling.follow_strip _ (validateAll_strip hchildren hidle) fun owner => validateInner_strip hstrips owner hchildren

end Validator

theorem checkFile_strip {resolver : Resolver σ} (hstrips : resolver.Strips stripState) (project : String) {root : Element}
    (hplaced : root.Placed) (state : σ) : checkFile resolver project root.strip (stripState state) =
      ((checkFile resolver project root state).1, stripState (checkFile resolver project root state).2) := by
  have hwalk : validateTree resolver project root.strip (stripState state) =
      (validateTree resolver project root state).strip stripState :=
    Validator.walksStripped (v := .standard resolver project) hstrips rfl hplaced .initial state
  have hdiagnostics (outcome : Outcome σ) : (outcome.strip stripState).diagnostics = outcome.diagnostics := by
    rw [Outcome.diagnostics, Outcome.strip, List.map_map, Outcome.diagnostics]
    congr 1
    exact funext Report.diagnostic_strip
  unfold checkFile
  dsimp only
  rw [hwalk, hdiagnostics]
  cases hfault : (validateTree resolver project root state).fault <;> simp [Outcome.strip, hfault]

end Walks

/-! ### Projects -/

namespace TypeIndex

/-- Two indexes that came about by the same calls, where the second one was given the stripped files. -/
inductive StrippedAlong : TypeIndex → TypeIndex → Prop where
  | empty : StrippedAlong .empty .empty
  | addFile {index stripped : TypeIndex} (project : String) (root : Element) : StrippedAlong index stripped →
    StrippedAlong (index.addFile project root) (stripped.addFile project root.strip)
  | setExpectedPackage {index stripped : TypeIndex} (file package : String) : StrippedAlong index stripped →
    StrippedAlong (index.setExpectedPackage file package) (stripped.setExpectedPackage file package)
  | lookupType {index stripped : TypeIndex} (name : String) (context : LookupContext) : StrippedAlong index stripped →
    StrippedAlong (index.lookupType name context).2 (stripped.lookupType name context).2
  | lookupTopLevel {index stripped : TypeIndex} (qualifiedName project : String) : StrippedAlong index stripped →
    StrippedAlong (index.lookupTopLevel qualifiedName project).2 (stripped.lookupTopLevel qualifiedName project).2
  | check {index stripped : TypeIndex} (project : String) {root : Element} :
    (ParseTree.ofElement root).isSound = true → (∀ e ∈ root.descendants, e.tag ≠ .unknown) → StrippedAlong index stripped →
    StrippedAlong (checkFile resolver project root index).2 (checkFile resolver project root.strip stripped).2

theorem StrippedAlong.eq_strip {index stripped : TypeIndex} (h : StrippedAlong index stripped) :
    stripped = index.strip := by
  induction h with
  | empty => rfl
  | addFile project root _ ih => rw [ih, strip_addFile]
  | setExpectedPackage file package _ ih =>
    rw [ih]
    rfl
  | lookupType name context _ ih => rw [ih, lookupType_strip]
  | lookupTopLevel qualifiedName project _ ih => rw [ih, lookupTopLevel_strip]
  | check project hsound hknown _ ih =>
    have hplaced := (ParseTree.isSound_ofElement_iff.1 hsound).placed hknown
    rw [ih, checkFile_strip strips_resolver project hplaced]

/-- A file that fits the schema is checked alike with its asides and without, whatever the project is made of: there is the same fault, or there are the same diagnostics in the same order. All files of the project may be stripped with it, also if some of them have been checked before. -/
theorem StrippedAlong.checkFile_eq_strip {index stripped : TypeIndex} (h : StrippedAlong index stripped)
    (project : String) {root : Element} (hsound : (ParseTree.ofElement root).isSound = true)
    (hknown : ∀ e ∈ root.descendants, e.tag ≠ .unknown) :
    (checkFile resolver project root.strip stripped).1 = (checkFile resolver project root index).1 := by
  have hplaced := (ParseTree.isSound_ofElement_iff.1 hsound).placed hknown
  rw [h.eq_strip, checkFile_strip strips_resolver project hplaced]

/-- A file with asides between its declarations: a module that extends nothing known, and has a parameter twice. -/
def annotatedFile : Element :=
  let comment : Element := ⟨0, .comment, .fill _ ["right"], [], none, {}⟩
  let property : Element := ⟨0, .property, .fill _ ["false", "class"], [comment], none, {}⟩
  let expression : Element := { Element.new .expression with children := [comment] }
  let pattern : Element := ⟨0, .pattern, .fill _ ["**.x"], [expression], none, {}⟩
  let param : Element := ⟨0, .param, .fill _ ["int", "false", "x"], [comment, expression, property], none, {}⟩
  let parameters : Element := { Element.new .parameters with children := [property, param, pattern, param] }
  let base : Element := ⟨0, .extendsName, .fill _ ["Base"], [comment], none, {}⟩
  ⟨0, .nedFile, .fill _ ["a.ned"], [comment, ⟨0, .package, .fill _ ["p"], [comment], none, {}⟩, property,
    ⟨0, .simpleModule, .fill _ ["A"], [comment, base, parameters], none, {}⟩], none, {}⟩

/-- Of its elements seven are left, and the same three problems are found once the file has been checked before. -/
theorem StrippedAlong.checkFile_eq_strip_annotatedFile :
    let index := (TypeIndex.empty.addFile "p" annotatedFile).setExpectedPackage "a.ned" "q"
    let stripped := (TypeIndex.empty.addFile "p" annotatedFile.strip).setExpectedPackage "a.ned" "q"
    let indexAfter := (checkFile resolver "p" annotatedFile index).2
    let strippedAfter := (checkFile resolver "p" annotatedFile.strip stripped).2
    (annotatedFile.descendants.length = 28 ∧ annotatedFile.strip.descendants.length = 7) ∧
    (ParseTree.ofElement annotatedFile).isSound = true ∧ (∀ e ∈ annotatedFile.descendants, e.tag ≠ .unknown) ∧
    StrippedAlong indexAfter strippedAfter ∧
    (checkFile resolver "p" annotatedFile.strip strippedAfter).1 = (checkFile resolver "p" annotatedFile indexAfter).1 ∧
    (checkFile resolver "p" annotatedFile indexAfter).1.toOption.map (fun found => found.map (·.message)) =
      some ["declared package \"p\" does not match expected package \"q\"", "no such component: 'Base'",
        "'x': already defined at <unknown location>"] := by
  intro index stripped indexAfter strippedAfter
  have hsound : (ParseTree.ofElement annotatedFile).isSound = true := by decide +kernel
  have hknown : ∀ e ∈ annotatedFile.descendants, e.tag ≠ .unknown := by decide +kernel
  have hadded : StrippedAlong index stripped := .setExpectedPackage "a.ned" "q" (.addFile "p" annotatedFile .empty)
  have hchecked : StrippedAlong indexAfter strippedAfter := .check "p" hsound hknown hadded
  exact ⟨by decide +kernel, hsound, hknown, hchecked, hchecked.checkFile_eq_strip "p" hsound hknown, by decide +kernel⟩

end TypeIndex

end NedCheck
