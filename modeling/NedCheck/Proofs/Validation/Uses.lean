import NedCheck.Proofs.Validation.Filling
import NedCheck.Proofs.Validation.Misplacement

/-!
# Declarations and uses

A parameter or gate with a type declares a member, and one without uses a member that is declared elsewhere. Members are declared directly inside of a type, each name once. A use refers to a member of the type of the submodule or channel spec around it or, directly inside of a type, to a member of that type, and the member has to be declared by an element of the same kind, with or without brackets as it is used. `Takes` says so, and says what is in scope after it: a new member after a declaration, and what was in scope before it after a use. Everything else is reported, once, and changes nothing. A declaration is also judged as a use of itself, which it always passes.
-/

namespace NedCheck

variable {σ : Type}

namespace Element

/-- Whether a parameter or gate is declared by the element, and not just used. -/
def isTyped (e : Element) : Bool := e.isParamDeclaration || e.isGateDeclaration

/-- The element declares what the other one uses. -/
structure IsDeclarationOf (declaration use : Element) : Prop where
  typed : declaration.isTyped = true
  tag : declaration.tag = use.tag
  vector : use.tag = .gate → declaration.isVector = use.isVector

theorem IsDeclarationOf.refl {e : Element} (htyped : e.isTyped = true) : e.IsDeclarationOf e := ⟨htyped, rfl, fun _ => rfl⟩

theorem isTyped_of_param {e : Element} (htag : e.tag = .param) : e.isTyped = decide (e.paramType ≠ .unspecified) := by
  simp [isTyped, isParamDeclaration, isGateDeclaration, htag]

theorem isTyped_of_gate {e : Element} (htag : e.tag = .gate) : e.isTyped = decide (e.gateType ≠ .unspecified) := by
  simp [isTyped, isParamDeclaration, isGateDeclaration, htag]

theorem isDeclarationOf_param_iff {declaration use : Element} (htag : use.tag = .param) :
    declaration.IsDeclarationOf use ↔ declaration.isParamDeclaration = true := by
  constructor
  · intro h
    have hparam : declaration.tag = .param := h.tag.trans htag
    simpa [isParamDeclaration, hparam, isTyped_of_param hparam] using h.typed
  · intro h
    have hparam : declaration.tag = .param := (by simpa [isParamDeclaration] using h : _ ∧ _).1
    exact ⟨by rw [isTyped, h, Bool.true_or], hparam.trans htag.symm, by simp [htag]⟩

theorem isDeclarationOf_gate_iff {declaration use : Element} (htag : use.tag = .gate) :
    declaration.IsDeclarationOf use ↔ declaration.isGateDeclaration = true ∧ declaration.isVector = use.isVector := by
  constructor
  · intro h
    have hgate : declaration.tag = .gate := h.tag.trans htag
    exact ⟨by simpa [isGateDeclaration, hgate, isTyped_of_gate hgate] using h.typed, h.vector htag⟩
  · rintro ⟨h, hvector⟩
    have hgate : declaration.tag = .gate := (by simpa [isGateDeclaration] using h : _ ∧ _).1
    exact ⟨by rw [isTyped, h, Bool.or_true], hgate.trans htag.symm, fun _ => hvector⟩

end Element

/-! ### What is accepted -/

/-- A declaration is accepted if it comes into scope. -/
def Decision.ofExcept : Except Problem Scope → Decision
  | .error problem => .reject problem
  | .ok declared => .accept declared

namespace Scope

/-- The member that a name stands for where it is used: one of the type of the submodule or channel spec around, if it is known, and otherwise one in scope. -/
def used? (scope : Scope) (name : String) : Option Member :=
  match scope.frames with
  | .submodule _ resolved :: _ => resolved.bind (·.member? name)
  | .channelSpec _ resolved :: _ => resolved.bind (·.member? name)
  | _ => scope.members.get? name

/-- The parameter or gate is in order in the scope, which becomes another one with it. -/
inductive Takes (scope : Scope) (e : Element) : Scope → Prop where
  | declaration {opened : OpenType} {outer : List Frame} : scope.frames = .type opened :: outer → e.isTyped = true →
    scope.members.get? e.name = none → Takes scope e (scope.addMember e.name ⟨e, opened.qualifiedName⟩)
  | use {member : Member} : e.isTyped = false → scope.used? e.name = some member → member.element.IsDeclarationOf e →
    Takes scope e scope

variable {scope after : Scope} {e : Element} {opened : OpenType} {outer : List Frame}

theorem takes_iff_of_untyped (htyped : e.isTyped = false) : scope.Takes e after ↔
    after = scope ∧ ∃ member, scope.used? e.name = some member ∧ member.element.IsDeclarationOf e := by
  constructor
  · intro h
    cases h with
    | declaration _ htyped' _ => exact absurd (htyped'.symm.trans htyped) (by simp)
    | use _ hused hdeclares => exact ⟨rfl, _, hused, hdeclares⟩
  · rintro ⟨rfl, member, hused, hdeclares⟩
    exact .use htyped hused hdeclares

theorem takes_iff_of_typed (htyped : e.isTyped = true) : scope.Takes e after ↔
    ∃ opened outer, scope.frames = .type opened :: outer ∧ scope.members.get? e.name = none ∧
      after = scope.addMember e.name ⟨e, opened.qualifiedName⟩ := by
  constructor
  · intro h
    cases h with
    | declaration hframes _ hnew => exact ⟨_, _, hframes, hnew, rfl⟩
    | use htyped' _ _ => exact absurd (htyped.symm.trans htyped') (by simp)
  · rintro ⟨opened, outer, hframes, hnew, rfl⟩
    exact .declaration hframes htyped hnew

theorem used?_addMember (hframes : scope.frames = .type opened :: outer) (member : Member) :
    (scope.addMember e.name member).used? e.name = some member := by
  have hafter : (scope.addMember e.name member).frames = .type opened :: outer := hframes
  rw [used?, hafter]
  exact (Table.get?_insert ..).trans (if_pos rfl)

theorem assignParam_eq_accept_iff (htag : e.tag = .param) : scope.assignParam e = .accept after ↔
    after = scope ∧ ∃ member, scope.used? e.name = some member ∧ member.element.IsDeclarationOf e := by
  have hchecked (found : Option Member) (problem : Problem) :
      (if found.any Member.isParamDeclaration then .accept scope else .reject problem) = Decision.accept after ↔
        after = scope ∧ ∃ member, found = some member ∧ member.isParamDeclaration = true := by
    rcases found with _ | member
    · simp
    · by_cases hparam : member.isParamDeclaration = true
      · rw [Option.any_some, if_pos hparam]
        exact ⟨fun h => ⟨(Decision.accept.inj h).symm, member, rfl, hparam⟩, fun h => by rw [h.1]⟩
      · simp [hparam]
  have hdeclared (info : TypeInfo) : (info.paramDeclaration? e.name).isSome =
      (info.member? e.name).any Member.isParamDeclaration := by
    rw [TypeInfo.paramDeclaration?, Option.isSome_map, Option.isSome_filter]
  simp only [Element.isDeclarationOf_param_iff htag]
  unfold assignParam used?
  simp only [hdeclared]
  rcases scope.frames with _ | ⟨_ | ⟨_, _ | info⟩ | ⟨_, _ | info⟩, outer⟩
  · exact hchecked _ _
  · exact hchecked _ _
  · simp
  · exact hchecked _ _
  · simp
  · exact hchecked _ _

theorem gateDeclaration_eq_ok_iff (hspec : scope.currentChannelSpec? = none) {declaration : Element} :
    scope.gateDeclaration e = .ok declaration ↔
      ∃ member, scope.used? e.name = some member ∧ member.isGateDeclaration = true ∧ member.element = declaration := by
  have hfound (found : Option Member) :
      (∃ member, found = some member ∧ member.isGateDeclaration = true ∧ member.element = declaration) ↔
        (found.filter Member.isGateDeclaration).map (·.element) = some declaration := by
    simp [Option.filter_eq_some_iff, and_assoc]
  rw [hfound]
  unfold currentChannelSpec? at hspec
  unfold gateDeclaration used?
  rcases hframes : scope.frames with _ | ⟨_ | ⟨_, _ | info⟩ | ⟨_, resolved⟩, outer⟩
  · dsimp only
    split <;> rename_i hdeclared <;> simp [hdeclared, -Option.map_eq_some_iff]
  · dsimp only
    split <;> rename_i hdeclared <;> simp [hdeclared, -Option.map_eq_some_iff]
  · simp
  · dsimp only [TypeInfo.gateDeclaration?]
    split <;> rename_i hdeclared <;> simp [hdeclared, -Option.map_eq_some_iff]
  · simp [hframes] at hspec

theorem useGate_eq_accept_iff (htag : e.tag = .gate) (hspec : scope.currentChannelSpec? = none) :
    scope.useGate e = .accept after ↔
      after = scope ∧ ∃ member, scope.used? e.name = some member ∧ member.element.IsDeclarationOf e := by
  have hbrackets (declaration : Element) (problem other : Problem) :
      (if declaration.isVector && !e.isVector then Decision.reject problem
        else if !declaration.isVector && e.isVector then .reject other
        else .accept scope) = .accept after ↔ after = scope ∧ declaration.isVector = e.isVector := by
    cases declaration.isVector <;> cases e.isVector <;> simp [eq_comm]
  have hdeclared (declaration : Element) : scope.gateDeclaration e = .ok declaration ↔ _ :=
    gateDeclaration_eq_ok_iff hspec
  simp only [Element.isDeclarationOf_gate_iff htag]
  unfold useGate
  cases hgate : scope.gateDeclaration e with
  | error problem =>
    refine ⟨fun h => by simp at h, ?_⟩
    rintro ⟨-, member, hused, hdeclaration, -⟩
    have hok := (hdeclared _).2 ⟨member, hused, hdeclaration, rfl⟩
    simp [hgate] at hok
  | ok declaration =>
    obtain ⟨member, hused, hdeclaration, rfl⟩ := (hdeclared _).1 hgate
    rw [hused]
    refine (hbrackets member.element _ _).trans (and_congr_right fun _ => ?_)
    simpa using fun _ => show member.element.isGateDeclaration = true from hdeclaration

/-- A declaration that has come into scope is in order as a use of itself. -/
theorem declare_then_use (use : Scope → Decision) (hframes : scope.frames = .type opened :: outer)
    (htyped : e.isTyped = true)
    (huse : ∀ {scope after : Scope}, scope.currentChannelSpec? = none → (use scope = .accept after ↔
      after = scope ∧ ∃ member, scope.used? e.name = some member ∧ member.element.IsDeclarationOf e)) :
    (match scope.declare e opened.qualifiedName with
      | .error problem => .reject problem
      | .ok scope => use scope) = Decision.ofExcept (scope.declare e opened.qualifiedName) := by
  cases hdeclare : scope.declare e opened.qualifiedName with
  | error problem => rfl
  | ok declared =>
    obtain ⟨-, rfl⟩ := eq_of_declare hdeclare
    have hspec : (scope.addMember e.name ⟨e, opened.qualifiedName⟩).currentChannelSpec? = none := by
      simp [currentChannelSpec?, addMember, hframes]
    exact (huse hspec).2 ⟨rfl, _, used?_addMember hframes _, .refl htyped⟩

theorem judgeParam_of_typed (htag : e.tag = .param) (htyped : e.isTyped = true)
    (hframes : scope.frames = .type opened :: outer) :
    scope.judgeParam e = .ofExcept (scope.declare e opened.qualifiedName) := by
  have hdeclares : e.paramType ≠ .unspecified := by
    simpa [Element.isTyped_of_param htag] using htyped
  rw [judgeParam, if_neg hdeclares, hframes]
  simp only [currentType?_eq hframes]
  exact declare_then_use (·.assignParam e) hframes htyped fun _ => assignParam_eq_accept_iff htag

theorem judgeGate_of_typed (htag : e.tag = .gate) (htyped : e.isTyped = true)
    (hframes : scope.frames = .type opened :: outer) :
    scope.judgeGate e = .ofExcept (scope.declare e opened.qualifiedName) := by
  have hdeclares : e.gateType ≠ .unspecified := by
    simpa [Element.isTyped_of_gate htag] using htyped
  rw [judgeGate, if_neg hdeclares, hframes]
  simp only [currentType?_eq hframes]
  exact declare_then_use (·.useGate e) hframes htyped fun hspec => useGate_eq_accept_iff htag hspec

theorem declare_eq_accept_iff (hframes : scope.frames = .type opened :: outer) (htyped : e.isTyped = true) :
    Decision.ofExcept (scope.declare e opened.qualifiedName) = .accept after ↔ scope.Takes e after := by
  rw [takes_iff_of_typed htyped]
  constructor
  · intro h
    cases hdeclare : scope.declare e opened.qualifiedName with
    | error problem => simp [hdeclare, Decision.ofExcept] at h
    | ok declared =>
      obtain ⟨hnew, rfl⟩ := eq_of_declare hdeclare
      rw [hdeclare] at h
      exact ⟨opened, outer, hframes, hnew, (Decision.accept.inj h).symm⟩
  · rintro ⟨type, around, heq, hnew, rfl⟩
    obtain ⟨rfl, -⟩ : opened = type ∧ outer = around := by simpa using hframes.symm.trans heq
    rw [declare, hnew]
    rfl

theorem judgeParam_eq_accept_iff (htag : e.tag = .param) : scope.judgeParam e = .accept after ↔ scope.Takes e after := by
  cases htyped : e.isTyped with
  | false =>
    have huse : e.paramType = .unspecified := by
      simpa [Element.isTyped_of_param htag] using htyped
    rw [judgeParam, if_pos huse, takes_iff_of_untyped htyped]
    exact assignParam_eq_accept_iff htag
  | true =>
    have hdeclares : e.paramType ≠ .unspecified := by
      simpa [Element.isTyped_of_param htag] using htyped
    rcases hframes : scope.frames with _ | ⟨opened | _ | _, outer⟩
    · simp [judgeParam, hdeclares, takes_iff_of_typed htyped, currentType?, hframes]
    · rw [judgeParam_of_typed htag htyped hframes, declare_eq_accept_iff hframes htyped]
    · simp [judgeParam, hdeclares, takes_iff_of_typed htyped, hframes]
    · simp [judgeParam, hdeclares, takes_iff_of_typed htyped, hframes]

theorem judgeGate_eq_accept_iff (htag : e.tag = .gate) (hspec : scope.currentChannelSpec? = none) :
    scope.judgeGate e = .accept after ↔ scope.Takes e after := by
  cases htyped : e.isTyped with
  | false =>
    have huse : e.gateType = .unspecified := by
      simpa [Element.isTyped_of_gate htag] using htyped
    rw [judgeGate, if_pos huse, takes_iff_of_untyped htyped]
    exact useGate_eq_accept_iff htag hspec
  | true =>
    have hdeclares : e.gateType ≠ .unspecified := by
      simpa [Element.isTyped_of_gate htag] using htyped
    rcases hframes : scope.frames with _ | ⟨opened | _ | _, outer⟩
    · simp [judgeGate, hdeclares, takes_iff_of_typed htyped, currentType?, hframes]
    · rw [judgeGate_of_typed htag htyped hframes, declare_eq_accept_iff hframes htyped]
    · simp [judgeGate, hdeclares, takes_iff_of_typed htyped, hframes]
    · simp [currentChannelSpec?, hframes] at hspec

end Scope

/-! ### Where parameters and gates stand -/

/-- The element that declares what has been entered. -/
def Frame.element : Frame → Element
  | .type opened => opened.element
  | .submodule element _ => element
  | .channelSpec element _ => element

/-- The element stands in a section of the declaration that was entered last, which has no gates if it is a channel spec. -/
def Scope.Encloses (scope : Scope) (e : Element) : Prop :=
  ∃ frame outer part, scope.frames = frame :: outer ∧ part ∈ frame.element.children ∧ e ∈ part.children ∧
    (e.tag = .gate → frame.body ≠ .channelSpec)

namespace Validator

variable {v : Validator σ} {start point next : Point σ}

theorem Step.exists_frame (h : v.Step point next)
    (htag : point.element.tag.isTypeDeclaration = true ∨ point.element.tag = .submodule ∨
      point.element.tag = .channelSpec) :
    ∃ frame, next.session.scope.frames = frame :: point.session.scope.frames ∧ frame.element = point.element ∧
      (frame.body = .channelSpec → point.element.tag = .channelSpec) := by
  have hnever : (v.rulingAt point).verdict ≠ .descend ∧ ∀ owner, (v.rulingAt point).verdict ≠ .innerTypes owner := by
    unfold rulingAt
    rcases htag with htype | htag | htag
    · rw [enter_eq_enterType htype, enterType]
      split_ifs <;> simp
    · rw [enter, htag]
      dsimp only [enterSubmodule]
      split
      · simp
      · split <;> simp
    · rw [enter, htag]
      dsimp only [enterChannelSpec]
      split
      · simp
      · split <;> simp
  rcases h.frames_cases with ⟨hverdict, -⟩ | ⟨frame, hverdict, hframes⟩ | ⟨owner, hverdict, -⟩
  · exact absurd hverdict hnever.1
  · refine ⟨frame, hframes, ?_⟩
    rcases within_cases hverdict with ⟨htype, rfl⟩ | ⟨_, _, _, ⟨htag, rfl⟩ | ⟨htag, rfl⟩⟩
    · exact ⟨rfl, fun hbody => by simp [Frame.body] at hbody⟩
    · exact ⟨rfl, fun hbody => by simp [Frame.body] at hbody⟩
    · exact ⟨rfl, fun _ => htag⟩
  · exact absurd hverdict (hnever.2 owner)

/-- Parameters and gates stand in a section of a type, submodule or channel spec, unless the walk begins with them or with the section. -/
theorem Visits.encloses_or {root : Element} (hplaced : root.Placed) {session : Session} {state : σ}
    (h : v.Visits ⟨root, session, state⟩ point) (htag : point.element.tag = .param ∨ point.element.tag = .gate) :
    point.session.scope.Encloses point.element ∨
      point.session.scope.frames = session.scope.frames ∧ (point.element = root ∨ point.element ∈ root.children) := by
  have hparts : ∀ tag ∈ Tag.all, tag ≠ .unknown →
      (.param ∈ tag.allowedChildren → tag = .parameters) ∧ (.gate ∈ tag.allowedChildren → tag = .gates) := by decide
  have howners : ∀ tag ∈ Tag.all, tag ≠ .unknown → .parameters ∈ tag.allowedChildren ∨ .gates ∈ tag.allowedChildren →
      tag.isTypeDeclaration = true ∨ tag = .submodule ∨ tag = .channelSpec := by decide
  rcases Relation.ReflTransGen.cases_tail h with rfl | ⟨part, hpart, hstep⟩
  · exact .inr ⟨rfl, .inl rfl⟩
  · have hpartPlaced := hplaced.below (Visits.mem_descendants hpart)
    have hallowed := hpartPlaced.children _ hstep.mem_children
    obtain ⟨hparameters, hgates⟩ := hparts _ (Tag.mem_all _) hpartPlaced.known
    have hpartTag : part.element.tag = .parameters ∨ part.element.tag = .gates := by
      rcases htag with htag | htag <;> rw [htag] at hallowed
      · exact .inl (hparameters hallowed)
      · exact .inr (hgates hallowed)
    have hsame : point.session.scope.frames = part.session.scope.frames := by
      refine hstep.frames_of_descend ?_
      rw [rulingAt, v.enter_section (hpartTag.imp_right .inl)]
    rcases Relation.ReflTransGen.cases_tail hpart with rfl | ⟨owner, howner, habove⟩
    · exact .inr ⟨hsame, .inr hstep.mem_children⟩
    · have hownerPlaced := hplaced.below (Visits.mem_descendants howner)
      have hpartAllowed := hownerPlaced.children _ habove.mem_children
      have hownerTag : owner.element.tag.isTypeDeclaration = true ∨ owner.element.tag = .submodule ∨
          owner.element.tag = .channelSpec := by
        refine howners _ (Tag.mem_all _) hownerPlaced.known ?_
        rcases hpartTag with htag | htag <;> rw [htag] at hpartAllowed
        · exact .inl hpartAllowed
        · exact .inr hpartAllowed
      obtain ⟨frame, hframes, helement, hspec⟩ := habove.exists_frame hownerTag
      refine .inl ⟨frame, _, part.element, hsame.trans hframes, helement ▸ habove.mem_children, hstep.mem_children, ?_⟩
      intro hgate hbody
      rw [hspec hbody, hgates (hgate ▸ hallowed)] at hpartAllowed
      exact absurd hpartAllowed (by decide)

end Validator

/-! ### What comes of parameters and gates -/

/-- What comes of an element that is judged, if no rule looks at what is below it. -/
def Decision.outcome (e : Element) (session : Session) (state : σ) : Decision → Outcome σ
  | .fault reason => ⟨[], session, state, some reason⟩
  | .reject problem => ⟨[⟨e, problem⟩], session, state, none⟩
  | .accept after => ⟨[], session.withScope after, state, none⟩

theorem Scope.Housed.frames_eq_nil {scope : Scope} (h : scope.Housed) (houtside : scope.currentType? = none) :
    scope.frames = [] := by
  rcases hframes : scope.frames with _ | ⟨opened | _ | _, outer⟩
  · rfl
  · simp [currentType?_eq hframes] at houtside
  · obtain ⟨type, htype⟩ := h (.inl (by simp [currentSubmodule?, hframes]))
    simp [houtside] at htype
  · obtain ⟨type, htype⟩ := h (.inr (by simp [currentChannelSpec?, hframes]))
    simp [houtside] at htype

namespace Validator

variable {v : Validator σ} {e : Element} {session : Session}

theorem validate_of_decided (hidle : ∀ child ∈ e.children, child.Idle) {state : σ} {decision : Decision}
    (henter : v.enter e session state = decided e session state decision) :
    v.validate e session state = decision.outcome e session state := by
  rw [validate_eq, henter]
  cases decision with
  | fault fault => rfl
  | reject problem => rfl
  | accept scope => exact congrArg (·.after []) (v.validateAll_of_idle hidle (session.withScope scope) state)

/-- A parameter or gate is judged, and what the judgement is is all that comes of it. -/
theorem exists_decision (v : Validator σ) (hplaced : e.Placed) (hhoused : session.scope.Housed)
    (htag : e.tag = .param ∨ e.tag = .gate ∧ session.scope.currentChannelSpec? = none) (state : σ) :
    ∃ decision : Decision, v.validate e session state = decision.outcome e session state ∧
      (∀ after, decision = .accept after ↔ session.scope.Takes e after) ∧
      ∀ fault, decision = .fault fault → session.scope.frames = [] := by
  rcases htag with htag | ⟨htag, hspec⟩
  · refine ⟨session.scope.judgeParam e, ?_, fun after => Scope.judgeParam_eq_accept_iff htag, fun fault hfault => ?_⟩
    · exact validate_of_decided (hplaced.idle_children (.inr (.inl htag))) (by rw [enter, htag])
    · exact hhoused.frames_eq_nil ((Scope.judgeParam_eq_fault_iff hhoused).1 hfault).2.1
  · refine ⟨session.scope.judgeGate e, ?_, fun after => Scope.judgeGate_eq_accept_iff htag hspec, fun fault hfault => ?_⟩
    · exact validate_of_decided (hplaced.idle_children (.inr (.inr htag))) (by rw [enter, htag])
    · exact hhoused.frames_eq_nil ((Scope.judgeGate_eq_fault_iff hhoused).1 hfault).2.1

/-- Wherever a walk comes to a parameter or gate of a tree that fits the schema, at most one problem is reported, with the element itself, and then nothing in scope has changed. Nothing is reported exactly if it declares a member under a new name directly inside of a type, which is all that comes into scope by it, or if it uses what is declared as it is used: in the body of a submodule or channel spec a member of its type, which has to be known, and otherwise a member in scope. No fault comes of one that stands in a section of a declaration that has been entered, and all do but where the walk begins with the element or with the section. -/
theorem clean_iff_takes (v : Validator σ) {root : Element} (hsound : (ParseTree.ofElement root).isSound = true)
    (hknown : ∀ e ∈ root.descendants, e.tag ≠ .unknown) {session : Session} (hframes : session.scope.frames = [])
    {state : σ} {point : Point σ} (hvisits : v.Visits ⟨root, session, state⟩ point)
    (htag : point.element.tag = .param ∨ point.element.tag = .gate) :
    ((v.outcomeAt point).reports.length ≤ 1 ∧ ∀ report ∈ (v.outcomeAt point).reports, report.element = point.element) ∧
    ((v.outcomeAt point).reports ≠ [] → (v.outcomeAt point).session = point.session) ∧
    ((v.outcomeAt point).Clean ↔ ∃ after, point.session.scope.Takes point.element after) ∧
    (∀ after, point.session.scope.Takes point.element after →
      (v.outcomeAt point).session = point.session.withScope after) ∧
    (point.session.scope.Encloses point.element ∧ (v.outcomeAt point).fault = none ∨
      point.session.scope.frames = [] ∧ (point.element = root ∨ point.element ∈ root.children)) := by
  have hplaced : root.Placed := (ParseTree.isSound_ofElement_iff.1 hsound).placed hknown
  have hpointPlaced : point.element.Placed := hplaced.below (Visits.mem_descendants hvisits)
  have hhoused : point.session.scope.Housed := by
    refine hvisits.housed ?_
    simp [Scope.Housed, Scope.currentSubmodule?, Scope.currentChannelSpec?, hframes]
  have hplace := hvisits.encloses_or hplaced htag
  rw [hframes] at hplace
  have hspec : point.element.tag = .gate → point.session.scope.currentChannelSpec? = none := by
    intro hgate
    rcases hplace with ⟨frame, outer, -, hinside, -, -, hbody⟩ | ⟨hnone, -⟩
    · cases frame with
      | type | submodule => simp [Scope.currentChannelSpec?, hinside]
      | channelSpec => exact absurd rfl (hbody hgate)
    · simp [Scope.currentChannelSpec?, hnone]
  obtain ⟨decision, houtcome, htakes, hfault⟩ := v.exists_decision hpointPlaced hhoused
    (htag.imp_right fun hgate => ⟨hgate, hspec hgate⟩) point.state
  rw [outcomeAt, houtcome]
  have hnofault (hencloses : point.session.scope.Encloses point.element) (reason : ValidationFault) :
      decision ≠ .fault reason := by
    intro h
    obtain ⟨frame, outer, -, hinside, -⟩ := hencloses
    simp [hfault reason h] at hinside
  cases decision with
  | fault reason =>
    refine ⟨⟨by simp [Decision.outcome], by simp [Decision.outcome]⟩, by simp [Decision.outcome], ?_, ?_, ?_⟩
    · refine ⟨fun hclean => absurd hclean.fault (by simp [Decision.outcome]), ?_⟩
      rintro ⟨after, h⟩
      exact absurd ((htakes after).2 h) (by simp)
    · exact fun after h => absurd ((htakes after).2 h) (by simp)
    · exact .inr (hplace.resolve_left fun hencloses => hnofault hencloses reason rfl)
  | reject problem =>
    refine ⟨⟨by simp [Decision.outcome], by simp [Decision.outcome]⟩, fun _ => rfl, ?_, ?_, ?_⟩
    · refine ⟨fun hclean => absurd hclean.reports (by simp [Decision.outcome]), ?_⟩
      rintro ⟨after, h⟩
      exact absurd ((htakes after).2 h) (by simp)
    · exact fun after h => absurd ((htakes after).2 h) (by simp)
    · exact hplace.imp_left fun hencloses => ⟨hencloses, rfl⟩
  | accept scope =>
    refine ⟨⟨by simp [Decision.outcome], by simp [Decision.outcome]⟩, by simp [Decision.outcome], ?_, ?_, ?_⟩
    · exact ⟨fun _ => ⟨scope, (htakes scope).1 rfl⟩, fun _ => ⟨rfl, rfl⟩⟩
    · intro after h
      obtain rfl : scope = after := Decision.accept.inj ((htakes after).2 h)
      rfl
    · exact hplace.imp_left fun hencloses => ⟨hencloses, rfl⟩

/-! ### A gate with and without brackets -/

/-- A file with a module that declares a vector of gates and then uses it as if it were one gate. -/
def bracketFile : Element :=
  let gates : Element :=
    { Element.new .gates with children := [
      ⟨0, .gate, .fill _ ["in", "input", "true"], [], none, {}⟩, ⟨0, .gate, .fill _ ["in"], [], none, {}⟩] }
  ⟨0, .nedFile, .fill _ ["b.ned"], [⟨0, .simpleModule, .fill _ ["Hub"], [gates], none, {}⟩], none, {}⟩

/-- The declaration is in order and the use is not. -/
theorem clean_iff_takes_bracketFile :
    let v := standard TypeIndex.resolver "p"
    ∃ declaration use, v.Visits ⟨bracketFile, .initial, .empty⟩ declaration ∧ v.Visits ⟨bracketFile, .initial, .empty⟩ use ∧
      (∃ after, declaration.session.scope.Takes declaration.element after) ∧
      ¬∃ after, use.session.scope.Takes use.element after := by
  intro v
  have hclean : ∃ point ∈ v.trace bracketFile .initial .empty, point.element.tag = .gate ∧
      (v.outcomeAt point).reports = [] ∧ (v.outcomeAt point).fault = none := by decide +kernel
  have hfound : ∃ point ∈ v.trace bracketFile .initial .empty, point.element.tag = .gate ∧
      (v.outcomeAt point).reports ≠ [] := by decide +kernel
  obtain ⟨declaration, hdeclaration, hgate, hreports, hfault⟩ := hclean
  obtain ⟨use, huse, hgateUse, hproblem⟩ := hfound
  have hdeclares := clean_iff_takes v (by decide +kernel) (by decide +kernel) rfl (mem_trace_iff.1 hdeclaration) (.inr hgate)
  have huses := clean_iff_takes v (by decide +kernel) (by decide +kernel) rfl (mem_trace_iff.1 huse) (.inr hgateUse)
  refine ⟨declaration, use, mem_trace_iff.1 hdeclaration, mem_trace_iff.1 huse, ?_, ?_⟩
  · exact hdeclares.2.2.1.1 ⟨hreports, hfault⟩
  · exact fun htakes => hproblem (huses.2.2.1.2 htakes).reports

end Validator

end NedCheck
