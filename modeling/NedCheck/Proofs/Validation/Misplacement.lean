import NedCheck.Proofs.Validation.Settled
import NedCheck.Proofs.Validation.Trace
import NedCheck.TypeIndex.Lookup

/-!
# Elements out of place

An element whose rule asks for a type around it, or for none, ends the validation with a fault where that is not so. The structural checks keep elements of known kinds in their places, but they let an unknown element stand anywhere and hold anything, and the walk goes through it into the same scope. So the faults of misplaced elements come from below unknown elements, and from nowhere else: in a file that passes the structural checks such a fault is that of an element which the walk has come to, somewhere below an unknown one.
-/

namespace NedCheck

variable {σ : Type}

/-- What the rule for an element asks of the place it stands in. Parameters and gates ask for a type only where they are declared. -/
def Element.need (e : Element) : Setting :=
  match e.tag with
  | .simpleModule | .moduleInterface | .compoundModule | .channelInterface | .channel => .outsideTypes
  | .extendsName | .interfaceName | .types | .submodule | .channelSpec => .insideType
  | .param => if e.paramType = .unspecified then .anywhere else .insideType
  | .gate => if e.gateType = .unspecified then .anywhere else .insideType
  | .connection => .insideCompound
  | _ => .anywhere

theorem Element.need_holds {e : Element} {scope : Scope} (h : e.tag.setting.Holds scope) : e.need.Holds scope := by
  have hneed : e.need = .anywhere ∨ e.need = e.tag.setting := by
    unfold need
    cases e.tag <;> simp [Tag.setting, or_comm, em]
  rcases hneed with hneed | hneed
  · rw [hneed]
    trivial
  · rwa [hneed]

namespace ValidationFault

/-- The faults that say that an element stands where its rule does not expect it. -/
def isMisplacement : ValidationFault → Bool
  | .outsideType _ | .nestedTypeScope _ | .connectionOutsideCompound => true
  | .submoduleWithoutType _ | .missingDefaultChannel _ => false

end ValidationFault

/-! ### Rules -/

namespace Scope

/-- A submodule or channel spec has been entered inside a type. -/
def Housed (scope : Scope) : Prop :=
  scope.currentSubmodule?.isSome = true ∨ scope.currentChannelSpec?.isSome = true → ∃ type, scope.currentType? = some type

variable {scope : Scope} {e : Element} {fault : ValidationFault}

theorem assignParam_ne_fault : scope.assignParam e ≠ .fault fault := by
  unfold assignParam
  grind

theorem useGate_ne_fault : scope.useGate e ≠ .fault fault := by
  unfold useGate
  grind

theorem judgeParam_eq_fault_iff (hhoused : scope.Housed) : scope.judgeParam e = .fault fault ↔
    e.paramType ≠ .unspecified ∧ scope.currentType? = none ∧ fault = .outsideType .param := by
  unfold Housed currentSubmodule? currentChannelSpec? at hhoused
  unfold judgeParam
  by_cases htype : e.paramType = .unspecified
  · simp [htype, assignParam_ne_fault]
  · rw [if_neg htype]
    split
    · obtain ⟨type, hcurrent⟩ := hhoused (by simp [*])
      simp [hcurrent]
    · obtain ⟨type, hcurrent⟩ := hhoused (by simp [*])
      simp [hcurrent]
    · cases scope.currentType? with
      | none => simp [htype, eq_comm]
      | some type => cases hdeclare : scope.declare e type.qualifiedName <;> simp [hdeclare, assignParam_ne_fault]

theorem judgeGate_eq_fault_iff (hhoused : scope.Housed) : scope.judgeGate e = .fault fault ↔
    e.gateType ≠ .unspecified ∧ scope.currentType? = none ∧ fault = .outsideType .gate := by
  unfold Housed currentSubmodule? at hhoused
  unfold judgeGate
  by_cases htype : e.gateType = .unspecified
  · simp [htype, useGate_ne_fault]
  · rw [if_neg htype]
    split
    · obtain ⟨type, hcurrent⟩ := hhoused (by simp [*])
      simp [hcurrent]
    · cases scope.currentType? with
      | none => simp [htype, eq_comm]
      | some type => cases hdeclare : scope.declare e type.qualifiedName <;> simp [hdeclare, useGate_ne_fault]

end Scope

namespace Validator

variable {v : Validator σ} {e : Element} {session : Session} {state : σ}

/-- The walk ends here because the element is misplaced. -/
def Rejects (ruling : Ruling σ) : Prop := ∃ fault, ruling.verdict = .fault fault ∧ fault.isMisplacement = true

theorem rejects_decided_iff {decision : Decision} : Rejects (decided e session state decision) ↔
    ∃ fault, decision = .fault fault ∧ fault.isMisplacement = true := by
  cases decision <;> simp [Rejects, decided]

theorem rejects_enterType_iff : Rejects (enterType e session state) ↔ ¬Setting.outsideTypes.Holds session.scope := by
  unfold Rejects enterType Setting.Holds
  cases session.scope.currentType? <;> simp [ValidationFault.isMisplacement]

theorem rejects_enterTypes_iff : Rejects (enterTypes session state) ↔ ¬Setting.insideType.Holds session.scope := by
  unfold Rejects enterTypes Setting.Holds
  cases session.scope.currentType? <;> simp [ValidationFault.isMisplacement]

theorem rejects_enterExtends_iff :
    Rejects (v.enterExtends e session state) ↔ ¬Setting.insideType.Holds session.scope := by
  unfold Rejects enterExtends Setting.Holds
  cases session.scope.currentType? with
  | none => simp [ValidationFault.isMisplacement]
  | some type => grind

theorem rejects_enterInterfaceName_iff :
    Rejects (v.enterInterfaceName e session state) ↔ ¬Setting.insideType.Holds session.scope := by
  unfold Rejects enterInterfaceName Setting.Holds
  cases session.scope.currentType? with
  | none => simp [ValidationFault.isMisplacement]
  | some type => grind

theorem rejects_enterSubmodule_iff :
    Rejects (v.enterSubmodule e session state) ↔ ¬Setting.insideType.Holds session.scope := by
  unfold Rejects enterSubmodule Setting.Holds
  cases session.scope.currentType? with
  | none => simp [ValidationFault.isMisplacement]
  | some type => grind [ValidationFault.isMisplacement]

theorem rejects_enterChannelSpec_iff :
    Rejects (v.enterChannelSpec e session state) ↔ ¬Setting.insideType.Holds session.scope := by
  unfold Rejects enterChannelSpec Setting.Holds
  cases session.scope.currentType? with
  | none => simp [ValidationFault.isMisplacement]
  | some type =>
    have herror {fault : ValidationFault} : (v.channelType e (.type type.qualifiedName) state).1 = .error fault →
        fault = .missingDefaultChannel v.defaultChannelType := fun h => (channelType_eq_error_iff.1 h).2.2
    grind [ValidationFault.isMisplacement]

theorem rejects_enterConnection_iff :
    Rejects (v.enterConnection e session state) ↔ ¬Setting.insideCompound.Holds session.scope := by
  unfold Rejects enterConnection Setting.Holds
  cases session.scope.currentType? with
  | none => simp [ValidationFault.isMisplacement]
  | some type => grind [ValidationFault.isMisplacement]

theorem rejects_enter_iff (hhoused : session.scope.Housed) :
    Rejects (v.enter e session state) ↔ ¬e.need.Holds session.scope := by
  have hanywhere {ruling : Ruling σ} (hverdict : ruling.verdict = .skip ∨ ruling.verdict = .descend) :
      Rejects ruling ↔ ¬Setting.anywhere.Holds session.scope := by
    unfold Rejects Setting.Holds
    rcases hverdict with hverdict | hverdict <;> simp [hverdict]
  unfold enter Element.need
  cases htag : e.tag <;> dsimp only
  case extendsName => exact rejects_enterExtends_iff
  case interfaceName => exact rejects_enterInterfaceName_iff
  case types => exact rejects_enterTypes_iff
  case submodule => exact rejects_enterSubmodule_iff
  case channelSpec => exact rejects_enterChannelSpec_iff
  case connection => exact rejects_enterConnection_iff
  case simpleModule | moduleInterface | compoundModule | channelInterface | channel => exact rejects_enterType_iff
  case param =>
    rw [rejects_decided_iff]
    simp only [Scope.judgeParam_eq_fault_iff hhoused]
    by_cases htype : e.paramType = .unspecified <;>
      simp [htype, Setting.Holds, ValidationFault.isMisplacement, Option.eq_none_iff_forall_ne_some]
  case gate =>
    rw [rejects_decided_iff]
    simp only [Scope.judgeGate_eq_fault_iff hhoused]
    by_cases htype : e.gateType = .unspecified <;>
      simp [htype, Setting.Holds, ValidationFault.isMisplacement, Option.eq_none_iff_forall_ne_some]
  case packetDecl | packetType => exact hanywhere (.inl rfl)
  all_goals exact hanywhere (.inr rfl)

/-! ### Walks -/

variable {start point next : Point σ} {file : Element}

theorem Step.housed (h : v.Step point next) (hhoused : point.session.scope.Housed) : next.session.scope.Housed := by
  unfold Scope.Housed Scope.currentSubmodule? Scope.currentChannelSpec? Scope.currentType? at hhoused ⊢
  rcases h.frames_cases with ⟨-, hsame⟩ | ⟨frame, hverdict, hframes⟩ | ⟨-, -, hnone⟩
  · rwa [hsame]
  · intro _
    rw [hframes]
    rcases within_cases hverdict with ⟨-, rfl⟩ | ⟨opened, resolved, hcurrent, ⟨-, rfl⟩ | ⟨-, rfl⟩⟩
    · exact ⟨_, rfl⟩
    · exact ⟨opened, hcurrent⟩
    · exact ⟨opened, hcurrent⟩
  · simp [hnone]

theorem Visits.housed (h : v.Visits start point) (hstart : start.session.scope.Housed) :
    point.session.scope.Housed := by
  induction h with
  | refl => exact hstart
  | tail _ hstep ih => exact hstep.housed ih

theorem Step.setting_holds (h : v.Step point next) (hknown : point.element.tag ≠ .unknown)
    (hallowed : next.element.tag ∈ point.element.tag.allowedChildren)
    (hplace : point.element.tag.setting.Holds point.session.scope) :
    next.element.tag.setting.Holds next.session.scope := by
  have hsettled : v.Settled point.element point.state (v.rulingAt point) := settled_enter hknown hplace
  have hrow (before : List Element) (session : Session) (state : σ) :=
    (v.restores_validateAll (fun child (_ : child ∈ before) => v.restores_validate child) session state).frames
  unfold Settled at hsettled
  cases h with
  | @descend before _ _ _ _ hverdict heq _ =>
    subst heq
    rw [hverdict] at hsettled
    exact (hsettled.2 _ hallowed).congr (hrow before _ _)
  | @within frame before _ _ _ _ hverdict heq _ =>
    subst heq
    rw [hverdict] at hsettled
    exact (hsettled.2 _ hallowed).congr (hrow before _ _)
  | inner _ _ htype _ _ =>
    rw [Tag.setting_of_isTypeDeclaration htype]
    rfl

/-- Wherever a walk comes to in a file that passes the structural checks, it is below an unknown element or in the place that the schema provides for the kind. -/
theorem Visits.setting_holds_or (hsound : file.Sound) {session : Session} {state : σ}
    (hplace : file.tag.setting.Holds session.scope) (h : v.Visits ⟨file, session, state⟩ point) :
    (∃ unknown ∈ file.descendants, unknown.tag = .unknown ∧ point.element ∈ unknown.descendants) ∨
      point.element.tag.setting.Holds point.session.scope := by
  induction h with
  | refl => exact .inr hplace
  | @tail between point hvisits hstep ih =>
    have hmem := Visits.mem_descendants hvisits
    have hchild := hstep.mem_children
    rcases ih with ⟨unknown, hunknown, htag, hbelow⟩ | hplace
    · refine .inl ⟨unknown, hunknown, htag, ?_⟩
      exact Element.mem_descendants_trans hbelow (Element.mem_descendants_of_mem_children hchild)
    · by_cases hknown : between.element.tag = .unknown
      · exact .inl ⟨_, hmem, hknown, Element.mem_descendants_of_mem_children hchild⟩
      · have hallows := (hsound _ hmem).allowed point.element.tag (List.mem_map_of_mem hchild)
        rw [Tag.allows, Bool.or_eq_true, decide_eq_true_iff, List.contains_iff_mem] at hallows
        rcases hallows with htag | hallowed
        · right
          rw [htag]
          trivial
        · exact .inr (hstep.setting_holds hknown hallowed hplace)

/-- The validation of a file that passes the structural checks ends in the fault of a misplaced element if and only if the walk comes to an element that does not stand where its rule asks it to stand. There is always an unknown element above such an element. So no file ends in such a fault in which nothing below an unknown element asks for a place. -/
theorem validate_misplaced_iff (v : Validator σ) (hfile : file.tag = .nedFile)
    (hsound : (ParseTree.ofElement file).isSound = true) {session : Session} (hframes : session.scope.frames = [])
    (state : σ) :
    ((∃ fault, (v.validate file session state).fault = some fault ∧ fault.isMisplacement = true) ↔
      ∃ point, v.Visits ⟨file, session, state⟩ point ∧ ¬point.element.need.Holds point.session.scope) ∧
    (∀ point, v.Visits ⟨file, session, state⟩ point → ¬point.element.need.Holds point.session.scope →
      ∃ unknown ∈ file.descendants, unknown.tag = .unknown ∧ point.element ∈ unknown.descendants) ∧
    ((∀ unknown ∈ file.descendants, unknown.tag = .unknown → ∀ e ∈ unknown.descendants, e.need = .anywhere) →
      ∀ fault, (v.validate file session state).fault = some fault → fault.isMisplacement = false) := by
  have hfileSound := ParseTree.isSound_ofElement_iff.1 hsound
  have hstart : file.tag.setting.Holds session.scope := by
    rw [hfile]
    have hempty : session.scope.frames = Scope.empty.frames := hframes
    exact Scope.currentType?_congr hempty
  have hhoused : session.scope.Housed := by
    simp [Scope.Housed, Scope.currentSubmodule?, Scope.currentChannelSpec?, hframes]
  have hiff : (∃ fault, (v.validate file session state).fault = some fault ∧ fault.isMisplacement = true) ↔
      ∃ point, v.Visits ⟨file, session, state⟩ point ∧ ¬point.element.need.Holds point.session.scope := by
    constructor
    · rintro ⟨fault, hfault, hmisplacement⟩
      obtain ⟨point, hvisits, hverdict⟩ := fault_eq_some_iff.1 hfault
      exact ⟨point, hvisits, (rejects_enter_iff (hvisits.housed hhoused)).1 ⟨fault, hverdict, hmisplacement⟩⟩
    · rintro ⟨point, hvisits, hneed⟩
      obtain ⟨fault, hverdict, hmisplacement⟩ := (rejects_enter_iff (hvisits.housed hhoused)).2 hneed
      exact ⟨fault, fault_eq_some_iff.2 ⟨point, hvisits, hverdict⟩, hmisplacement⟩
  have hbelow : ∀ point, v.Visits ⟨file, session, state⟩ point → ¬point.element.need.Holds point.session.scope →
      ∃ unknown ∈ file.descendants, unknown.tag = .unknown ∧ point.element ∈ unknown.descendants := by
    intro point hvisits hneed
    exact (hvisits.setting_holds_or hfileSound hstart).resolve_right fun hplace => hneed (Element.need_holds hplace)
  refine ⟨hiff, hbelow, fun hfree fault hfault => ?_⟩
  by_contra hmisplacement
  obtain ⟨point, hvisits, hneed⟩ := hiff.1 ⟨fault, hfault, by simpa using hmisplacement⟩
  obtain ⟨unknown, hunknown, htag, he⟩ := hbelow point hvisits hneed
  rw [hfree unknown hunknown htag _ he] at hneed
  exact hneed trivial

/-! ### A section for types below an unknown element -/

/-- A file with a module, and a section for types inside of an unknown element. -/
def strayTypesFile : Element :=
  let node : Element := ⟨0, .simpleModule, .fill _ ["Node"], [], none, {}⟩
  let stray : Element := ⟨0, .unknown, .fill _ ["extra"], [Element.new .types], none, {}⟩
  ⟨0, .nedFile, .fill _ ["a.ned"], [node, stray], none, {}⟩

/-- The file passes the structural checks, and its validation ends in a fault. -/
theorem validate_strayTypesFile :
    strayTypesFile.tag = .nedFile ∧ (ParseTree.ofElement strayTypesFile).isSound = true ∧
      ((standard TypeIndex.resolver "p").validate strayTypesFile .initial
        (TypeIndex.empty.addFile "p" strayTypesFile)).fault = some (.outsideType .types) := by
  exact ⟨rfl, by decide +kernel, by decide +kernel⟩

/-- The walk comes to an element out of place, and does so below the unknown one. -/
theorem validate_misplaced_iff_strayTypesFile :
    ∃ point, (standard TypeIndex.resolver "p").Visits
        ⟨strayTypesFile, .initial, TypeIndex.empty.addFile "p" strayTypesFile⟩ point ∧
      ¬point.element.need.Holds point.session.scope ∧
      ∃ unknown ∈ strayTypesFile.descendants, unknown.tag = .unknown ∧ point.element ∈ unknown.descendants := by
  have hfault : ((standard TypeIndex.resolver "p").validate strayTypesFile .initial
      (TypeIndex.empty.addFile "p" strayTypesFile)).fault = some (.outsideType .types) := by decide +kernel
  have hframes : Session.initial.scope.frames = [] := rfl
  have htag : strayTypesFile.tag = .nedFile := rfl
  obtain ⟨hiff, hbelow, -⟩ := validate_misplaced_iff (standard TypeIndex.resolver "p") htag (by decide +kernel)
    hframes (TypeIndex.empty.addFile "p" strayTypesFile)
  obtain ⟨point, hvisits, hneed⟩ := hiff.1 ⟨_, hfault, rfl⟩
  exact ⟨point, hvisits, hneed, hbelow point hvisits hneed⟩

end Validator

end NedCheck
