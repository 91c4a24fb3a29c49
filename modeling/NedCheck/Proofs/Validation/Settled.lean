import NedCheck.Proofs.Validation.Omission

/-!
# Rulings on elements in their places

An element that is met where its kind belongs gets a ruling that goes with it: a fault is what the element omits, and otherwise its children come into their places, are skipped with nothing below them that needs a place, or are validated as inner types.
-/

namespace NedCheck

namespace Validator

variable {σ : Type} {v : Validator σ}

theorem submoduleType?_eq_none_iff {e : Element} {context : LookupContext} {state : σ} :
    (v.submoduleType? e context state).1 = none ↔ e.isUntyped = true := by
  unfold submoduleType? Element.isUntyped
  grind

theorem channelType_eq_error_iff {e : Element} {context : LookupContext} {state : σ} {fault : ValidationFault} :
    (v.channelType e context state).1 = .error fault ↔
      e.isUntyped = true ∧ (v.resolver.lookupTopLevel v.defaultChannelType v.project state).1 = none ∧
        fault = .missingDefaultChannel v.defaultChannelType := by
  unfold channelType Element.isUntyped
  grind

/-- What is to be known of a ruling on an element in its place: a fault is what the element omits, and without one it omits nothing and its children come into their places. -/
def Settled (v : Validator σ) (e : Element) (state : σ) (ruling : Ruling σ) : Prop :=
  match ruling.verdict with
  | .fault fault => v.omission? e state = some fault
  | .skip => v.omission? e state = none ∧ ∀ child ∈ e.tag.allowedChildren, child.setting = .anywhere
  | .descend =>
    v.omission? e state = none ∧ ∀ child ∈ e.tag.allowedChildren, child.setting.Holds ruling.session.scope
  | .within frame =>
    v.omission? e state = none ∧
      ∀ child ∈ e.tag.allowedChildren, child.setting.Holds (ruling.session.enter frame).scope
  | .innerTypes _ =>
    v.omission? e state = none ∧
      ∀ child ∈ e.tag.allowedChildren, child.isTypeDeclaration = true ∨ child.setting = .anywhere

variable {e : Element} {session : Session} {state : σ}

theorem settled_descend {ruling : Ruling σ} (hverdict : ruling.verdict = .descend)
    (hframes : ruling.session.scope.frames = session.scope.frames)
    (hkind : e.tag ≠ .unknown ∧ e.tag.isTypeDeclaration = false ∧ e.tag ≠ .types ∧ e.tag ≠ .submodule ∧
      e.tag ≠ .channelSpec)
    (h : e.tag.setting.Holds session.scope) : v.Settled e state ruling := by
  obtain ⟨hknown, htype, htypes, hsubmodule, hspec⟩ := hkind
  rw [Settled, hverdict]
  refine ⟨omission?_eq_none hsubmodule hspec state, ?_⟩
  intro child hchild
  exact (Tag.holds_of_mem_allowedChildren hchild hknown htype htypes h).congr hframes

/-- Kinds whose children may stand anywhere, and which leave nothing out. -/
def isTerminal : Tag → Bool
  | .extendsName | .interfaceName | .param | .gate | .packetDecl | .packetType => true
  | _ => false

theorem settled_terminal {ruling : Ruling σ} (hterminal : isTerminal e.tag = true)
    (hverdict : ruling.verdict = .skip ∨ ruling.verdict = .descend) : v.Settled e state ruling := by
  have all : ∀ tag ∈ Tag.all, isTerminal tag = true → tag ≠ .submodule ∧ tag ≠ .channelSpec ∧
      ∀ child ∈ tag.allowedChildren, child.setting = .anywhere := by decide
  obtain ⟨hsubmodule, hspec, hchildren⟩ := all e.tag (Tag.mem_all e.tag) hterminal
  have homission := omission?_eq_none (v := v) hsubmodule hspec state
  rw [Settled]
  rcases hverdict with hverdict | hverdict <;> rw [hverdict]
  · exact ⟨homission, hchildren⟩
  · refine ⟨homission, ?_⟩
    intro child hchild
    rw [hchildren child hchild]
    trivial

theorem settled_enterExtends (htag : e.tag = .extendsName) (h : e.tag.setting.Holds session.scope) :
    v.Settled e state (v.enterExtends e session state) := by
  have hterminal : isTerminal e.tag = true := by
    rw [htag]
    rfl
  rw [htag] at h
  obtain ⟨type, htype⟩ := h
  unfold enterExtends
  rw [htype]
  dsimp only
  split
  · exact settled_terminal hterminal (.inl rfl)
  · split_ifs
    · exact settled_terminal hterminal (.inl rfl)
    · exact settled_terminal hterminal (.inr rfl)

theorem settled_enterInterfaceName (htag : e.tag = .interfaceName) (h : e.tag.setting.Holds session.scope) :
    v.Settled e state (v.enterInterfaceName e session state) := by
  have hterminal : isTerminal e.tag = true := by
    rw [htag]
    rfl
  rw [htag] at h
  obtain ⟨type, htype⟩ := h
  unfold enterInterfaceName
  rw [htype]
  dsimp only
  split
  · exact settled_terminal hterminal (.inl rfl)
  · split_ifs
    · exact settled_terminal hterminal (.inl rfl)
    · exact settled_terminal hterminal (.inl rfl)
    · exact settled_terminal hterminal (.inr rfl)

theorem settled_decided {decision : Decision} (hterminal : isTerminal e.tag = true)
    (h : ∀ fault, decision ≠ .fault fault) : v.Settled e state (decided e session state decision) := by
  cases decision with
  | fault fault => exact absurd rfl (h fault)
  | reject problem => exact settled_terminal hterminal (.inl rfl)
  | accept scope => exact settled_terminal hterminal (.inr rfl)

theorem settled_enterType (htype : e.tag.isTypeDeclaration = true) (h : e.tag.setting.Holds session.scope) :
    v.Settled e state (enterType e session state) := by
  rw [Tag.setting_of_isTypeDeclaration htype] at h
  have hnone : session.scope.currentType? = none := h
  have hsubmodule : e.tag ≠ .submodule := by
    intro htag
    exact absurd (htag ▸ htype) (by decide)
  have hspec : e.tag ≠ .channelSpec := by
    intro htag
    exact absurd (htag ▸ htype) (by decide)
  unfold enterType
  rw [hnone, Option.isSome_none, if_neg Bool.false_ne_true]
  refine ⟨omission?_eq_none hsubmodule hspec state, ?_⟩
  intro child hchild
  rcases Tag.setting_of_mem_declaration hchild htype with hplace | hplace | ⟨hplace, hcompound⟩
  · rw [hplace]
    trivial
  · rw [hplace]
    exact ⟨_, rfl⟩
  · rw [hplace]
    exact ⟨_, rfl, hcompound⟩

theorem settled_enterTypes (htag : e.tag = .types) (h : e.tag.setting.Holds session.scope) :
    v.Settled e state (enterTypes session state) := by
  rw [htag] at h
  obtain ⟨type, htype⟩ := h
  unfold enterTypes
  rw [htype]
  refine ⟨omission?_eq_none (by simp [htag]) (by simp [htag]) state, ?_⟩
  rw [htag]
  exact fun child => Tag.setting_of_mem_types

/-- The body of a submodule or channel spec stands in the type around it. -/
theorem holds_enter {frame : Frame} (hframe : ∀ opened, frame ≠ .type opened) {setting : Setting}
    (h : setting.Holds session.scope) : setting.Holds (session.enter frame).scope := by
  have hcurrent : (session.enter frame).scope.currentType? = session.scope.currentType? := by
    cases frame with
    | type opened => exact absurd rfl (hframe opened)
    | submodule element resolved => rfl
    | channelSpec element resolved => rfl
  unfold Setting.Holds at h ⊢
  rwa [hcurrent]

theorem settled_enterSubmodule (htag : e.tag = .submodule) (h : e.tag.setting.Holds session.scope) :
    v.Settled e state (v.enterSubmodule e session state) := by
  have hchildren {scope : Scope} (hframes : scope.frames = session.scope.frames) (resolved : Option TypeInfo) :
      ∀ child ∈ e.tag.allowedChildren,
        child.setting.Holds ((session.withScope scope).enter (.submodule e resolved)).scope := by
    intro child hchild
    have hplace := Tag.holds_of_mem_allowedChildren hchild (by simp [htag]) (by rw [htag]; rfl) (by simp [htag]) h
    exact holds_enter (by simp) (hplace.congr hframes)
  have homission : v.omission? e state = if e.isUntyped then some (.submoduleWithoutType e.name) else none := by
    rw [omission?, htag]
  rw [htag] at h
  obtain ⟨type, htype⟩ := h
  have huntyped : (v.submoduleType? e (.type type.qualifiedName) state).1 = none ↔ e.isUntyped = true :=
    submoduleType?_eq_none_iff
  unfold enterSubmodule
  rw [htype]
  dsimp only
  split <;> rename_i found <;> rw [found] at huntyped
  · exact homission.trans (if_pos (huntyped.1 rfl))
  all_goals
    refine ⟨homission.trans (if_neg fun hempty => absurd (huntyped.2 hempty) (by simp)), hchildren ?_ _⟩
    cases hdeclare : session.scope.declare e type.qualifiedName with
    | error problem => rfl
    | ok scope => exact Scope.declare_frames hdeclare

theorem settled_enterChannelSpec (htag : e.tag = .channelSpec) (h : e.tag.setting.Holds session.scope) :
    v.Settled e state (v.enterChannelSpec e session state) := by
  have hchildren (resolved : Option TypeInfo) : ∀ child ∈ e.tag.allowedChildren,
      child.setting.Holds (session.enter (.channelSpec e resolved)).scope := by
    intro child hchild
    have hplace := Tag.holds_of_mem_allowedChildren hchild (by simp [htag]) (by rw [htag]; rfl) (by simp [htag]) h
    exact holds_enter (by simp) hplace
  rw [htag] at h
  obtain ⟨type, htype⟩ := h
  have homission {fault : ValidationFault} : v.omission? e state = some fault ↔
      (v.channelType e (.type type.qualifiedName) state).1 = .error fault := by
    rw [channelType_eq_error_iff, omission?, htag]
    cases e.isUntyped <;>
      cases (v.resolver.lookupTopLevel v.defaultChannelType v.project state).1 <;> simp [eq_comm]
  unfold enterChannelSpec
  rw [htype]
  dsimp only
  split
  · rename_i fault _ found
    exact homission.2 (by rw [found])
  · rename_i found
    refine ⟨Option.eq_none_iff_forall_ne_some.2 fun fault hfault => ?_, hchildren _⟩
    have herror := homission.1 hfault
    rw [found] at herror
    exact absurd herror (by simp)
  · rename_i found
    refine ⟨Option.eq_none_iff_forall_ne_some.2 fun fault hfault => ?_, hchildren _⟩
    have herror := homission.1 hfault
    rw [found] at herror
    exact absurd herror (by simp)

theorem settled_enterConnection (htag : e.tag = .connection) (h : e.tag.setting.Holds session.scope) :
    v.Settled e state (v.enterConnection e session state) := by
  have hplace := h
  rw [htag] at hplace
  obtain ⟨type, htype, hcompound⟩ := hplace
  unfold enterConnection
  rw [htype]
  dsimp only
  rw [if_neg (not_not_intro hcompound)]
  exact settled_descend rfl rfl (by rw [htag]; decide) h

theorem judgeParam_ne_fault {scope : Scope} (h : Setting.insideType.Holds scope) (fault : ValidationFault) :
    scope.judgeParam e ≠ .fault fault := by
  obtain ⟨type, htype⟩ := h
  unfold Scope.judgeParam Scope.assignParam
  rw [htype]
  grind

theorem judgeGate_ne_fault {scope : Scope} (h : Setting.insideType.Holds scope) (fault : ValidationFault) :
    scope.judgeGate e ≠ .fault fault := by
  obtain ⟨type, htype⟩ := h
  unfold Scope.judgeGate Scope.useGate
  rw [htype]
  grind

theorem settled_enter (hknown : e.tag ≠ .unknown) (h : e.tag.setting.Holds session.scope) :
    v.Settled e state (v.enter e session state) := by
  unfold enter
  split <;> rename_i htag
  · exact settled_descend rfl rfl (by rw [htag]; decide) h
  · exact settled_descend rfl rfl (by rw [htag]; decide) h
  · exact settled_enterExtends htag h
  · exact settled_enterInterfaceName htag h
  iterate 5 exact settled_enterType (by rw [htag]; rfl) h
  · exact settled_decided (by rw [htag]; rfl) (judgeParam_ne_fault (by rwa [htag] at h))
  · exact settled_decided (by rw [htag]; rfl) (judgeGate_ne_fault (by rwa [htag] at h))
  · exact settled_enterTypes htag h
  · exact settled_enterSubmodule htag h
  · exact settled_enterConnection htag h
  · exact settled_enterChannelSpec htag h
  iterate 2 exact settled_terminal (by rw [htag]; rfl) (.inl rfl)
  · refine settled_descend rfl rfl ⟨hknown, ?_, ‹_›, ‹_›, ‹_›⟩ h
    cases hkind : e.tag <;> first | rfl | contradiction

end Validator

end NedCheck
