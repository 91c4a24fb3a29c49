import NedCheck.Proofs.Validation.Setting

/-!
# Walks that find nothing

A walk that reports nothing and ends without a fault has followed every ruling to its end. What it leaves in the scope can be told from the tree alone, and most kinds of element leave nothing there: directly inside a type all that are not part of its header or of a section with members, and inside a submodule or a channel spec all that may stand there, since nothing can be declared in these. For these kinds it does not matter what is found.
-/

namespace NedCheck

variable {σ : Type}

namespace Outcome

/-- Nothing is reported, and no fault ends the walk. -/
structure Clean (outcome : Outcome σ) : Prop where
  reports : outcome.reports = []
  fault : outcome.fault = none

theorem Clean.andThen {outcome : Outcome σ} {next : Session → σ → Outcome σ} (h : (outcome.andThen next).Clean) :
    outcome.Clean ∧ (next outcome.session outcome.state).Clean ∧
      outcome.andThen next = next outcome.session outcome.state := by
  cases hfault : outcome.fault with
  | some fault =>
    have heq : outcome.andThen next = outcome := by rw [Outcome.andThen, hfault]
    rw [heq] at h
    exact absurd (hfault.symm.trans h.fault) (by simp)
  | none =>
    have heq : outcome.andThen next = (next outcome.session outcome.state).after outcome.reports := by
      rw [Outcome.andThen, hfault]
    rw [heq] at h ⊢
    obtain ⟨hreports, hnext⟩ := List.append_eq_nil_iff.1 h.reports
    refine ⟨⟨hreports, hfault⟩, ⟨hnext, h.fault⟩, ?_⟩
    rw [after, hreports, List.nil_append]

end Outcome

/-- What comes of the children of an element. -/
def Ruling.below (ruling : Ruling σ) (all : Session → σ → Outcome σ) (inner : String → Session → σ → Outcome σ) :
    Outcome σ :=
  match ruling.verdict with
  | .fault fault => ⟨[], ruling.session, ruling.state, some fault⟩
  | .skip => ⟨[], ruling.session, ruling.state, none⟩
  | .descend => all ruling.session ruling.state
  | .within frame => (all (ruling.session.enter frame) ruling.state).leave frame
  | .innerTypes owner => inner owner ruling.session ruling.state

theorem Outcome.Clean.follow {ruling : Ruling σ} {all : Session → σ → Outcome σ}
    {inner : String → Session → σ → Outcome σ} (h : (ruling.follow all inner).Clean) :
    ruling.reports = [] ∧ (ruling.below all inner).Clean ∧ ruling.follow all inner = ruling.below all inner := by
  have heq : ruling.follow all inner = (ruling.below all inner).after ruling.reports := rfl
  rw [heq] at h ⊢
  obtain ⟨hreports, hbelow⟩ := List.append_eq_nil_iff.1 h.reports
  refine ⟨hreports, ⟨hbelow, h.fault⟩, ?_⟩
  rw [after, hreports, List.nil_append]

/-! ### Kinds without a rule -/

/-- Whether elements of the kind may stand anywhere and no rule looks at them. -/
def Tag.isIdle (tag : Tag) : Bool := tag.setting = .anywhere && tag ≠ .importDecl

theorem Tag.isIdle_of_mem_allowedChildren {tag child : Tag} (hknown : tag ≠ .unknown)
    (hkind : tag.isIdle = true ∨ tag = .extendsName ∨ tag = .param ∨ tag = .gate)
    (hchild : child ∈ tag.allowedChildren) : child.isIdle = true := by
  have all : ∀ tag ∈ Tag.all, tag ≠ .unknown →
      (tag.isIdle = true ∨ tag = .extendsName ∨ tag = .param ∨ tag = .gate) →
        ∀ child ∈ tag.allowedChildren, child.isIdle = true := by decide
  exact all tag (mem_all tag) hknown hkind child hchild

/-- No rule looks at the element or at anything below it. -/
def Element.Idle (e : Element) : Prop := ∀ d ∈ e.descendants, d.tag.isIdle = true

theorem Element.Idle.child {e child : Element} (h : e.Idle) (hchild : child ∈ e.children) : child.Idle :=
  fun d hd => h d (mem_descendants_trans (mem_descendants_of_mem_children hchild) hd)

theorem Element.Placed.idle {e : Element} (h : e.Placed) (hidle : e.tag.isIdle = true) : e.Idle := by
  induction e using Element.induction with
  | step e ih =>
    intro d hd
    rw [descendants_eq] at hd
    rcases List.mem_cons.1 hd with rfl | hd
    · exact hidle
    · obtain ⟨child, hchild, hd⟩ := List.mem_flatMap.1 hd
      have hkind := Tag.isIdle_of_mem_allowedChildren h.known (.inl hidle) (h.children child hchild)
      exact ih child hchild (h.child hchild) hkind d hd

/-- What stands below bases, parameters and gates is for others than the rules. -/
theorem Element.Placed.idle_children {e : Element} (h : e.Placed)
    (hkind : e.tag = .extendsName ∨ e.tag = .param ∨ e.tag = .gate) : ∀ child ∈ e.children, child.Idle :=
  fun child hchild =>
    (h.child hchild).idle (Tag.isIdle_of_mem_allowedChildren h.known (.inr hkind) (h.children child hchild))

namespace Validator

theorem validateAll_of_unchanged {v : Validator σ} {children : List Element} {session : Session} {state : σ}
    (h : ∀ child ∈ children, v.validate child session state = ⟨[], session, state, none⟩) :
    v.validateAll children session state = ⟨[], session, state, none⟩ := by
  induction children with
  | nil => rw [validateAll]
  | cons child rest ih =>
    rw [validateAll, h child (by simp)]
    exact congrArg (·.after []) (ih fun other hother => h other (by simp [hother]))

theorem validate_of_idle (v : Validator σ) {e : Element} (h : e.Idle) (session : Session) (state : σ) :
    v.validate e session state = ⟨[], session, state, none⟩ := by
  induction e using Element.induction with
  | step e ih =>
    have hchildren := validateAll_of_unchanged fun child hchild => ih child hchild (h.child hchild)
    have hkind := h e e.mem_descendants_self
    have hnot {tag : Tag} (hrule : tag.isIdle = false) : e.tag ≠ tag := by
      rintro rfl
      exact Bool.false_ne_true (hrule.symm.trans hkind)
    rw [validate_eq]
    unfold enter
    split
    -- the kinds with a rule of their own, and then the packets
    iterate 15 exact absurd ‹_› (hnot rfl)
    iterate 2 rfl
    exact congrArg (·.after []) hchildren

theorem validateAll_of_idle (v : Validator σ) {children : List Element} (h : ∀ child ∈ children, child.Idle)
    (session : Session) (state : σ) : v.validateAll children session state = ⟨[], session, state, none⟩ :=
  validateAll_of_unchanged fun child hchild => v.validate_of_idle (h child hchild) session state

end Validator

/-! ### Kinds that leave nothing in the scope -/

/-- What an element is directly inside of. -/
inductive Body where
  | type
  | submodule
  | channelSpec
deriving DecidableEq, Repr

def Frame.body : Frame → Body
  | .type _ => .type
  | .submodule _ _ => .submodule
  | .channelSpec _ _ => .channelSpec

/-- Whether elements of the kind declare nothing in such a body. -/
def Body.isCalm (body : Body) (tag : Tag) : Bool :=
  tag.setting = .anywhere || match body, tag with
    | .type, .interfaceName | .type, .connections | .type, .connection | .type, .connectionGroup
    | .type, .channelSpec => true
    | .submodule, .parameters | .submodule, .param | .submodule, .gates | .submodule, .gate => true
    | .channelSpec, .parameters | .channelSpec, .param => true
    | _, _ => false

namespace Body

def all : List Body := [.type, .submodule, .channelSpec]

theorem mem_all (body : Body) : body ∈ all := by cases body <;> decide

theorem ne_of_isCalm {body : Body} {tag other : Tag} (hcalm : body.isCalm tag = true)
    (hother : ∀ body ∈ all, body.isCalm other = false) : tag ≠ other := by
  rintro rfl
  exact Bool.false_ne_true ((hother body (mem_all body)).symm.trans hcalm)

theorem ne_type_of_isCalm_param {body : Body} (hcalm : body.isCalm .param = true) : body ≠ .type := by
  rintro rfl
  exact absurd hcalm (by decide)

theorem eq_submodule_of_isCalm_gate {body : Body} (hcalm : body.isCalm .gate = true) : body = .submodule := by
  have only : ∀ body ∈ all, body.isCalm .gate = true → body = .submodule := by decide
  exact only body (mem_all body) hcalm

theorem isCalm_of_mem_allowedChildren {body : Body} {tag child : Tag} (hcalm : body.isCalm tag = true)
    (hknown : tag ≠ .unknown) (hspec : tag ≠ .channelSpec) (hchild : child ∈ tag.allowedChildren) :
    body.isCalm child = true := by
  have all : ∀ body ∈ all, ∀ tag ∈ Tag.all, body.isCalm tag = true → tag ≠ .unknown → tag ≠ .channelSpec →
      ∀ child ∈ tag.allowedChildren, body.isCalm child = true := by decide +kernel
  exact all body (mem_all body) tag (Tag.mem_all tag) hcalm hknown hspec child hchild

theorem isCalm_of_mem_channelSpec {child : Tag} (hchild : child ∈ Tag.channelSpec.allowedChildren) :
    channelSpec.isCalm child = true := by
  have all : ∀ child ∈ Tag.channelSpec.allowedChildren, channelSpec.isCalm child = true := by decide
  exact all child hchild

theorem isCalm_of_mem_submodule {child : Tag} (hchild : child ∈ Tag.submodule.allowedChildren) :
    submodule.isCalm child = true := by
  have all : ∀ child ∈ Tag.submodule.allowedChildren, submodule.isCalm child = true := by decide
  exact all child hchild

end Body

namespace Validator

variable {v : Validator σ} {e : Element} {session : Session} {frame : Frame} {outer : List Frame}

/-- A ruling after which the scope is what it was, and the children are in a body where they declare nothing either. -/
def Calm (frame : Frame) (e : Element) (session : Session) (ruling : Ruling σ) : Prop :=
  ruling.session.scope = session.scope ∧ match ruling.verdict with
    | .fault _ | .skip => True
    | .descend => ∀ child ∈ e.tag.allowedChildren, frame.body.isCalm child = true
    | .within inside => (∀ opened, inside ≠ .type opened) ∧
        ∀ child ∈ e.tag.allowedChildren, inside.body.isCalm child = true
    | .innerTypes _ => False

theorem calm_decided {decision : Decision} {state : σ}
    (hchildren : ∀ child ∈ e.tag.allowedChildren, frame.body.isCalm child = true)
    (haccept : ∀ scope, decision = .accept scope → scope = session.scope) :
    Calm frame e session (decided e session state decision) := by
  cases decision with
  | fault fault => exact ⟨rfl, trivial⟩
  | reject problem => exact ⟨rfl, trivial⟩
  | accept scope => exact ⟨haccept scope rfl, hchildren⟩

theorem eq_of_judgeParam_inside {scope judged : Scope} {param : Element} (hframes : scope.frames = frame :: outer)
    (hbody : frame.body ≠ .type) (h : scope.judgeParam param = .accept judged) : judged = scope := by
  unfold Scope.judgeParam at h
  rw [hframes] at h
  cases frame with
  | type opened => exact absurd rfl hbody
  | submodule element resolved => grind [Scope.eq_of_assignParam]
  | channelSpec element resolved => grind [Scope.eq_of_assignParam]

theorem eq_of_judgeGate_inside {scope judged : Scope} {gate : Element} (hframes : scope.frames = frame :: outer)
    (hbody : frame.body = .submodule) (h : scope.judgeGate gate = .accept judged) : judged = scope := by
  unfold Scope.judgeGate at h
  rw [hframes] at h
  cases frame with
  | type opened => exact absurd hbody (by simp [Frame.body])
  | submodule element resolved => grind [Scope.eq_of_useGate]
  | channelSpec element resolved => exact absurd hbody (by simp [Frame.body])

theorem calm_enterInterfaceName (hchildren : ∀ child ∈ e.tag.allowedChildren, frame.body.isCalm child = true)
    (state : σ) : Calm frame e session (v.enterInterfaceName e session state) := by
  unfold enterInterfaceName
  split
  · exact ⟨rfl, trivial⟩
  · split
    · exact ⟨rfl, trivial⟩
    · split_ifs
      · exact ⟨rfl, trivial⟩
      · exact ⟨rfl, trivial⟩
      · exact ⟨rfl, hchildren⟩

theorem calm_enterConnection (hchildren : ∀ child ∈ e.tag.allowedChildren, frame.body.isCalm child = true)
    (state : σ) : Calm frame e session (v.enterConnection e session state) := by
  unfold enterConnection
  split
  · exact ⟨rfl, trivial⟩
  · split_ifs
    · exact ⟨rfl, trivial⟩
    · exact ⟨rfl, hchildren⟩

theorem calm_enterChannelSpec (htag : e.tag = .channelSpec) (state : σ) :
    Calm frame e session (v.enterChannelSpec e session state) := by
  have hchildren : ∀ child ∈ e.tag.allowedChildren, Body.channelSpec.isCalm child = true := by
    rw [htag]
    exact fun child => Body.isCalm_of_mem_channelSpec
  unfold enterChannelSpec
  split
  · exact ⟨rfl, trivial⟩
  · split
    · exact ⟨rfl, trivial⟩
    · exact ⟨rfl, by simp, hchildren⟩
    · exact ⟨rfl, by simp, hchildren⟩

theorem calm_enter (hframes : session.scope.frames = frame :: outer) (hknown : e.tag ≠ .unknown)
    (hcalm : frame.body.isCalm e.tag = true) (state : σ) : Calm frame e session (v.enter e session state) := by
  have hchildren (hspec : e.tag ≠ .channelSpec) :
      ∀ child ∈ e.tag.allowedChildren, frame.body.isCalm child = true :=
    fun child hchild => Body.isCalm_of_mem_allowedChildren hcalm hknown hspec hchild
  have hnever (tag : Tag) (hnot : ∀ body ∈ Body.all, body.isCalm tag = false) : e.tag ≠ tag :=
    Body.ne_of_isCalm hcalm hnot
  unfold enter
  split <;> rename_i htag
  · exact absurd htag (hnever _ (by decide))
  · exact ⟨rfl, hchildren (by simp [htag])⟩
  · exact absurd htag (hnever _ (by decide))
  · exact calm_enterInterfaceName (hchildren (by simp [htag])) state
  iterate 5 exact absurd htag (hnever _ (by decide))
  · have hbody : frame.body ≠ .type := Body.ne_type_of_isCalm_param (htag ▸ hcalm)
    exact calm_decided (hchildren (by simp [htag])) fun scope => eq_of_judgeParam_inside hframes hbody
  · have hbody : frame.body = .submodule := Body.eq_submodule_of_isCalm_gate (htag ▸ hcalm)
    exact calm_decided (hchildren (by simp [htag])) fun scope => eq_of_judgeGate_inside hframes hbody
  · exact absurd htag (hnever _ (by decide))
  · exact absurd htag (hnever _ (by decide))
  · exact calm_enterConnection (hchildren (by simp [htag])) state
  · exact calm_enterChannelSpec htag state
  · exact ⟨rfl, trivial⟩
  · exact ⟨rfl, trivial⟩
  · exact ⟨rfl, hchildren ‹_›⟩

/-! ### Calm walks -/

theorem scope_validateAll_eq {children : List Element}
    (h : ∀ child ∈ children, ∀ session state, session.scope.frames = frame :: outer →
      (v.validate child session state).session.scope = session.scope)
    {session : Session} (hframes : session.scope.frames = frame :: outer) (state : σ) :
    (v.validateAll children session state).session.scope = session.scope := by
  induction children generalizing session state with
  | nil => rw [validateAll]
  | cons child rest ih =>
    have hscope := h child (by simp) session state hframes
    rw [validateAll]
    unfold Outcome.andThen
    split
    · exact hscope
    · have hrest := @ih fun other hother => h other (by simp [hother])
      exact (hrest (hscope ▸ hframes) (v.validate child session state).state).trans hscope

/-- A walk over an element that declares nothing where it is leaves the scope as it was. -/
theorem scope_validate_eq (hplaced : e.Placed) (hframes : session.scope.frames = frame :: outer)
    (hcalm : frame.body.isCalm e.tag = true) (state : σ) :
    (v.validate e session state).session.scope = session.scope := by
  induction e using Element.induction generalizing session frame outer state with
  | step e ih =>
    have heq : v.validate e session state =
        ((v.enter e session state).below (v.validateAll e.children) fun owner =>
          v.validateInner owner e.children).after (v.enter e session state).reports := v.validate_eq _ _ _
    obtain ⟨hscope, hverdict⟩ := calm_enter (v := v) hframes hplaced.known hcalm state
    rw [heq]
    unfold Ruling.below Outcome.after
    have hall {inside : Frame} {around : List Frame}
        (hinside : ∀ child ∈ e.tag.allowedChildren, inside.body.isCalm child = true) :
        ∀ child ∈ e.children, ∀ session state, session.scope.frames = inside :: around →
          (v.validate child session state).session.scope = session.scope :=
      fun child hchild _ state hframes =>
        ih child hchild (hplaced.child hchild) hframes (hinside _ (hplaced.children child hchild)) state
    cases hkind : (v.enter e session state).verdict with
    | fault fault => exact hscope
    | skip => exact hscope
    | descend =>
      rw [hkind] at hverdict
      exact (scope_validateAll_eq (hall hverdict) (hscope ▸ hframes) _).trans hscope
    | within inside =>
      rw [hkind] at hverdict
      obtain ⟨hbody, hinside⟩ := hverdict
      have hentered : ((v.enter e session state).session.enter inside).scope.frames = inside :: frame :: outer := by
        rw [Session.enter_frames, hscope, hframes]
      have hafter := scope_validateAll_eq (hall hinside) hentered (v.enter e session state).state
      show ((v.validateAll e.children ((v.enter e session state).session.enter inside)
        (v.enter e session state).state).session.leave inside).scope = session.scope
      cases inside with
      | type opened => exact absurd rfl (hbody opened)
      | submodule element resolved =>
        show (v.validateAll e.children _ _).session.scope.pop = _
        rw [hafter]
        exact hscope
      | channelSpec element resolved =>
        show (v.validateAll e.children _ _).session.scope.pop = _
        rw [hafter]
        exact hscope
    | innerTypes owner =>
      rw [hkind] at hverdict
      exact absurd hverdict id

theorem scope_validateAll_children_eq (hplaced : e.Placed) (hframes : session.scope.frames = frame :: outer)
    (hcalm : ∀ child ∈ e.tag.allowedChildren, frame.body.isCalm child = true) (state : σ) :
    (v.validateAll e.children session state).session.scope = session.scope := by
  refine scope_validateAll_eq (fun child hchild session state hframes => ?_) hframes state
  exact scope_validate_eq (hplaced.child hchild) hframes (hcalm _ (hplaced.children child hchild)) state

end Validator

end NedCheck
