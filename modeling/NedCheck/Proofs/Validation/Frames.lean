import Mathlib.Logic.Relation
import Mathlib.Tactic.SplitIfs
import NedCheck.Validation.Walk

/-!
# Declarations are left again

Whatever a validation meets, and whether it ends in a fault or not, it leaves every declaration it has entered: the frames after it are the frames before it. What it asks the resolver is a row of calls, so the state after it is one that calls lead to.
-/

namespace NedCheck

variable {σ : Type}

/-! ### Calls of a resolver -/

/-- One call takes the resolver from a state to the next. -/
inductive Resolver.Call (resolver : Resolver σ) : σ → σ → Prop where
  | lookupType (name : String) (context : LookupContext) (state : σ) :
    Call resolver state (resolver.lookupType name context state).2
  | lookupTopLevel (qualifiedName project : String) (state : σ) :
    Call resolver state (resolver.lookupTopLevel qualifiedName project state).2
  | expectedPackage? (file : String) (state : σ) :
    Call resolver state (resolver.expectedPackage? file state).2
  | qualifiedNames (project : String) (state : σ) :
    Call resolver state (resolver.qualifiedNames project state).2

/-- A row of calls takes the resolver from a state to another. -/
def Resolver.Reaches (resolver : Resolver σ) : σ → σ → Prop := Relation.ReflTransGen resolver.Call

namespace Resolver

variable {resolver : Resolver σ} {before between after : σ}

theorem Reaches.refl (state : σ) : resolver.Reaches state state := Relation.ReflTransGen.refl

theorem Reaches.trans (hleft : resolver.Reaches before between) (hright : resolver.Reaches between after) :
    resolver.Reaches before after :=
  Relation.ReflTransGen.trans hleft hright

variable (resolver)

theorem reaches_lookupType (name : String) (context : LookupContext) (state : σ) :
    resolver.Reaches state (resolver.lookupType name context state).2 :=
  Relation.ReflTransGen.single (.lookupType name context state)

theorem reaches_lookupTopLevel (qualifiedName project : String) (state : σ) :
    resolver.Reaches state (resolver.lookupTopLevel qualifiedName project state).2 :=
  Relation.ReflTransGen.single (.lookupTopLevel qualifiedName project state)

theorem reaches_expectedPackage? (file : String) (state : σ) :
    resolver.Reaches state (resolver.expectedPackage? file state).2 :=
  Relation.ReflTransGen.single (.expectedPackage? file state)

theorem reaches_qualifiedNames (project : String) (state : σ) :
    resolver.Reaches state (resolver.qualifiedNames project state).2 :=
  Relation.ReflTransGen.single (.qualifiedNames project state)

end Resolver

/-! ### Scopes -/

namespace Scope

theorem currentType?_congr {left right : Scope} (h : left.frames = right.frames) :
    left.currentType? = right.currentType? := by
  rw [currentType?, currentType?, h]

theorem currentType?_eq {scope : Scope} {opened : OpenType} {outer : List Frame}
    (h : scope.frames = .type opened :: outer) : scope.currentType? = some opened := by
  rw [currentType?, h]
  rfl

theorem declare_frames {scope declared : Scope} {e : Element} {owner : String}
    (h : scope.declare e owner = .ok declared) : declared.frames = scope.frames := by
  unfold declare at h
  split at h
  · exact absurd h (by simp)
  · rw [← Except.ok.inj h, addMember]

theorem eq_of_assignParam {scope assigned : Scope} {param : Element}
    (h : scope.assignParam param = .accept assigned) : assigned = scope := by
  unfold assignParam at h
  grind

theorem eq_of_useGate {scope used : Scope} {gate : Element} (h : scope.useGate gate = .accept used) :
    used = scope := by
  unfold useGate at h
  grind

theorem judgeParam_frames {scope judged : Scope} {param : Element}
    (h : scope.judgeParam param = .accept judged) : judged.frames = scope.frames := by
  unfold judgeParam at h
  grind [eq_of_assignParam, declare_frames]

theorem judgeGate_frames {scope judged : Scope} {gate : Element}
    (h : scope.judgeGate gate = .accept judged) : judged.frames = scope.frames := by
  unfold judgeGate at h
  grind [eq_of_useGate, declare_frames]

end Scope

namespace Session

theorem leave_frames (session : Session) (frame : Frame) :
    (session.leave frame).scope.frames = session.scope.frames.tail := by
  cases frame <;> rfl

theorem enter_frames (session : Session) (frame : Frame) :
    (session.enter frame).scope.frames = frame :: session.scope.frames := by
  cases frame <;> rfl

end Session

namespace Validator

variable (v : Validator σ)

/-! ### Rulings -/

theorem submoduleType?_reaches (submodule : Element) (context : LookupContext) (state : σ) :
    v.resolver.Reaches state (v.submoduleType? submodule context state).2 := by
  have hlookup (name : String) := v.resolver.reaches_lookupType name context state
  unfold submoduleType?
  grind [Resolver.Reaches.refl]

theorem channelType_reaches (spec : Element) (context : LookupContext) (state : σ) :
    v.resolver.Reaches state (v.channelType spec context state).2 := by
  have hlookup (name : String) := v.resolver.reaches_lookupType name context state
  have hdefault := v.resolver.reaches_lookupTopLevel v.defaultChannelType v.project state
  unfold channelType
  grind

theorem endpointProblems_reaches (connection : Element) (endpoint : Endpoint) (members : Table String Member)
    (state : σ) : v.resolver.Reaches state (v.endpointProblems connection endpoint members state).2 := by
  unfold endpointProblems endpointGate
  grind [Resolver.Reaches.refl, submoduleType?_reaches]

/-- A ruling enters and leaves nothing, and does nothing to the resolver but call it. -/
structure Keeps (session : Session) (state : σ) (ruling : Ruling σ) : Prop where
  frames : ruling.session.scope.frames = session.scope.frames
  reaches : v.resolver.Reaches state ruling.state

theorem keeps_decided (e : Element) (session : Session) (state : σ) {decision : Decision}
    (h : ∀ scope, decision = .accept scope → scope.frames = session.scope.frames) :
    v.Keeps session state (decided e session state decision) := by
  cases decision with
  | fault fault => exact ⟨rfl, .refl _⟩
  | reject problem => exact ⟨rfl, .refl _⟩
  | accept scope => exact ⟨h scope rfl, .refl _⟩

theorem keeps_enterFile (file : Element) (session : Session) (state : σ) :
    v.Keeps session state (v.enterFile file session state) :=
  ⟨rfl, v.resolver.reaches_expectedPackage? _ state⟩

theorem keeps_enterImport (e : Element) (session : Session) (state : σ) :
    v.Keeps session state (v.enterImport e session state) := by
  unfold enterImport
  by_cases hwildcard : isWildcardImport (e.value "import-spec") = true
  · simp only [if_pos hwildcard]
    exact ⟨rfl, v.resolver.reaches_qualifiedNames _ state⟩
  · simp only [if_neg hwildcard]
    exact ⟨rfl, v.resolver.reaches_lookupTopLevel _ _ state⟩

theorem keeps_enterType (e : Element) (session : Session) (state : σ) :
    v.Keeps session state (enterType e session state) := by
  unfold enterType
  split_ifs <;> exact ⟨rfl, .refl _⟩

theorem keeps_enterExtends (e : Element) (session : Session) (state : σ) :
    v.Keeps session state (v.enterExtends e session state) := by
  unfold enterExtends
  split
  · exact ⟨rfl, .refl _⟩
  · rename_i type _
    have hlookup := v.resolver.reaches_lookupType e.name type.headerContext state
    split
    · rename_i found
      exact ⟨rfl, by rwa [found] at hlookup⟩
    · rename_i found
      rw [found] at hlookup
      split_ifs <;> exact ⟨rfl, hlookup⟩

theorem keeps_enterInterfaceName (e : Element) (session : Session) (state : σ) :
    v.Keeps session state (v.enterInterfaceName e session state) := by
  unfold enterInterfaceName
  split
  · exact ⟨rfl, .refl _⟩
  · rename_i type _
    have hlookup := v.resolver.reaches_lookupType e.name type.headerContext state
    split
    · rename_i found
      exact ⟨rfl, by rwa [found] at hlookup⟩
    · rename_i found
      rw [found] at hlookup
      split_ifs <;> exact ⟨rfl, hlookup⟩

theorem keeps_enterTypes (session : Session) (state : σ) : v.Keeps session state (enterTypes session state) := by
  unfold enterTypes
  split <;> exact ⟨rfl, .refl _⟩

theorem keeps_enterSubmodule (e : Element) (session : Session) (state : σ) :
    v.Keeps session state (v.enterSubmodule e session state) := by
  unfold enterSubmodule
  split
  · exact ⟨rfl, .refl _⟩
  · rename_i type _
    have hlookup := v.submoduleType?_reaches e (.type type.qualifiedName) state
    cases hdeclare : session.scope.declare e type.qualifiedName with
    | error problem =>
      dsimp only
      split <;> rename_i found <;> rw [found] at hlookup <;> exact ⟨rfl, hlookup⟩
    | ok scope =>
      have hframes := Scope.declare_frames hdeclare
      dsimp only
      split <;> rename_i found <;> rw [found] at hlookup <;> exact ⟨hframes, hlookup⟩

theorem keeps_enterChannelSpec (e : Element) (session : Session) (state : σ) :
    v.Keeps session state (v.enterChannelSpec e session state) := by
  unfold enterChannelSpec
  split
  · exact ⟨rfl, .refl _⟩
  · rename_i type _
    have hlookup := v.channelType_reaches e (.type type.qualifiedName) state
    split <;> rename_i found <;> rw [found] at hlookup <;> exact ⟨rfl, hlookup⟩

theorem keeps_enterConnection (e : Element) (session : Session) (state : σ) :
    v.Keeps session state (v.enterConnection e session state) := by
  unfold enterConnection
  split
  · exact ⟨rfl, .refl _⟩
  · split_ifs
    · exact ⟨rfl, .refl _⟩
    · exact ⟨rfl, (v.endpointProblems_reaches ..).trans (v.endpointProblems_reaches ..)⟩

theorem keeps_enter (e : Element) (session : Session) (state : σ) :
    v.Keeps session state (v.enter e session state) := by
  unfold enter
  split
  · exact v.keeps_enterFile e session state
  · exact v.keeps_enterImport e session state
  · exact v.keeps_enterExtends e session state
  · exact v.keeps_enterInterfaceName e session state
  iterate 5 exact v.keeps_enterType e session state
  · exact v.keeps_decided e session state fun _ => Scope.judgeParam_frames
  · exact v.keeps_decided e session state fun _ => Scope.judgeGate_frames
  · exact v.keeps_enterTypes session state
  · exact v.keeps_enterSubmodule e session state
  · exact v.keeps_enterConnection e session state
  · exact v.keeps_enterChannelSpec e session state
  all_goals exact ⟨rfl, .refl _⟩

/-! ### Walks -/

/-- A walk leaves all it enters, and does nothing to the resolver but call it. -/
structure Restores (session : Session) (state : σ) (outcome : Outcome σ) : Prop where
  frames : outcome.session.scope.frames = session.scope.frames
  reaches : v.resolver.Reaches state outcome.state

variable {v}

theorem Restores.andThen {session : Session} {state : σ} {outcome : Outcome σ}
    {next : Session → σ → Outcome σ} (h : v.Restores session state outcome)
    (hnext : v.Restores outcome.session outcome.state (next outcome.session outcome.state)) :
    v.Restores session state (outcome.andThen next) := by
  unfold Outcome.andThen
  split
  · exact h
  · exact ⟨hnext.frames.trans h.frames, h.reaches.trans hnext.reaches⟩

theorem Keeps.follow {session : Session} {state : σ} {ruling : Ruling σ} {all : Session → σ → Outcome σ}
    {inner : String → Session → σ → Outcome σ} (h : v.Keeps session state ruling)
    (hall : ∀ session state, v.Restores session state (all session state))
    (hinner : ∀ owner session state, v.Restores session state (inner owner session state)) :
    v.Restores session state (ruling.follow all inner) := by
  unfold Ruling.follow
  dsimp only [Outcome.after]
  cases ruling.verdict with
  | fault fault => exact ⟨h.frames, h.reaches⟩
  | skip => exact ⟨h.frames, h.reaches⟩
  | descend =>
    have hbelow := hall ruling.session ruling.state
    exact ⟨hbelow.frames.trans h.frames, h.reaches.trans hbelow.reaches⟩
  | within frame =>
    have hbelow := hall (ruling.session.enter frame) ruling.state
    refine ⟨?_, h.reaches.trans hbelow.reaches⟩
    dsimp only [Outcome.leave]
    rw [Session.leave_frames, hbelow.frames, Session.enter_frames, List.tail_cons, h.frames]
  | innerTypes owner =>
    have hbelow := hinner owner ruling.session ruling.state
    exact ⟨hbelow.frames.trans h.frames, h.reaches.trans hbelow.reaches⟩

variable (v)

theorem registerInner_keeps (owner : String) (e : Element) (session : Session) (state : σ) :
    (v.registerInner owner e session state).1.scope.frames = session.scope.frames ∧
      v.resolver.Reaches state (v.registerInner owner e session state).2 := by
  have hlookup := v.resolver.reaches_lookupType e.name (.type owner) state
  unfold registerInner
  split
  rename_i found
  rw [found] at hlookup
  split <;> exact ⟨rfl, hlookup⟩

theorem restores_validateAll {children : List Element}
    (h : ∀ child ∈ children, ∀ session state, v.Restores session state (v.validate child session state))
    (session : Session) (state : σ) : v.Restores session state (v.validateAll children session state) := by
  induction children generalizing session state with
  | nil =>
    rw [validateAll]
    exact ⟨rfl, .refl _⟩
  | cons child rest ih =>
    rw [validateAll]
    refine (h child (by simp) session state).andThen ?_
    exact ih (fun other hother => h other (by simp [hother])) _ _

theorem restores_validateInner {children : List Element}
    (h : ∀ child ∈ children, ∀ session state, v.Restores session state (v.validate child session state))
    (owner : String) (session : Session) (state : σ) :
    v.Restores session state (v.validateInner owner children session state) := by
  induction children generalizing session state with
  | nil =>
    rw [validateInner]
    exact ⟨rfl, .refl _⟩
  | cons child rest ih =>
    have hrest := ih fun other hother => h other (by simp [hother])
    rw [validateInner]
    split_ifs
    · have hchild := h child (by simp) (session.inner owner) state
      refine Restores.andThen (v := v) ⟨rfl, hchild.reaches⟩ ?_
      obtain ⟨hframes, hreaches⟩ := v.registerInner_keeps owner child session
        (v.validate child (session.inner owner) state).state
      have hbelow := hrest
        (v.registerInner owner child session (v.validate child (session.inner owner) state).state).1
        (v.registerInner owner child session (v.validate child (session.inner owner) state).state).2
      exact ⟨hbelow.frames.trans hframes, hreaches.trans hbelow.reaches⟩
    · exact hrest session state

/-- After the validation of any element, in any session and with or without a fault, the declarations entered are those entered before it. -/
theorem restores_validate (e : Element) (session : Session) (state : σ) :
    v.Restores session state (v.validate e session state) := by
  induction e using Element.induction generalizing session state with
  | step e ih =>
    rw [validate_eq]
    exact (v.keeps_enter e session state).follow (v.restores_validateAll ih) (v.restores_validateInner ih)

end Validator

end NedCheck
