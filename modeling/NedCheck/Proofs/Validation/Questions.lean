import Mathlib.Logic.Function.Basic
import NedCheck.Proofs.Validation.Frames

/-!
# What a validation asks

A validation learns of the resolver what it answers and nothing else. It asks one question after another, and the answers so far decide on the next question and in the end on the result; the state of the resolver is handed on from call to call and never looked at. `Resolver.Asks` says this of a call, and a whole validation is shown to be such a call once and for all. What is to be known of a validation in relation to its resolver then follows by an induction over questions, without going through the rules again.
-/

namespace NedCheck

variable {σ α β : Type}

namespace Resolver

/-- The calls of a resolver as questions to it, each with an answer and a new state. -/
inductive Question (resolver : Resolver σ) : {α : Type} → (σ → α × σ) → Prop where
  | lookupType (name : String) (context : LookupContext) : Question resolver (resolver.lookupType name context)
  | lookupTopLevel (qualifiedName project : String) :
    Question resolver (resolver.lookupTopLevel qualifiedName project)
  | expectedPackage? (file : String) : Question resolver (resolver.expectedPackage? file)
  | qualifiedNames (project : String) : Question resolver (resolver.qualifiedNames project)

/-- All that the call does is to ask questions, where the answers decide on the questions that follow and on the answer of the call. -/
inductive Asks (resolver : Resolver σ) : {α : Type} → (σ → α × σ) → Prop where
  | answer {α : Type} (answer : α) : Asks resolver fun state => (answer, state)
  | ask {α β : Type} {question : σ → α × σ} {next : α → σ → β × σ} : resolver.Question question →
    (∀ answer, Asks resolver (next answer)) → Asks resolver fun state => next (question state).1 (question state).2

namespace Asks

variable {resolver : Resolver σ} {call : σ → α × σ}

theorem bind (hcall : resolver.Asks call) {next : α → σ → β × σ} (hnext : ∀ answer, resolver.Asks (next answer)) :
    resolver.Asks fun state => next (call state).1 (call state).2 := by
  induction hcall with
  | answer answer => exact hnext answer
  | ask hquestion _ ih =>
    have hasks := Asks.ask hquestion fun answer => ih answer hnext
    exact hasks

theorem map (hcall : resolver.Asks call) (f : α → β) :
    resolver.Asks fun state => (f (call state).1, (call state).2) :=
  hcall.bind fun answer => .answer (f answer)

theorem single (hquestion : resolver.Question call) : resolver.Asks call :=
  .ask hquestion fun answer => .answer answer

theorem both {second : σ → β × σ} (hfirst : resolver.Asks call) (hsecond : resolver.Asks second) :
    resolver.Asks fun state => (((call state).1, (second (call state).2).1), (second (call state).2).2) :=
  hfirst.bind fun answer => hsecond.map (Prod.mk answer)

theorem of_answer [Nonempty σ] {result : σ → β × σ} (hcall : resolver.Asks call)
    (hstate : ∀ state, (result state).2 = (call state).2)
    (hanswer : ∀ left right, (call left).1 = (call right).1 → (result left).1 = (result right).1) :
    resolver.Asks result := by
  have hfactors : Function.FactorsThrough (fun state => (result state).1) fun state => (call state).1 :=
    fun left right => hanswer left right
  have : Nonempty β := ‹Nonempty σ›.map fun state => (result state).1
  obtain ⟨f, hf⟩ := (Function.factorsThrough_iff _).1 hfactors
  have hresult : result = fun state => (f (call state).1, (call state).2) :=
    funext fun state => Prod.ext (congrFun hf state) (hstate state)
  rw [hresult]
  exact hcall.map f

end Asks

end Resolver

/-- A ruling, its state apart. -/
def Ruling.answered (ruling : Ruling σ) : (List Report × Session × Verdict) × σ :=
  ((ruling.reports, ruling.session, ruling.verdict), ruling.state)

/-- An outcome, its state apart. -/
def Outcome.answered (outcome : Outcome σ) : (List Report × Session × Option ValidationFault) × σ :=
  ((outcome.reports, outcome.session, outcome.fault), outcome.state)

namespace Validator

/-! ### Going on -/

section Combinators

variable {resolver : Resolver σ}

theorem andThen_asks {outcome : σ → Outcome σ} {next : Session → σ → Outcome σ}
    (houtcome : resolver.Asks fun state => (outcome state).answered)
    (hnext : ∀ session, resolver.Asks fun state => (next session state).answered) :
    resolver.Asks fun state => ((outcome state).andThen next).answered := by
  -- what comes next hangs on the session the outcome has left, which is part of its answer
  have hrest (answer : List Report × Session × Option ValidationFault) : resolver.Asks fun state =>
      ((⟨answer.1, answer.2.1, state, answer.2.2⟩ : Outcome σ).andThen next).answered := by
    obtain ⟨reports, session, fault⟩ := answer
    cases fault with
    | some fault => exact .answer (reports, session, some fault)
    | none => exact (hnext session).map fun answer => (reports ++ answer.1, answer.2)
  exact houtcome.bind hrest

theorem follow_asks {ruling : σ → Ruling σ} {all : Session → σ → Outcome σ}
    {inner : String → Session → σ → Outcome σ} (hruling : resolver.Asks fun state => (ruling state).answered)
    (hall : ∀ session, resolver.Asks fun state => (all session state).answered)
    (hinner : ∀ owner session, resolver.Asks fun state => (inner owner session state).answered) :
    resolver.Asks fun state => ((ruling state).follow all inner).answered := by
  have hrest (answer : List Report × Session × Verdict) : resolver.Asks fun state =>
      ((⟨answer.1, answer.2.1, state, answer.2.2⟩ : Ruling σ).follow all inner).answered := by
    obtain ⟨reports, session, verdict⟩ := answer
    cases verdict with
    | fault fault => exact .answer (reports ++ [], session, some fault)
    | skip => exact .answer (reports ++ [], session, none)
    | descend => exact (hall session).map fun answer => (reports ++ answer.1, answer.2)
    | within frame =>
      exact (hall (session.enter frame)).map fun answer => (reports ++ answer.1, answer.2.1.leave frame, answer.2.2)
    | innerTypes owner => exact (hinner owner session).map fun answer => (reports ++ answer.1, answer.2)
  exact hruling.bind hrest

end Combinators

/-! ### Rules -/

section Rules

variable (v : Validator σ)

theorem lookupType_asks (name : String) (context : LookupContext) :
    v.resolver.Asks (v.resolver.lookupType name context) :=
  .single (.lookupType name context)

variable [Nonempty σ]

theorem submoduleType?_asks (submodule : Element) (context : LookupContext) :
    v.resolver.Asks (v.submoduleType? submodule context) := by
  unfold submoduleType?
  dsimp only
  split_ifs
  · exact (v.lookupType_asks (submodule.value "type") context).of_answer (by grind) (by grind)
  · exact (v.lookupType_asks (submodule.value "like-type") context).of_answer (by grind) (by grind)
  · exact .answer none

theorem channelType_asks (spec : Element) (context : LookupContext) :
    v.resolver.Asks (v.channelType spec context) := by
  unfold channelType
  dsimp only
  split_ifs
  · exact (v.lookupType_asks (spec.value "type") context).of_answer (by grind) (by grind)
  · exact (v.lookupType_asks (spec.value "like-type") context).of_answer (by grind) (by grind)
  · exact (Resolver.Asks.single (.lookupTopLevel v.defaultChannelType v.project)).of_answer (by grind) (by grind)

theorem endpointProblems_asks (connection : Element) (endpoint : Endpoint) (members : Table String Member) :
    v.resolver.Asks (v.endpointProblems connection endpoint members) := by
  have hgate (ref : EndpointRef) : v.resolver.Asks (v.endpointGate ref members) := by
    unfold endpointGate
    split_ifs
    · split <;> exact .answer _
    · split
      · exact .answer _
      · rename_i member _
        exact (v.submoduleType?_asks member.element (.type member.owner)).of_answer (by grind) (by grind)
  unfold endpointProblems
  exact (hgate (.read connection endpoint)).of_answer (by grind) (by grind)

variable (e : Element) (session : Session)

theorem enterImport_asks : v.resolver.Asks fun state => (v.enterImport e session state).answered := by
  unfold enterImport Ruling.answered
  by_cases hwildcard : isWildcardImport (e.value "import-spec") = true
  · simp only [if_pos hwildcard]
    exact (Resolver.Asks.single (.qualifiedNames v.project)).of_answer (by grind) (by grind)
  · simp only [if_neg hwildcard]
    exact (Resolver.Asks.single (.lookupTopLevel (e.value "import-spec") v.project)).of_answer (by grind) (by grind)

theorem enterExtends_asks : v.resolver.Asks fun state => (v.enterExtends e session state).answered := by
  unfold enterExtends Ruling.answered
  split
  · exact .answer (_, _, _)
  · rename_i type _
    exact (v.lookupType_asks e.name type.headerContext).of_answer (by grind) (by grind)

theorem enterInterfaceName_asks : v.resolver.Asks fun state => (v.enterInterfaceName e session state).answered := by
  unfold enterInterfaceName Ruling.answered
  split
  · exact .answer (_, _, _)
  · rename_i type _
    exact (v.lookupType_asks e.name type.headerContext).of_answer (by grind) (by grind)

theorem enterSubmodule_asks : v.resolver.Asks fun state => (v.enterSubmodule e session state).answered := by
  unfold enterSubmodule Ruling.answered
  split
  · exact .answer (_, _, _)
  · rename_i type _
    exact (v.submoduleType?_asks e (.type type.qualifiedName)).of_answer (by grind) (by grind)

theorem enterChannelSpec_asks : v.resolver.Asks fun state => (v.enterChannelSpec e session state).answered := by
  unfold enterChannelSpec Ruling.answered
  split
  · exact .answer (_, _, _)
  · rename_i type _
    exact (v.channelType_asks e (.type type.qualifiedName)).of_answer (by grind) (by grind)

theorem enterConnection_asks : v.resolver.Asks fun state => (v.enterConnection e session state).answered := by
  unfold enterConnection Ruling.answered
  split
  · exact .answer (_, _, _)
  · split_ifs
    · exact .answer (_, _, _)
    · have hsource := v.endpointProblems_asks e .source session.scope.members
      have hdestination := v.endpointProblems_asks e .destination session.scope.members
      exact (hsource.both hdestination).of_answer (by grind) (by grind)

theorem enter_asks : v.resolver.Asks fun state => (v.enter e session state).answered := by
  have hdecided (decision : Decision) :
      v.resolver.Asks fun state => (decided e session state decision).answered := by
    cases decision <;> exact .answer (_, _, _)
  have htype : v.resolver.Asks fun state => (enterType e session state).answered := by
    unfold enterType
    split_ifs <;> exact .answer (_, _, _)
  have htypes : v.resolver.Asks fun state => (enterTypes session state).answered := by
    unfold enterTypes
    split <;> exact .answer (_, _, _)
  unfold enter
  split
  · unfold enterFile Ruling.answered
    exact (Resolver.Asks.single (.expectedPackage? (e.value "filename"))).of_answer (by grind) (by grind)
  · exact v.enterImport_asks e session
  · exact v.enterExtends_asks e session
  · exact v.enterInterfaceName_asks e session
  iterate 5 exact htype
  · exact hdecided _
  · exact hdecided _
  · exact htypes
  · exact v.enterSubmodule_asks e session
  · exact v.enterConnection_asks e session
  · exact v.enterChannelSpec_asks e session
  all_goals exact .answer (_, _, _)

theorem registerInner_asks (owner : String) : v.resolver.Asks (v.registerInner owner e session) := by
  unfold registerInner
  exact (v.lookupType_asks e.name (.type owner)).of_answer (by grind) (by grind)

end Rules

/-! ### Walks -/

variable {v : Validator σ}

theorem validateAll_asks {children : List Element}
    (h : ∀ child ∈ children, ∀ session, v.resolver.Asks fun state => (v.validate child session state).answered)
    (session : Session) : v.resolver.Asks fun state => (v.validateAll children session state).answered := by
  induction children generalizing session with
  | nil =>
    unfold validateAll
    exact .answer (_, _, _)
  | cons child rest ih =>
    unfold validateAll
    exact andThen_asks (h child (by simp) session) (ih fun other hother => h other (by simp [hother]))

variable [Nonempty σ]

theorem validateInner_asks {children : List Element}
    (h : ∀ child ∈ children, ∀ session, v.resolver.Asks fun state => (v.validate child session state).answered)
    (owner : String) (session : Session) :
    v.resolver.Asks fun state => (v.validateInner owner children session state).answered := by
  induction children generalizing session with
  | nil =>
    unfold validateInner
    exact .answer (_, _, _)
  | cons child rest ih =>
    have hrest := ih fun other hother => h other (by simp [hother])
    unfold validateInner
    split_ifs
    · apply andThen_asks
      · exact (h child (by simp) (session.inner owner)).map fun answer => (answer.1, session, answer.2.2)
      · intro session
        exact (v.registerInner_asks child session owner).bind hrest
    · exact hrest session

variable (v)

/-- A validation is a row of questions, whatever it meets. -/
theorem validate_asks (e : Element) (session : Session) :
    v.resolver.Asks fun state => (v.validate e session state).answered := by
  induction e using Element.induction generalizing session with
  | step e ih =>
    simp only [validate_eq]
    exact follow_asks (v.enter_asks e session) (validateAll_asks ih) (validateInner_asks ih)

end Validator

/-! ### Constant answers -/

/-- The answers of the resolver depend on the questions alone, and not on when they are asked. -/
structure Resolver.Constant (resolver : Resolver σ) : Prop where
  lookupType (name : String) (context : LookupContext) (left right : σ) :
    (resolver.lookupType name context left).1 = (resolver.lookupType name context right).1
  lookupTopLevel (qualifiedName project : String) (left right : σ) :
    (resolver.lookupTopLevel qualifiedName project left).1 = (resolver.lookupTopLevel qualifiedName project right).1
  expectedPackage? (file : String) (left right : σ) :
    (resolver.expectedPackage? file left).1 = (resolver.expectedPackage? file right).1
  qualifiedNames (project : String) (left right : σ) :
    (resolver.qualifiedNames project left).1 = (resolver.qualifiedNames project right).1

theorem Resolver.Asks.answer_eq {resolver : Resolver σ} {call : σ → α × σ} (hcall : resolver.Asks call)
    (hconstant : resolver.Constant) (left right : σ) : (call left).1 = (call right).1 := by
  induction hcall generalizing left right with
  | answer answer => rfl
  | @ask _ _ question next hquestion _ ih =>
    have hsame : (question left).1 = (question right).1 := by
      cases hquestion with
      | lookupType name context => exact hconstant.lookupType name context left right
      | lookupTopLevel qualifiedName project => exact hconstant.lookupTopLevel qualifiedName project left right
      | expectedPackage? file => exact hconstant.expectedPackage? file left right
      | qualifiedNames project => exact hconstant.qualifiedNames project left right
    show (next (question left).1 _).1 = (next (question right).1 _).1
    rw [hsame]
    exact ih _ _ _

/-- The resolver as it answers in one state, however often it is asked. -/
def Resolver.frozen (resolver : Resolver σ) (state : σ) : Resolver Unit where
  lookupType name context _ := ((resolver.lookupType name context state).1, ())
  lookupTopLevel qualifiedName project _ := ((resolver.lookupTopLevel qualifiedName project state).1, ())
  expectedPackage? file _ := ((resolver.expectedPackage? file state).1, ())
  qualifiedNames project _ := ((resolver.qualifiedNames project state).1, ())

theorem Resolver.constant_frozen (resolver : Resolver σ) (state : σ) : (resolver.frozen state).Constant :=
  ⟨fun _ _ _ _ => rfl, fun _ _ _ _ => rfl, fun _ _ _ => rfl, fun _ _ _ => rfl⟩

theorem Validator.validate_answer_eq {v : Validator σ} (hconstant : v.resolver.Constant) (e : Element)
    (session : Session) (left right : σ) :
    (v.validate e session left).answered.1 = (v.validate e session right).answered.1 :=
  have : Nonempty σ := ⟨left⟩
  (v.validate_asks e session).answer_eq hconstant left right

end NedCheck
