import NedCheck.Validation.Rules

/-!
# Validation

The walk over an element tree, from the top down and in order. Each element is ruled on, and its children are validated as the ruling says. The walk ends at the first fault; what has been reported by then stands. A declaration that was entered is left again either way.

Inner types are validated in sessions of their own, so nothing passes between their scopes and the scope of the type around them, except that each becomes a member of that type once it has been validated.
-/

namespace NedCheck

/-- What a walk reports, the session and the state of the resolver after it, and the fault that ended it, if any. -/
structure Outcome (σ : Type) where
  reports : List Report
  session : Session
  state : σ
  fault : Option ValidationFault

namespace Outcome

variable {σ : Type}

/-- The outcome with earlier reports in front. -/
def after (outcome : Outcome σ) (earlier : List Report) : Outcome σ :=
  { outcome with reports := earlier ++ outcome.reports }

/-- The outcome once a declaration is left. -/
def leave (outcome : Outcome σ) (frame : Frame) : Outcome σ :=
  { outcome with session := outcome.session.leave frame }

/-- Goes on from an outcome, unless it ended in a fault. -/
def andThen (outcome : Outcome σ) (next : Session → σ → Outcome σ) : Outcome σ :=
  match outcome.fault with
  | some _ => outcome
  | none => (next outcome.session outcome.state).after outcome.reports

def diagnostics (outcome : Outcome σ) : List Diagnostic := outcome.reports.map Report.diagnostic

end Outcome

/-- Follows a ruling: reports what there is, then validates the children by `all`, or as inner types by `inner`. -/
def Ruling.follow {σ : Type} (ruling : Ruling σ) (all : Session → σ → Outcome σ)
    (inner : String → Session → σ → Outcome σ) : Outcome σ :=
  let outcome : Outcome σ := match ruling.verdict with
    | .fault fault => ⟨[], ruling.session, ruling.state, some fault⟩
    | .skip => ⟨[], ruling.session, ruling.state, none⟩
    | .descend => all ruling.session ruling.state
    | .within frame => (all (ruling.session.enter frame) ruling.state).leave frame
    | .innerTypes owner => inner owner ruling.session ruling.state
  outcome.after ruling.reports

namespace Validator

variable {σ : Type}

/-- Registers an inner type that has been validated in the scope of its owner. -/
def registerInner (v : Validator σ) (owner : String) (e : Element) (session : Session) (state : σ) :
    Session × σ :=
  let (found, state) := v.resolver.lookupType e.name (.type owner) state
  let scope := match found with
    | some info => session.scope.addInnerType e.name info
    | none => session.scope
  (session.withScope (scope.addMember e.name ⟨e, owner⟩), state)

mutual

/-- Validates an element and everything below it. -/
def validate (v : Validator σ) : Element → Session → σ → Outcome σ
  | e@⟨_, _, _, children, _, _⟩, session, state =>
    (v.enter e session state).follow (validateAll v children) fun owner => validateInner v owner children

/-- Validates elements one after another. -/
def validateAll (v : Validator σ) : List Element → Session → σ → Outcome σ
  | [], session, state => ⟨[], session, state, none⟩
  | e :: rest, session, state => (validate v e session state).andThen (validateAll v rest)

/-- Validates the type declarations among the elements as inner types of `owner`. -/
def validateInner (v : Validator σ) (owner : String) : List Element → Session → σ → Outcome σ
  | [], session, state => ⟨[], session, state, none⟩
  | e :: rest, session, state =>
    if e.tag.isTypeDeclaration then
      let inner := validate v e (session.inner owner) state
      { inner with session }.andThen fun session state =>
        let (session, state) := v.registerInner owner e session state
        validateInner v owner rest session state
    else validateInner v owner rest session state

end

theorem validate_eq (v : Validator σ) (e : Element) (session : Session) (state : σ) :
    v.validate e session state =
      (v.enter e session state).follow (v.validateAll e.children) fun owner => v.validateInner owner e.children := by
  cases e
  rw [validate]

end Validator

/-! ### Whole trees -/

/-- Validates a tree with the default settings, for a project whose types come from a resolver. -/
def validateTree {σ : Type} (resolver : Resolver σ) (project : String) (root : Element) (state : σ) : Outcome σ :=
  (Validator.standard resolver project).validate root .initial state

/-- The diagnostics of a tree, or the fault that ended its validation. -/
def checkFile {σ : Type} (resolver : Resolver σ) (project : String) (root : Element) (state : σ) :
    Except ValidationFault (List Diagnostic) × σ :=
  let outcome := validateTree resolver project root state
  match outcome.fault with
  | some fault => (.error fault, outcome.state)
  | none => (.ok outcome.diagnostics, outcome.state)

end NedCheck
