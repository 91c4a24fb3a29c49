import Mathlib.Data.List.Induction
import NedCheck.Proofs.Validation.Trace

/-!
# What holds all along a walk

A property of sessions that a walk keeps holds wherever the walk comes to. `Maintains` says what there is to keep it through: rulings, and the entering, leaving and registering that goes with them. The walk is then through with each element in a session that has the property, and so comes to the next one in such a session as well.
-/

namespace NedCheck

variable {σ : Type}

namespace Validator

/-- What the walk does at its points, and around the elements below them, keeps the property. -/
structure Maintains (v : Validator σ) (start : Point σ) (holds : Session → Prop) : Prop where
  ruling {point : Point σ} : v.Visits start point → holds point.session → holds (v.rulingAt point).session
  enter {point : Point σ} {frame : Frame} : v.Visits start point → (v.rulingAt point).verdict = .within frame →
    holds (v.rulingAt point).session → holds ((v.rulingAt point).session.enter frame)
  leave {session : Session} {frame : Frame} {outer : List Frame} : session.scope.frames = frame :: outer →
    holds session → holds (session.leave frame)
  inner {session : Session} (owner : String) : holds session → holds (session.inner owner)
  registerInner {session : Session} {e : Element} (owner : String) (state : σ) : e.tag.isTypeDeclaration = true →
    holds session → holds (v.registerInner owner e session state).1

variable {v : Validator σ} {holds : Session → Prop} {session : Session} {state : σ}

theorem holds_validateAll {children : List Element} (hstart : holds session)
    (h : ∀ before child rest, children = before ++ child :: rest → (v.validateAll before session state).fault = none →
      holds (v.validateAll before session state).session →
      holds (v.validate child (v.validateAll before session state).session
        (v.validateAll before session state).state).session) :
    holds (v.validateAll children session state).session := by
  induction children using List.reverseRecOn with
  | nil =>
    rw [validateAll]
    exact hstart
  | append_singleton before child ih =>
    have hbefore : holds (v.validateAll before session state).session := by
      refine ih fun earlier other rest heq => h earlier other (rest ++ [child]) ?_
      simp [heq]
    rw [validateAll_append]
    cases hfault : (v.validateAll before session state).fault with
    | some fault =>
      rw [Outcome.andThen_of_some hfault]
      exact hbefore
    | none =>
      have hchild := h before child [] rfl hfault hbefore
      rw [Outcome.andThen_of_none hfault, Outcome.after_session]
      generalize (v.validateAll before session state).session = later, (v.validateAll before session state).state =
        met at hchild
      cases hlast : (v.validate child later met).fault with
      | some fault => rwa [validateAll_cons_of_some hlast]
      | none =>
        rw [validateAll_cons_of_none hlast, Outcome.after_session, validateAll]
        exact hchild

namespace Maintains

variable {start point : Point σ} (hmaintains : v.Maintains start holds)

include hmaintains

theorem validateInner (owner : String) {children : List Element} (hstart : holds session) :
    holds (v.validateInner owner children session state).session := by
  induction children generalizing session state with
  | nil =>
    rw [Validator.validateInner]
    exact hstart
  | cons child rest ih =>
    by_cases htype : child.tag.isTypeDeclaration = true
    · cases hfault : (v.validate child (session.inner owner) state).fault with
      | some fault => rwa [validateInner_cons_of_some htype hfault]
      | none =>
        rw [validateInner_cons_of_none htype hfault, Outcome.after_session]
        exact ih (hmaintains.registerInner owner _ htype hstart)
    · rw [validateInner_cons_of_other htype]
      exact ih hstart

theorem outcomeAt (hvisits : v.Visits start point) (hpoint : holds point.session) :
    holds (v.outcomeAt point).session := by
  obtain ⟨e, session, state⟩ := point
  induction e using Element.induction generalizing session state with
  | step e ih =>
    have hruling := hmaintains.ruling hvisits hpoint
    unfold rulingAt at hruling
    rw [Validator.outcomeAt, validate_eq]
    unfold Ruling.follow
    rw [Outcome.after_session]
    cases hverdict : (v.enter e session state).verdict with
    | fault fault => exact hruling
    | skip => exact hruling
    | descend =>
      refine holds_validateAll hruling fun before child rest hchildren hnone hbefore => ?_
      have hmem : child ∈ e.children := by
        rw [hchildren]
        simp
      exact ih child hmem _ _ (hvisits.tail (.descend hchildren hverdict rfl hnone)) hbefore
    | within frame =>
      have hentered := hmaintains.enter hvisits hverdict hruling
      have hframes := (v.restores_validateAll (fun child (_ : child ∈ e.children) => v.restores_validate child)
        ((v.enter e session state).session.enter frame) (v.enter e session state).state).frames
      rw [Session.enter_frames] at hframes
      refine hmaintains.leave hframes (holds_validateAll hentered fun before child rest hchildren hnone hbefore => ?_)
      have hmem : child ∈ e.children := by
        rw [hchildren]
        simp
      exact ih child hmem _ _ (hvisits.tail (.within hchildren hverdict rfl hnone)) hbefore
    | innerTypes owner => exact hmaintains.validateInner owner hruling

/-- What a walk maintains holds wherever it comes to. -/
theorem of_visits (hstart : holds start.session) (h : v.Visits start point) : holds point.session := by
  induction h with
  | refl => exact hstart
  | @tail between point hvisits hstep ih =>
    have hruling := hmaintains.ruling hvisits ih
    cases hstep with
    | @descend before rest child row hchildren hverdict hrow hfault =>
      subst hrow
      refine holds_validateAll hruling fun earlier other later heq hnone hbefore => ?_
      have hsplit : between.element.children = earlier ++ other :: (later ++ child :: rest) := by simp [hchildren, heq]
      exact hmaintains.outcomeAt (hvisits.tail (.descend hsplit hverdict rfl hnone)) hbefore
    | @within frame before rest child row hchildren hverdict hrow hfault =>
      subst hrow
      refine holds_validateAll (hmaintains.enter hvisits hverdict hruling) fun earlier other later heq hnone hbefore => ?_
      have hsplit : between.element.children = earlier ++ other :: (later ++ child :: rest) := by simp [hchildren, heq]
      exact hmaintains.outcomeAt (hvisits.tail (.within hsplit hverdict rfl hnone)) hbefore
    | inner hchildren hverdict htype hrow hfault =>
      subst hrow
      exact hmaintains.inner _ (hmaintains.validateInner _ hruling)

end Maintains

end Validator

end NedCheck
