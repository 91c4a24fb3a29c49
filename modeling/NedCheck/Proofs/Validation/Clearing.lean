import NedCheck.Proofs.Validation.Frames
import NedCheck.TypeIndex.Lookup

/-!
# A clear scope stays clear

Members and inner types are only ever written inside a type: outside of all types a rule either has nothing to do with them or ends in a fault before it writes. And a type clears the scope on its way out, whether its body ended in a fault or not. So a validation that starts with a clear scope ends with one, whatever it meets in between. No property of the tree is needed for this; an element in a place where it does not belong makes for a fault and no more.
-/

namespace NedCheck

/-! ### Clear scopes -/

namespace Scope

theorem isClear_iff {scope : Scope} : scope.isClear = true ↔ scope = .empty := by
  obtain ⟨members, innerTypes, frames⟩ := scope
  simp only [isClear, empty, Table.isEmpty, Bool.and_eq_true, List.isEmpty_iff, Scope.mk.injEq,
    Table.ext_iff, Table.entries_empty, and_assoc]

theorem clear_eq_empty {scope : Scope} (h : scope.frames = []) : scope.clear = .empty := by
  rw [clear, h]
  rfl

end Scope

namespace Validator

variable {σ : Type} (v : Validator σ)

/-! ### Rulings outside of types -/

/-- A ruling that leaves the scope as it is, and after which nothing is entered but a type. -/
structure Untouched (session : Session) (ruling : Ruling σ) : Prop where
  scope : ruling.session.scope = session.scope
  within {frame : Frame} : ruling.verdict = .within frame → ∃ opened, frame = .type opened
  inner (owner : String) : ruling.verdict ≠ .innerTypes owner

variable {session : Session}

theorem untouched_fault (reports : List Report) (state : σ) (fault : ValidationFault) :
    Untouched session ⟨reports, session, state, .fault fault⟩ :=
  ⟨rfl, by simp, by simp⟩

theorem untouched_decided (e : Element) (state : σ) {decision : Decision}
    (h : ∀ scope, decision = .accept scope → scope = session.scope) :
    Untouched session (decided e session state decision) := by
  cases decision with
  | fault fault => exact untouched_fault [] state fault
  | reject problem => exact ⟨rfl, by simp [decided], by simp [decided]⟩
  | accept scope => exact ⟨h scope rfl, by simp [decided], by simp [decided]⟩

variable (houtside : session.scope.currentType? = none)

include houtside

theorem eq_of_judgeParam_outside {param : Element} {scope : Scope}
    (h : session.scope.judgeParam param = .accept scope) : scope = session.scope := by
  unfold Scope.judgeParam at h
  rw [houtside] at h
  grind [Scope.eq_of_assignParam]

theorem eq_of_judgeGate_outside {gate : Element} {scope : Scope}
    (h : session.scope.judgeGate gate = .accept scope) : scope = session.scope := by
  unfold Scope.judgeGate at h
  rw [houtside] at h
  grind [Scope.eq_of_useGate]

/-- Every rule that writes to the scope or enters a submodule or channel spec asks for the type around it first. -/
theorem untouched_enter (e : Element) (state : σ) : Untouched session (v.enter e session state) := by
  unfold enter
  split
  · exact ⟨rfl, by simp [enterFile], by simp [enterFile]⟩
  · exact ⟨rfl, by simp [enterImport], by simp [enterImport]⟩
  · simp only [enterExtends, houtside]
    exact untouched_fault [] state _
  · simp only [enterInterfaceName, houtside]
    exact untouched_fault [] state _
  -- the five kinds of type declaration
  iterate 5
    rw [enterType, houtside, Option.isSome_none, if_neg Bool.false_ne_true]
    refine ⟨rfl, ?_, by simp⟩
    intro frame hframe
    exact ⟨_, (Verdict.within.inj hframe).symm⟩
  · exact untouched_decided e state fun _ => eq_of_judgeParam_outside houtside
  · exact untouched_decided e state fun _ => eq_of_judgeGate_outside houtside
  · simp only [enterTypes, houtside]
    exact untouched_fault [] state _
  · simp only [enterSubmodule, houtside]
    exact untouched_fault [] state _
  · simp only [enterConnection, houtside]
    exact untouched_fault [] state _
  · simp only [enterChannelSpec, houtside]
    exact untouched_fault [] state _
  all_goals exact ⟨rfl, by simp, by simp⟩

omit houtside

/-! ### Walks from a clear scope -/

theorem scope_validateAll_eq_empty {children : List Element}
    (h : ∀ child ∈ children, ∀ session state, session.scope = .empty →
      (v.validate child session state).session.scope = .empty)
    {session : Session} (hempty : session.scope = .empty) (state : σ) :
    (v.validateAll children session state).session.scope = .empty := by
  induction children generalizing session state with
  | nil => rwa [validateAll]
  | cons child rest ih =>
    have hchild := h child (by simp) session state hempty
    rw [validateAll]
    unfold Outcome.andThen
    split
    · exact hchild
    · exact ih (fun other hother => h other (by simp [hother])) hchild _

variable {v}

/-- What is entered is a type, and leaving it clears the scope. -/
theorem Untouched.scope_follow_eq_empty {ruling : Ruling σ} {all : Session → σ → Outcome σ}
    {inner : String → Session → σ → Outcome σ} (h : Untouched session ruling) (hempty : session.scope = .empty)
    (hrestores : ∀ session state, v.Restores session state (all session state))
    (hall : ∀ session state, session.scope = .empty → (all session state).session.scope = .empty) :
    (ruling.follow all inner).session.scope = .empty := by
  have hruling : ruling.session.scope = .empty := h.scope.trans hempty
  unfold Ruling.follow
  dsimp only [Outcome.after]
  cases hverdict : ruling.verdict with
  | fault fault => exact hruling
  | skip => exact hruling
  | descend => exact hall ruling.session ruling.state hruling
  | within frame =>
    obtain ⟨opened, rfl⟩ := h.within hverdict
    apply Scope.clear_eq_empty
    have hframes := (hrestores (ruling.session.enter (.type opened)) ruling.state).frames
    show (all (ruling.session.enter (.type opened)) ruling.state).session.scope.frames.tail = []
    rw [hframes, Session.enter_frames, List.tail_cons, hruling]
    rfl
  | innerTypes owner => exact absurd hverdict (h.inner owner)

variable (v)

theorem scope_validate_eq_empty (e : Element) {session : Session} (hempty : session.scope = .empty) (state : σ) :
    (v.validate e session state).session.scope = .empty := by
  induction e using Element.induction generalizing session state with
  | step e ih =>
    have houtside : session.scope.currentType? = none := by
      rw [hempty]
      rfl
    rw [validate_eq]
    refine (v.untouched_enter houtside e state).scope_follow_eq_empty (v := v) hempty ?_ ?_
    · exact v.restores_validateAll fun child _ => v.restores_validate child
    · intro session state hclear
      exact v.scope_validateAll_eq_empty (fun child hchild _ state hclear => ih child hchild hclear state) hclear state

/-- Whatever the tree, the resolver, the hooks and the settings are: a validation that starts with a clear scope ends with a clear scope, and one that starts anywhere, as on an element inside a declaration, ends inside the very declarations it started in. Both hold whether it ends in a fault or not. -/
theorem validate_leaves_scope (e : Element) (session : Session) (state : σ) :
    (session.scope.isClear = true → (v.validate e session state).session.scope.isClear = true) ∧
      (v.validate e session state).session.scope.frames = session.scope.frames := by
  refine ⟨?_, (v.restores_validate e session state).frames⟩
  intro hclear
  rw [Scope.isClear_iff] at hclear ⊢
  exact v.scope_validate_eq_empty e hclear state

/-- A compound module with a type declaration in the body of a submodule, where none belongs. -/
def misplacedTypeModule : Element :=
  let misplaced : Element := ⟨0, .simpleModule, .fill _ ["Inner"], [], none, {}⟩
  let submodule : Element := ⟨0, .submodule, .fill _ ["node", "Node"], [misplaced], none, {}⟩
  ⟨0, .compoundModule, .fill _ ["Net"], [{ Element.new .submodules with children := [submodule] }], none, {}⟩

/-- The fault comes up with the submodule entered and a member of the module. -/
theorem validate_leaves_scope_misplacedType :
    ((standard TypeIndex.resolver "p").validate misplacedTypeModule .initial .empty).fault =
        some (.nestedTypeScope "Inner") ∧
      ((standard TypeIndex.resolver "p").validate misplacedTypeModule .initial .empty).session.scope.isClear = true := by
  refine ⟨by decide +kernel, ?_⟩
  exact ((standard TypeIndex.resolver "p").validate_leaves_scope misplacedTypeModule .initial .empty).1 rfl

end Validator

end NedCheck
