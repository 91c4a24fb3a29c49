import NedCheck.Proofs.Validation.Clean
import NedCheck.Proofs.Validation.Visits

/-!
# The course of a walk

`trace` lists the points that a walk comes to, in the order it comes to them. These are the points that steps lead to, and what the walk reports is what it reports at these points, one after another. What is reported on an element and all below it is a section of what is reported on any element above that the walk has come by.
-/

namespace NedCheck

variable {σ : Type}

/-! ### Going on -/

namespace Outcome

section After

variable (outcome : Outcome σ) (earlier : List Report)

@[simp] theorem after_reports : (outcome.after earlier).reports = earlier ++ outcome.reports := rfl

@[simp] theorem after_session : (outcome.after earlier).session = outcome.session := rfl

@[simp] theorem after_state : (outcome.after earlier).state = outcome.state := rfl

@[simp] theorem after_fault : (outcome.after earlier).fault = outcome.fault := rfl

end After

variable {outcome : Outcome σ} {next : Session → σ → Outcome σ}

theorem andThen_of_none (h : outcome.fault = none) :
    outcome.andThen next = (next outcome.session outcome.state).after outcome.reports := by
  rw [andThen, h]

theorem andThen_of_some {fault : ValidationFault} (h : outcome.fault = some fault) :
    outcome.andThen next = outcome := by
  rw [andThen, h]

theorem andThen_assoc (outcome : Outcome σ) (next later : Session → σ → Outcome σ) :
    (outcome.andThen next).andThen later =
      outcome.andThen fun session state => (next session state).andThen later := by
  cases hfault : outcome.fault with
  | some fault => rw [andThen_of_some hfault, andThen_of_some hfault, andThen_of_some hfault]
  | none =>
    rw [andThen_of_none hfault, andThen_of_none hfault]
    cases hnext : (next outcome.session outcome.state).fault with
    | some fault =>
      have hafter : ((next outcome.session outcome.state).after outcome.reports).fault = some fault := hnext
      rw [andThen_of_some hnext, andThen_of_some hafter]
    | none =>
      have hafter : ((next outcome.session outcome.state).after outcome.reports).fault = none := hnext
      rw [andThen_of_none hnext, andThen_of_none hafter]
      simp only [after, List.append_assoc]

/-- What one walk reports is a section of what another one reports, which ends in a fault if the first does. -/
structure Part (part whole : Outcome σ) : Prop where
  reports : part.reports <:+: whole.reports
  fault : whole.fault = none → part.fault = none

namespace Part

variable {part between whole : Outcome σ}

theorem refl (outcome : Outcome σ) : outcome.Part outcome := ⟨List.infix_rfl, id⟩

theorem trans (hleft : part.Part between) (hright : between.Part whole) : part.Part whole :=
  ⟨hleft.reports.trans hright.reports, fun hfault => hleft.fault (hright.fault hfault)⟩

theorem after (outcome : Outcome σ) (earlier : List Report) : outcome.Part (outcome.after earlier) :=
  ⟨(List.suffix_append _ _).isInfix, id⟩

theorem first (outcome : Outcome σ) (next : Session → σ → Outcome σ) : outcome.Part (outcome.andThen next) := by
  cases hfault : outcome.fault with
  | some fault =>
    rw [andThen_of_some hfault]
    exact refl outcome
  | none =>
    rw [andThen_of_none hfault]
    exact ⟨(List.prefix_append _ _).isInfix, fun _ => hfault⟩

theorem second (hfault : outcome.fault = none) :
    (next outcome.session outcome.state).Part (outcome.andThen next) := by
  rw [andThen_of_none hfault]
  exact after _ _

theorem leave (h : part.Part whole) (frame : Frame) : part.Part (whole.leave frame) := ⟨h.reports, h.fault⟩

theorem diagnostics (h : part.Part whole) : part.diagnostics <:+: whole.diagnostics := h.reports.map _

end Part

end Outcome

namespace Validator

variable {v : Validator σ}

section Rows

variable {child : Element} {rest : List Element} {session : Session} {state : σ} {owner : String}

theorem validateAll_cons_of_none (h : (v.validate child session state).fault = none) :
    v.validateAll (child :: rest) session state =
      (v.validateAll rest (v.validate child session state).session (v.validate child session state).state).after
        (v.validate child session state).reports := by
  rw [validateAll, Outcome.andThen_of_none h]

theorem validateAll_cons_of_some {fault : ValidationFault} (h : (v.validate child session state).fault = some fault) :
    v.validateAll (child :: rest) session state = v.validate child session state := by
  rw [validateAll, Outcome.andThen_of_some h]

theorem validateInner_cons_of_none (htype : child.tag.isTypeDeclaration = true)
    (h : (v.validate child (session.inner owner) state).fault = none) :
    v.validateInner owner (child :: rest) session state =
      (v.validateInner owner rest
          (v.registerInner owner child session (v.validate child (session.inner owner) state).state).1
          (v.registerInner owner child session (v.validate child (session.inner owner) state).state).2).after
        (v.validate child (session.inner owner) state).reports := by
  rw [validateInner, if_pos htype]
  exact Outcome.andThen_of_none h

theorem validateInner_cons_of_some {fault : ValidationFault} (htype : child.tag.isTypeDeclaration = true)
    (h : (v.validate child (session.inner owner) state).fault = some fault) :
    v.validateInner owner (child :: rest) session state =
      { v.validate child (session.inner owner) state with session } := by
  rw [validateInner, if_pos htype]
  exact Outcome.andThen_of_some h

theorem validateInner_cons_of_other (htype : ¬child.tag.isTypeDeclaration = true) :
    v.validateInner owner (child :: rest) session state = v.validateInner owner rest session state := by
  rw [validateInner, if_neg htype]

end Rows

theorem validateAll_append (left right : List Element) (session : Session) (state : σ) :
    v.validateAll (left ++ right) session state = (v.validateAll left session state).andThen (v.validateAll right) := by
  induction left generalizing session state with
  | nil =>
    rw [List.nil_append, validateAll]
    rfl
  | cons child rest ih =>
    rw [List.cons_append, validateAll, validateAll, Outcome.andThen_assoc]
    congr 1
    funext session state
    exact ih session state

theorem validateInner_append (owner : String) (left right : List Element) (session : Session) (state : σ) :
    v.validateInner owner (left ++ right) session state =
      (v.validateInner owner left session state).andThen (v.validateInner owner right) := by
  induction left generalizing session state with
  | nil =>
    rw [List.nil_append, validateInner]
    rfl
  | cons child rest ih =>
    rw [List.cons_append, validateInner, validateInner]
    split
    · dsimp only
      rw [Outcome.andThen_assoc]
      congr 1
      funext session state
      exact ih _ _
    · exact ih session state

/-! ### The points of a walk -/

mutual

/-- The points that the walk over an element comes to, in order. -/
def trace (v : Validator σ) : Element → Session → σ → List (Point σ)
  | e@⟨_, _, _, children, _, _⟩, session, state =>
    let ruling := v.enter e session state
    ⟨e, session, state⟩ :: match ruling.verdict with
      | .fault _ => []
      | .skip => []
      | .descend => traceAll v children ruling.session ruling.state
      | .within frame => traceAll v children (ruling.session.enter frame) ruling.state
      | .innerTypes owner => traceInner v owner children ruling.session ruling.state

def traceAll (v : Validator σ) : List Element → Session → σ → List (Point σ)
  | [], _, _ => []
  | e :: rest, session, state =>
    let outcome := v.validate e session state
    trace v e session state ++
      if outcome.fault.isSome then [] else traceAll v rest outcome.session outcome.state

def traceInner (v : Validator σ) (owner : String) : List Element → Session → σ → List (Point σ)
  | [], _, _ => []
  | e :: rest, session, state =>
    if e.tag.isTypeDeclaration then
      let inner := v.validate e (session.inner owner) state
      trace v e (session.inner owner) state ++
        if inner.fault.isSome then []
        else
          let (session, state) := v.registerInner owner e session inner.state
          traceInner v owner rest session state
    else traceInner v owner rest session state

end

/-- The points below the first one. -/
def traceBelow (v : Validator σ) (point : Point σ) : List (Point σ) :=
  match (v.rulingAt point).verdict with
  | .fault _ => []
  | .skip => []
  | .descend => v.traceAll point.element.children (v.rulingAt point).session (v.rulingAt point).state
  | .within frame =>
    v.traceAll point.element.children ((v.rulingAt point).session.enter frame) (v.rulingAt point).state
  | .innerTypes owner =>
    v.traceInner owner point.element.children (v.rulingAt point).session (v.rulingAt point).state

theorem trace_eq (v : Validator σ) (e : Element) (session : Session) (state : σ) :
    v.trace e session state = ⟨e, session, state⟩ :: v.traceBelow ⟨e, session, state⟩ := by
  cases e
  rw [trace]
  rfl

section

variable {v : Validator σ} {e : Element} {session : Session} {state : σ}

theorem traceBelow_of_descend (h : (v.enter e session state).verdict = .descend) :
    v.traceBelow ⟨e, session, state⟩ =
      v.traceAll e.children (v.enter e session state).session (v.enter e session state).state := by
  unfold traceBelow rulingAt
  rw [h]

theorem traceBelow_of_within {frame : Frame} (h : (v.enter e session state).verdict = .within frame) :
    v.traceBelow ⟨e, session, state⟩ =
      v.traceAll e.children ((v.enter e session state).session.enter frame) (v.enter e session state).state := by
  unfold traceBelow rulingAt
  rw [h]

theorem traceBelow_of_innerTypes {owner : String} (h : (v.enter e session state).verdict = .innerTypes owner) :
    v.traceBelow ⟨e, session, state⟩ =
      v.traceInner owner e.children (v.enter e session state).session (v.enter e session state).state := by
  unfold traceBelow rulingAt
  rw [h]

end

/-! ### Sections of a walk -/

theorem part_validateAll {before rest : List Element} {child : Element} {session : Session} {state : σ}
    (hrow : (v.validateAll before session state).fault = none) :
    (v.validate child (v.validateAll before session state).session (v.validateAll before session state).state).Part
      (v.validateAll (before ++ child :: rest) session state) := by
  rw [validateAll_append]
  refine .trans ?_ (.second hrow)
  rw [validateAll]
  exact .first _ _

theorem part_validateInner {owner : String} {before rest : List Element} {child : Element} {session : Session}
    {state : σ} (htype : child.tag.isTypeDeclaration = true)
    (hrow : (v.validateInner owner before session state).fault = none) :
    (v.validate child ((v.validateInner owner before session state).session.inner owner)
        (v.validateInner owner before session state).state).Part
      (v.validateInner owner (before ++ child :: rest) session state) := by
  rw [validateInner_append]
  refine .trans ?_ (.second hrow)
  rw [validateInner, if_pos htype]
  -- the session of the inner type is dropped, which nobody sees in what it reports
  have hdropped (inner : Outcome σ) (session : Session) : inner.Part { inner with session } := ⟨List.infix_rfl, id⟩
  exact (hdropped _ _).trans (.first _ _)

/-- What is reported on a child and below it is a section of what is reported on its parent and below. -/
theorem Step.part {point next : Point σ} (h : v.Step point next) : (v.outcomeAt next).Part (v.outcomeAt point) := by
  have hwhole : v.outcomeAt point = ((v.rulingAt point).below (v.validateAll point.element.children) fun owner =>
      v.validateInner owner point.element.children).after (v.rulingAt point).reports := v.validate_eq _ _ _
  rw [hwhole]
  refine .trans ?_ (.after _ _)
  unfold Ruling.below
  cases h with
  | descend hchildren hverdict hrow hfault =>
    subst hrow
    rw [hverdict, hchildren]
    exact part_validateAll hfault
  | within hchildren hverdict hrow hfault =>
    subst hrow
    rw [hverdict, hchildren]
    exact .leave (part_validateAll hfault) _
  | inner hchildren hverdict htype hrow hfault =>
    subst hrow
    rw [hverdict, hchildren]
    exact part_validateInner htype hfault

theorem Visits.part {start point : Point σ} (h : v.Visits start point) :
    (v.outcomeAt point).Part (v.outcomeAt start) := by
  induction h with
  | refl => exact .refl _
  | tail _ hstep ih => exact hstep.part.trans ih

theorem exists_step {point : Point σ} {child : Element} (hfault : (v.outcomeAt point).fault = none)
    (hverdict : (v.rulingAt point).verdict = .descend ∨ ∃ frame, (v.rulingAt point).verdict = .within frame)
    (hchild : child ∈ point.element.children) : ∃ next, v.Step point next ∧ next.element = child := by
  obtain ⟨before, rest, hchildren⟩ := List.append_of_mem hchild
  have hrow {session : Session} {state : σ} (h : (v.validateAll point.element.children session state).fault = none) :
      (v.validateAll before session state).fault = none := by
    rw [hchildren, validateAll_append] at h
    exact (Outcome.Part.first _ _).fault h
  have hbelow : ((v.rulingAt point).below (v.validateAll point.element.children) fun owner =>
      v.validateInner owner point.element.children).fault = none := by
    rw [outcomeAt, validate_eq] at hfault
    exact hfault
  unfold Ruling.below at hbelow
  rcases hverdict with hverdict | ⟨frame, hverdict⟩ <;> rw [hverdict] at hbelow
  · exact ⟨_, .descend hchildren hverdict rfl (hrow hbelow), rfl⟩
  · exact ⟨_, .within hchildren hverdict rfl (hrow hbelow), rfl⟩

/-! ### Where a fault comes from -/

section Fault

variable {session : Session} {state : σ} {fault : ValidationFault}

theorem exists_of_fault_validateAll {children : List Element}
    (h : (v.validateAll children session state).fault = some fault) :
    ∃ before child rest, children = before ++ child :: rest ∧ (v.validateAll before session state).fault = none ∧
      (v.validate child (v.validateAll before session state).session
        (v.validateAll before session state).state).fault = some fault := by
  induction children generalizing session state with
  | nil =>
    rw [validateAll] at h
    exact absurd h (by simp)
  | cons child rest ih =>
    cases hchild : (v.validate child session state).fault with
    | some found =>
      rw [validateAll_cons_of_some hchild, hchild] at h
      refine ⟨[], child, rest, rfl, by rw [validateAll], ?_⟩
      rw [validateAll]
      exact hchild.trans h
    | none =>
      rw [validateAll_cons_of_none hchild] at h
      obtain ⟨before, next, after, rfl, hrow, hnext⟩ := ih h
      refine ⟨child :: before, next, after, rfl, ?_⟩
      rw [validateAll_cons_of_none hchild]
      exact ⟨hrow, hnext⟩

theorem exists_of_fault_validateInner {owner : String} {children : List Element}
    (h : (v.validateInner owner children session state).fault = some fault) :
    ∃ before child rest, children = before ++ child :: rest ∧ child.tag.isTypeDeclaration = true ∧
      (v.validateInner owner before session state).fault = none ∧
      (v.validate child ((v.validateInner owner before session state).session.inner owner)
        (v.validateInner owner before session state).state).fault = some fault := by
  induction children generalizing session state with
  | nil =>
    rw [validateInner] at h
    exact absurd h (by simp)
  | cons child rest ih =>
    by_cases htype : child.tag.isTypeDeclaration = true
    · cases hchild : (v.validate child (session.inner owner) state).fault with
      | some found =>
        rw [validateInner_cons_of_some htype hchild] at h
        refine ⟨[], child, rest, rfl, htype, by rw [validateInner], ?_⟩
        rw [validateInner]
        exact h
      | none =>
        rw [validateInner_cons_of_none htype hchild] at h
        obtain ⟨before, next, after, rfl, hnext, hrow, hfault⟩ := ih h
        refine ⟨child :: before, next, after, rfl, hnext, ?_⟩
        rw [validateInner_cons_of_none htype hchild]
        exact ⟨hrow, hfault⟩
    · rw [validateInner_cons_of_other htype] at h
      obtain ⟨before, next, after, rfl, hnext, hrow, hfault⟩ := ih h
      refine ⟨child :: before, next, after, rfl, hnext, ?_⟩
      rw [validateInner_cons_of_other htype]
      exact ⟨hrow, hfault⟩

theorem Step.fault_eq {point next : Point σ} (h : v.Step point next) (hfault : (v.outcomeAt next).fault = some fault) :
    (v.outcomeAt point).fault = some fault := by
  have hwhole : v.outcomeAt point = ((v.rulingAt point).below (v.validateAll point.element.children) fun owner =>
      v.validateInner owner point.element.children).after (v.rulingAt point).reports := v.validate_eq _ _ _
  rw [hwhole, Outcome.after_fault]
  unfold Ruling.below
  unfold outcomeAt at hfault
  cases h with
  | descend hchildren hverdict hrow hnone =>
    subst hrow
    rw [hverdict, hchildren]
    dsimp only
    rw [validateAll_append, Outcome.andThen_of_none hnone, validateAll_cons_of_some hfault, Outcome.after_fault, hfault]
  | within hchildren hverdict hrow hnone =>
    subst hrow
    rw [hverdict, hchildren]
    dsimp only [Outcome.leave]
    rw [validateAll_append, Outcome.andThen_of_none hnone, validateAll_cons_of_some hfault, Outcome.after_fault, hfault]
  | inner hchildren hverdict htype hrow hnone =>
    subst hrow
    rw [hverdict, hchildren]
    dsimp only
    rw [validateInner_append, Outcome.andThen_of_none hnone, validateInner_cons_of_some htype hfault,
      Outcome.after_fault, hfault]

theorem exists_of_fault {e : Element} (h : (v.validate e session state).fault = some fault) :
    ∃ point, v.Visits ⟨e, session, state⟩ point ∧ (v.rulingAt point).verdict = .fault fault := by
  induction e using Element.induction generalizing session state with
  | step e ih =>
    have hbelow : ((v.enter e session state).below (v.validateAll e.children) fun owner =>
        v.validateInner owner e.children).fault = some fault := by
      rw [validate_eq] at h
      exact h
    unfold Ruling.below at hbelow
    cases hverdict : (v.enter e session state).verdict with
    | fault found =>
      rw [hverdict] at hbelow
      obtain rfl := Option.some.inj hbelow
      exact ⟨_, .refl, hverdict⟩
    | skip =>
      rw [hverdict] at hbelow
      exact absurd hbelow (by simp)
    | descend =>
      rw [hverdict] at hbelow
      obtain ⟨before, child, rest, hchildren, hrow, hchild⟩ := exists_of_fault_validateAll hbelow
      obtain ⟨point, hvisits, hpoint⟩ := ih child (by simp [hchildren]) hchild
      exact ⟨point, .head (.descend hchildren hverdict rfl hrow) hvisits, hpoint⟩
    | within frame =>
      rw [hverdict] at hbelow
      obtain ⟨before, child, rest, hchildren, hrow, hchild⟩ := exists_of_fault_validateAll hbelow
      obtain ⟨point, hvisits, hpoint⟩ := ih child (by simp [hchildren]) hchild
      exact ⟨point, .head (.within hchildren hverdict rfl hrow) hvisits, hpoint⟩
    | innerTypes owner =>
      rw [hverdict] at hbelow
      obtain ⟨before, child, rest, hchildren, htype, hrow, hchild⟩ := exists_of_fault_validateInner hbelow
      obtain ⟨point, hvisits, hpoint⟩ := ih child (by simp [hchildren]) hchild
      exact ⟨point, .head (.inner hchildren hverdict htype rfl hrow) hvisits, hpoint⟩

theorem fault_eq_some_iff {e : Element} : (v.validate e session state).fault = some fault ↔
    ∃ point, v.Visits ⟨e, session, state⟩ point ∧ (v.rulingAt point).verdict = .fault fault := by
  refine ⟨exists_of_fault, ?_⟩
  rintro ⟨point, hvisits, hverdict⟩
  have hpoint : (v.outcomeAt point).fault = some fault := by
    unfold rulingAt at hverdict
    rw [outcomeAt, validate_eq]
    unfold Ruling.follow
    rw [hverdict]
    rfl
  have hstart : ∀ start, v.Visits start point → (v.outcomeAt start).fault = some fault := by
    intro start h
    induction h using Relation.ReflTransGen.head_induction_on with
    | refl => exact hpoint
    | head hstep _ ih => exact hstep.fault_eq ih
  exact hstart _ hvisits

end Fault

/-! ### Points and steps -/

variable {session : Session} {state : σ} {point : Point σ}

theorem exists_of_mem_traceAll {children : List Element} (h : point ∈ v.traceAll children session state) :
    ∃ before child rest, children = before ++ child :: rest ∧ (v.validateAll before session state).fault = none ∧
      point ∈ v.trace child (v.validateAll before session state).session (v.validateAll before session state).state := by
  induction children generalizing session state with
  | nil =>
    rw [traceAll] at h
    exact absurd h List.not_mem_nil
  | cons child rest ih =>
    rw [traceAll] at h
    rcases List.mem_append.1 h with hchild | hrest
    · exact ⟨[], child, rest, rfl, by rw [validateAll], by rwa [validateAll]⟩
    · cases hfault : (v.validate child session state).fault with
      | some fault => simp [hfault] at hrest
      | none =>
        obtain ⟨before, next, after, rfl, hrow, hpoint⟩ := ih (by simpa [hfault] using hrest)
        refine ⟨child :: before, next, after, rfl, ?_⟩
        rw [validateAll_cons_of_none hfault]
        exact ⟨hrow, hpoint⟩

theorem traceAll_append (left right : List Element) (session : Session) (state : σ) :
    v.traceAll (left ++ right) session state = v.traceAll left session state ++
      if (v.validateAll left session state).fault.isSome then []
      else v.traceAll right (v.validateAll left session state).session (v.validateAll left session state).state := by
  induction left generalizing session state with
  | nil =>
    rw [validateAll, traceAll]
    rfl
  | cons child rest ih =>
    rw [List.cons_append, traceAll, traceAll]
    cases hfault : (v.validate child session state).fault with
    | some fault => simp [validateAll_cons_of_some hfault, hfault]
    | none => simp [validateAll_cons_of_none hfault, ih]

theorem mem_traceAll {before rest : List Element} {child : Element}
    (hrow : (v.validateAll before session state).fault = none)
    (h : point ∈ v.trace child (v.validateAll before session state).session (v.validateAll before session state).state) :
    point ∈ v.traceAll (before ++ child :: rest) session state := by
  rw [traceAll_append, hrow, traceAll]
  exact List.mem_append_right _ (List.mem_append_left _ h)

theorem exists_of_mem_traceInner {owner : String} {children : List Element}
    (h : point ∈ v.traceInner owner children session state) :
    ∃ before child rest, children = before ++ child :: rest ∧ child.tag.isTypeDeclaration = true ∧
      (v.validateInner owner before session state).fault = none ∧
      point ∈ v.trace child ((v.validateInner owner before session state).session.inner owner)
        (v.validateInner owner before session state).state := by
  induction children generalizing session state with
  | nil =>
    rw [traceInner] at h
    exact absurd h List.not_mem_nil
  | cons child rest ih =>
    rw [traceInner] at h
    by_cases htype : child.tag.isTypeDeclaration = true
    · rw [if_pos htype] at h
      rcases List.mem_append.1 h with hchild | hrest
      · exact ⟨[], child, rest, rfl, htype, by rw [validateInner], by rwa [validateInner]⟩
      · cases hfault : (v.validate child (session.inner owner) state).fault with
        | some fault => simp [hfault] at hrest
        | none =>
          obtain ⟨before, next, after, rfl, hnext, hrow, hpoint⟩ := ih (by simpa [hfault] using hrest)
          refine ⟨child :: before, next, after, rfl, hnext, ?_⟩
          rw [validateInner_cons_of_none htype hfault]
          exact ⟨hrow, hpoint⟩
    · rw [if_neg htype] at h
      obtain ⟨before, next, after, rfl, hnext, hrow, hpoint⟩ := ih h
      refine ⟨child :: before, next, after, rfl, hnext, ?_⟩
      rw [validateInner_cons_of_other htype]
      exact ⟨hrow, hpoint⟩

theorem traceInner_append (owner : String) (left right : List Element) (session : Session) (state : σ) :
    v.traceInner owner (left ++ right) session state = v.traceInner owner left session state ++
      if (v.validateInner owner left session state).fault.isSome then []
      else v.traceInner owner right (v.validateInner owner left session state).session
        (v.validateInner owner left session state).state := by
  induction left generalizing session state with
  | nil =>
    rw [validateInner, traceInner]
    rfl
  | cons child rest ih =>
    rw [List.cons_append, traceInner, traceInner]
    by_cases htype : child.tag.isTypeDeclaration = true
    · cases hfault : (v.validate child (session.inner owner) state).fault with
      | some fault => simp [htype, validateInner_cons_of_some htype hfault, hfault]
      | none =>
        simp [htype, validateInner_cons_of_none htype hfault, hfault, ih]
    · rw [validateInner_cons_of_other htype]
      simp [htype, ih]

theorem mem_traceInner {owner : String} {before rest : List Element} {child : Element}
    (htype : child.tag.isTypeDeclaration = true) (hrow : (v.validateInner owner before session state).fault = none)
    (h : point ∈ v.trace child ((v.validateInner owner before session state).session.inner owner)
      (v.validateInner owner before session state).state) :
    point ∈ v.traceInner owner (before ++ child :: rest) session state := by
  rw [traceInner_append, hrow, traceInner, if_pos htype]
  exact List.mem_append_right _ (List.mem_append_left _ h)

theorem mem_traceBelow_iff {start : Point σ} :
    point ∈ v.traceBelow start ↔ ∃ next, v.Step start next ∧ point ∈ v.trace next.element next.session next.state := by
  unfold traceBelow
  constructor
  · intro h
    cases hverdict : (v.rulingAt start).verdict with
    | fault fault => simp [hverdict] at h
    | skip => simp [hverdict] at h
    | descend =>
      rw [hverdict] at h
      obtain ⟨before, child, rest, hchildren, hrow, hpoint⟩ := exists_of_mem_traceAll h
      exact ⟨_, .descend hchildren hverdict rfl hrow, hpoint⟩
    | within frame =>
      rw [hverdict] at h
      obtain ⟨before, child, rest, hchildren, hrow, hpoint⟩ := exists_of_mem_traceAll h
      exact ⟨_, .within hchildren hverdict rfl hrow, hpoint⟩
    | innerTypes owner =>
      rw [hverdict] at h
      obtain ⟨before, child, rest, hchildren, htype, hrow, hpoint⟩ := exists_of_mem_traceInner h
      exact ⟨_, .inner hchildren hverdict htype rfl hrow, hpoint⟩
  · rintro ⟨next, hstep, hpoint⟩
    cases hstep with
    | descend hchildren hverdict hrow hfault =>
      subst hrow
      rw [hverdict, hchildren]
      exact mem_traceAll hfault hpoint
    | within hchildren hverdict hrow hfault =>
      subst hrow
      rw [hverdict, hchildren]
      exact mem_traceAll hfault hpoint
    | inner hchildren hverdict htype hrow hfault =>
      subst hrow
      rw [hverdict, hchildren]
      exact mem_traceInner htype hfault hpoint

/-- The points of a walk are those that steps lead to. -/
theorem mem_trace_iff {e : Element} : point ∈ v.trace e session state ↔ v.Visits ⟨e, session, state⟩ point := by
  constructor
  · intro h
    induction e using Element.induction generalizing session state with
    | step e ih =>
      rw [trace_eq] at h
      rcases List.mem_cons.1 h with rfl | hbelow
      · exact .refl
      · obtain ⟨next, hstep, hpoint⟩ := mem_traceBelow_iff.1 hbelow
        exact .head hstep (ih next.element hstep.mem_children hpoint)
  · intro h
    have htrace : ∀ start, v.Visits start point → point ∈ v.trace start.element start.session start.state := by
      intro start h
      induction h using Relation.ReflTransGen.head_induction_on with
      | refl =>
        rw [trace_eq]
        exact List.mem_cons_self
      | head hstep _ ih =>
        rw [trace_eq]
        exact List.mem_cons_of_mem _ (mem_traceBelow_iff.2 ⟨_, hstep, ih⟩)
    exact htrace _ h

/-! ### What is reported on the way -/

theorem reports_validateAll {children : List Element}
    (h : ∀ child ∈ children, ∀ session state, (v.validate child session state).reports =
      (v.trace child session state).flatMap fun point => (v.rulingAt point).reports) (session : Session) (state : σ) :
    (v.validateAll children session state).reports =
      (v.traceAll children session state).flatMap fun point => (v.rulingAt point).reports := by
  induction children generalizing session state with
  | nil => rw [validateAll, traceAll, List.flatMap_nil]
  | cons child rest ih =>
    have hchild := h child (by simp) session state
    have hrest := ih fun other hother => h other (by simp [hother])
    rw [traceAll, List.flatMap_append, ← hchild]
    cases hfault : (v.validate child session state).fault with
    | some fault => simp [validateAll_cons_of_some hfault]
    | none =>
      rw [validateAll_cons_of_none hfault, Outcome.after, hrest]
      rfl

theorem reports_validateInner {owner : String} {children : List Element}
    (h : ∀ child ∈ children, ∀ session state, (v.validate child session state).reports =
      (v.trace child session state).flatMap fun point => (v.rulingAt point).reports) (session : Session) (state : σ) :
    (v.validateInner owner children session state).reports =
      (v.traceInner owner children session state).flatMap fun point => (v.rulingAt point).reports := by
  induction children generalizing session state with
  | nil => rw [validateInner, traceInner, List.flatMap_nil]
  | cons child rest ih =>
    have hchild := h child (by simp) (session.inner owner) state
    have hrest := ih fun other hother => h other (by simp [hother])
    rw [traceInner]
    by_cases htype : child.tag.isTypeDeclaration = true
    · rw [if_pos htype]
      dsimp only
      rw [List.flatMap_append, ← hchild]
      cases hfault : (v.validate child (session.inner owner) state).fault with
      | some fault => simp [validateInner_cons_of_some htype hfault]
      | none =>
        rw [validateInner_cons_of_none htype hfault, Outcome.after, hrest]
        rfl
    · rw [if_neg htype, validateInner_cons_of_other htype]
      exact hrest session state

/-- What a walk reports is what it reports at its points, one after another. -/
theorem reports_eq (v : Validator σ) (e : Element) (session : Session) (state : σ) :
    (v.validate e session state).reports =
      (v.trace e session state).flatMap fun point => (v.rulingAt point).reports := by
  induction e using Element.induction generalizing session state with
  | step e ih =>
    rw [validate_eq, trace_eq, List.flatMap_cons]
    unfold Ruling.follow traceBelow rulingAt
    dsimp only [Outcome.after]
    congr 1
    cases (v.enter e session state).verdict with
    | fault fault => rfl
    | skip => rfl
    | descend => exact reports_validateAll ih _ _
    | within frame => exact reports_validateAll ih _ _
    | innerTypes owner => exact reports_validateInner ih _ _

end Validator

end NedCheck
