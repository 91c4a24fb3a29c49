import NedCheck.Proofs.Validation.Trace

/-!
# What imports matter to

The imports of a file are kept in the session for one purpose: a check of the caller may look at all of them when the walk comes to an import. So a tree without imports in it is validated in the same way whatever the imports of the session are. It may leave other imports behind, if there are files in it.
-/

namespace NedCheck

variable {σ : Type}

/-! ### Alike but for imports -/

/-- The sessions differ in nothing but their imports. -/
structure Session.Alike (left right : Session) : Prop where
  context : left.context = right.context
  package : left.package = right.package
  scope : left.scope = right.scope

structure Ruling.Alike (left right : Ruling σ) : Prop where
  reports : left.reports = right.reports
  session : left.session.Alike right.session
  state : left.state = right.state
  verdict : left.verdict = right.verdict

structure Outcome.Alike (left right : Outcome σ) : Prop where
  reports : left.reports = right.reports
  session : left.session.Alike right.session
  state : left.state = right.state
  fault : left.fault = right.fault

namespace Session

variable {left right : Session}

theorem Alike.withScope (h : left.Alike right) (scope : Scope) : (left.withScope scope).Alike (right.withScope scope) :=
  ⟨h.context, h.package, rfl⟩

theorem Alike.enter (h : left.Alike right) (frame : Frame) : (left.enter frame).Alike (right.enter frame) := by
  unfold Session.enter
  rw [h.scope]
  cases frame <;> exact h.withScope _

theorem Alike.leave (h : left.Alike right) (frame : Frame) : (left.leave frame).Alike (right.leave frame) := by
  unfold Session.leave
  rw [h.scope]
  cases frame <;> exact h.withScope _

theorem Alike.inner (h : left.Alike right) (owner : String) : (left.inner owner).Alike (right.inner owner) :=
  ⟨rfl, h.package, rfl⟩

end Session

theorem Outcome.Alike.after {left right : Outcome σ} (h : left.Alike right) (earlier : List Report) :
    (left.after earlier).Alike (right.after earlier) :=
  ⟨congrArg (earlier ++ ·) h.reports, h.session, h.state, h.fault⟩

theorem Outcome.Alike.andThen {left right : Outcome σ} {next : Session → σ → Outcome σ} (h : left.Alike right)
    (hnext : ∀ {left right : Session}, left.Alike right → ∀ state, (next left state).Alike (next right state)) :
    (left.andThen next).Alike (right.andThen next) := by
  cases hfault : left.fault with
  | some fault =>
    rw [andThen_of_some hfault, andThen_of_some (h.fault.symm.trans hfault)]
    exact h
  | none =>
    rw [andThen_of_none hfault, andThen_of_none (h.fault.symm.trans hfault), ← h.reports, ← h.state]
    exact (hnext h.session left.state).after left.reports

theorem Ruling.Alike.follow {left right : Ruling σ} {all : Session → σ → Outcome σ}
    {inner : String → Session → σ → Outcome σ} (h : left.Alike right)
    (hall : ∀ {left right : Session}, left.Alike right → ∀ state, (all left state).Alike (all right state))
    (hinner : ∀ owner {left right : Session}, left.Alike right → ∀ state,
      (inner owner left state).Alike (inner owner right state)) :
    (left.follow all inner).Alike (right.follow all inner) := by
  unfold Ruling.follow
  rw [← h.reports, ← h.state, ← h.verdict]
  refine Outcome.Alike.after ?_ left.reports
  cases left.verdict with
  | fault fault => exact ⟨rfl, h.session, rfl, rfl⟩
  | skip => exact ⟨rfl, h.session, rfl, rfl⟩
  | descend => exact hall h.session left.state
  | within frame =>
    have hbelow := hall (h.session.enter frame) left.state
    exact ⟨hbelow.reports, hbelow.session.leave frame, hbelow.state, hbelow.fault⟩
  | innerTypes owner => exact hinner owner h.session left.state

/-! ### Other imports -/

def Session.withImports (session : Session) (imports : List String) : Session := { session with imports }

def Ruling.withImports (ruling : Ruling σ) (imports : List String) : Ruling σ :=
  { ruling with session := ruling.session.withImports imports }

theorem Session.alike_withImports (session : Session) (imports : List String) :
    session.Alike (session.withImports imports) :=
  ⟨rfl, rfl, rfl⟩

theorem Session.Alike.eq_withImports {left right : Session} (h : left.Alike right) :
    right = left.withImports right.imports := by
  obtain ⟨context, package, imports, scope⟩ := right
  obtain ⟨rfl, rfl, rfl⟩ := h
  rfl

theorem Ruling.alike_withImports (ruling : Ruling σ) (imports : List String) : ruling.Alike (ruling.withImports imports) :=
  ⟨rfl, ruling.session.alike_withImports imports, rfl, rfl⟩

namespace Validator

variable (v : Validator σ) (imports : List String) (e : Element) (session : Session) (state : σ)

theorem decided_withImports (decision : Decision) :
    decided e (session.withImports imports) state decision = (decided e session state decision).withImports imports := by
  cases decision <;> rfl

theorem enterType_withImports :
    enterType e (session.withImports imports) state = (enterType e session state).withImports imports := by
  unfold enterType Session.withImports
  split_ifs <;> rfl

theorem enterTypes_withImports :
    enterTypes (session.withImports imports) state = (enterTypes session state).withImports imports := by
  unfold enterTypes Session.withImports
  dsimp only
  cases session.scope.currentType? <;> rfl

theorem enterExtends_withImports :
    v.enterExtends e (session.withImports imports) state = (v.enterExtends e session state).withImports imports := by
  unfold enterExtends Session.withImports
  dsimp only
  cases session.scope.currentType? with
  | none => rfl
  | some type =>
    dsimp only
    rcases v.resolver.lookupType e.name type.headerContext state with ⟨_ | base, state⟩
    · rfl
    · dsimp only
      split_ifs <;> rfl

theorem enterInterfaceName_withImports : v.enterInterfaceName e (session.withImports imports) state =
    (v.enterInterfaceName e session state).withImports imports := by
  unfold enterInterfaceName Session.withImports
  dsimp only
  cases session.scope.currentType? with
  | none => rfl
  | some type =>
    dsimp only
    rcases v.resolver.lookupType e.name type.headerContext state with ⟨_ | found, state⟩
    · rfl
    · dsimp only
      split_ifs <;> rfl

theorem enterSubmodule_withImports : v.enterSubmodule e (session.withImports imports) state =
    (v.enterSubmodule e session state).withImports imports := by
  unfold enterSubmodule Session.withImports
  dsimp only
  cases session.scope.currentType? with
  | none => rfl
  | some type =>
    dsimp only
    rcases v.submoduleType? e (.type type.qualifiedName) state with ⟨_ | _ | _, state⟩ <;>
      cases session.scope.declare e type.qualifiedName <;> rfl

theorem enterConnection_withImports : v.enterConnection e (session.withImports imports) state =
    (v.enterConnection e session state).withImports imports := by
  unfold enterConnection Session.withImports
  dsimp only
  cases session.scope.currentType? with
  | none => rfl
  | some type =>
    dsimp only
    split_ifs <;> rfl

theorem enterChannelSpec_withImports : v.enterChannelSpec e (session.withImports imports) state =
    (v.enterChannelSpec e session state).withImports imports := by
  unfold enterChannelSpec Session.withImports
  dsimp only
  cases session.scope.currentType? with
  | none => rfl
  | some type =>
    dsimp only
    rcases v.channelType e (.type type.qualifiedName) state with ⟨_ | _ | _, state⟩ <;> rfl

variable {v} {e} {left right : Session}

theorem enter_alike (himport : e.tag ≠ .importDecl) (h : left.Alike right) :
    (v.enter e left state).Alike (v.enter e right state) := by
  rw [h.eq_withImports]
  have halike (ruling : Ruling σ) := ruling.alike_withImports right.imports
  unfold enter
  split
  · exact ⟨rfl, ⟨rfl, rfl, rfl⟩, rfl, rfl⟩
  · exact absurd ‹_› himport
  · rw [enterExtends_withImports]
    exact halike _
  · rw [enterInterfaceName_withImports]
    exact halike _
  iterate 5
    rw [enterType_withImports]
    exact halike _
  · rw [decided_withImports]
    exact halike _
  · rw [decided_withImports]
    exact halike _
  · rw [enterTypes_withImports]
    exact halike _
  · rw [enterSubmodule_withImports]
    exact halike _
  · rw [enterConnection_withImports]
    exact halike _
  · rw [enterChannelSpec_withImports]
    exact halike _
  all_goals exact halike _

/-! ### Walks without imports -/

theorem validateAll_alike {children : List Element}
    (hchildren : ∀ child ∈ children, ∀ {left right : Session}, left.Alike right → ∀ state,
      (v.validate child left state).Alike (v.validate child right state)) (h : left.Alike right) (state : σ) :
    (v.validateAll children left state).Alike (v.validateAll children right state) := by
  induction children generalizing left right state with
  | nil =>
    rw [validateAll, validateAll]
    exact ⟨rfl, h, rfl, rfl⟩
  | cons child rest ih =>
    rw [validateAll, validateAll]
    exact (hchildren child (by simp) h state).andThen (ih fun other hother => hchildren other (by simp [hother]))

theorem validateInner_alike {children : List Element}
    (hchildren : ∀ child ∈ children, ∀ {left right : Session}, left.Alike right → ∀ state,
      (v.validate child left state).Alike (v.validate child right state)) (owner : String) (h : left.Alike right)
    (state : σ) : (v.validateInner owner children left state).Alike (v.validateInner owner children right state) := by
  induction children generalizing left right state with
  | nil =>
    rw [validateInner, validateInner]
    exact ⟨rfl, h, rfl, rfl⟩
  | cons child rest ih =>
    have hchild := hchildren child (by simp) (h.inner owner) state
    rw [validateInner, validateInner]
    split_ifs
    · refine Outcome.Alike.andThen ⟨hchild.reports, h, hchild.state, hchild.fault⟩ fun {left right} h state => ?_
      have hregistered : (v.registerInner owner child left state).1.Alike (v.registerInner owner child right state).1 := by
        unfold registerInner
        rw [h.scope]
        exact h.withScope _
      exact ih (fun other hother => hchildren other (by simp [hother])) hregistered _
    · exact ih (fun other hother => hchildren other (by simp [hother])) h state

/-- A tree without imports is validated in the same way whatever the imports are. -/
theorem validate_alike (himports : ∀ d ∈ e.descendants, d.tag ≠ .importDecl) (h : left.Alike right) (state : σ) :
    (v.validate e left state).Alike (v.validate e right state) := by
  induction e using Element.induction generalizing left right state with
  | step e ih =>
    have hchildren : ∀ child ∈ e.children, ∀ {left right : Session}, left.Alike right → ∀ state,
        (v.validate child left state).Alike (v.validate child right state) := fun child hchild _ _ h state =>
      ih child hchild (fun d hd =>
        himports d (Element.mem_descendants_trans (Element.mem_descendants_of_mem_children hchild) hd)) h state
    rw [validate_eq, validate_eq]
    exact (enter_alike state (himports e e.mem_descendants_self) h).follow (validateAll_alike hchildren)
      fun owner _ _ => validateInner_alike hchildren owner

end Validator

end NedCheck
