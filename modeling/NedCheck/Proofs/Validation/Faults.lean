import NedCheck.Proofs.Validation.Settled

/-!
# The faults of a sound file

In a file that fits the schema and has no unknown elements every element is met inside what its rule asks for. The only faults left are omissions. Validation ends at the first omission in document order, and without a fault if there is none, inner types and skipped elements included: whatever is skipped holds no submodule and no channel spec.
-/

namespace NedCheck

namespace Validator

variable {σ : Type} {v : Validator σ}

theorem FirstOmission.andThen {start : σ} {left right : List Element} {outcome : Outcome σ}
    {next : Session → σ → Outcome σ} (h : v.FirstOmission start left outcome.fault)
    (hreaches : v.resolver.Reaches start outcome.state)
    (hnext : v.FirstOmission outcome.state right (next outcome.session outcome.state).fault) :
    v.FirstOmission start (left ++ right) (outcome.andThen next).fault := by
  unfold Outcome.andThen
  cases hfault : outcome.fault with
  | some fault =>
    rw [hfault] at h
    dsimp only
    rw [hfault]
    exact h.append_of_some
  | none =>
    rw [hfault] at h
    exact h.append_of_none (hnext.of_reaches hreaches)

theorem firstOmission_validateAll {children : List Element}
    (h : ∀ child ∈ children, ∀ session state, child.tag.setting.Holds session.scope →
      v.FirstOmission state child.descendants (v.validate child session state).fault)
    {session : Session} (hplaces : ∀ child ∈ children, child.tag.setting.Holds session.scope) (state : σ) :
    v.FirstOmission state (children.flatMap Element.descendants) (v.validateAll children session state).fault := by
  induction children generalizing session state with
  | nil =>
    rw [validateAll]
    exact .nil
  | cons child rest ih =>
    have hrestores := v.restores_validate child session state
    have hrest : ∀ other ∈ rest, other.tag.setting.Holds (v.validate child session state).session.scope :=
      fun other hother => (hplaces other (by simp [hother])).congr hrestores.frames
    rw [validateAll, List.flatMap_cons]
    refine (h child (by simp) session state (hplaces child (by simp))).andThen hrestores.reaches ?_
    exact ih (fun other hother => h other (by simp [hother])) hrest _

theorem firstOmission_validateInner {children : List Element}
    (h : ∀ child ∈ children, ∀ session state, child.tag.setting.Holds session.scope →
      v.FirstOmission state child.descendants (v.validate child session state).fault)
    (hplaces : ∀ child ∈ children, child.tag.isTypeDeclaration = true ∨
      ∀ d ∈ child.descendants, d.tag.setting = .anywhere)
    (owner : String) (session : Session) (state : σ) :
    v.FirstOmission state (children.flatMap Element.descendants)
      (v.validateInner owner children session state).fault := by
  induction children generalizing session state with
  | nil =>
    rw [validateInner]
    exact .nil
  | cons child rest ih =>
    have hrest := ih (fun other hother => h other (by simp [hother])) fun other hother =>
      hplaces other (by simp [hother])
    rw [validateInner, List.flatMap_cons]
    by_cases htype : child.tag.isTypeDeclaration = true
    · rw [if_pos htype]
      -- an inner type is validated with nothing entered
      have hplace : child.tag.setting.Holds (session.inner owner).scope := by
        rw [Tag.setting_of_isTypeDeclaration htype]
        rfl
      have hchild := h child (by simp) (session.inner owner) state hplace
      have hrestores := v.restores_validate child (session.inner owner) state
      refine FirstOmission.andThen (v := v) hchild hrestores.reaches ?_
      exact (hrest _ _).of_reaches (v.registerInner_keeps owner child session _).2
    · rw [if_neg htype]
      have hchild := (hplaces child (by simp)).resolve_left htype
      exact (FirstOmission.of_forall_anywhere hchild).append_of_none (hrest session state)

/-- The fault of a walk over a tree whose elements are all in their places is the first omission in it. -/
theorem firstOmission_validate {e : Element} (hplaced : e.Placed) {session : Session}
    (h : e.tag.setting.Holds session.scope) (state : σ) :
    v.FirstOmission state e.descendants (v.validate e session state).fault := by
  induction e using Element.induction generalizing session state with
  | step e ih =>
    have hbelow : ∀ child ∈ e.children, ∀ session state, child.tag.setting.Holds session.scope →
        v.FirstOmission state child.descendants (v.validate child session state).fault :=
      fun child hchild _ state hplace => ih child hchild (hplaced.child hchild) hplace state
    have hreaches := (v.keeps_enter e session state).reaches
    have hsettled : v.Settled e state (v.enter e session state) := settled_enter hplaced.known h
    rw [validate_eq, Element.descendants_eq]
    unfold Ruling.follow
    unfold Settled at hsettled
    dsimp only [Outcome.after]
    cases hverdict : (v.enter e session state).verdict with
    | fault fault =>
      rw [hverdict] at hsettled
      exact .here _ (.refl _) hsettled
    | skip =>
      rw [hverdict] at hsettled
      refine .later (.refl _) hsettled.1 (FirstOmission.of_forall_anywhere fun d hd => ?_)
      obtain ⟨child, hchild, hd⟩ := List.mem_flatMap.1 hd
      exact (hplaced.child hchild).setting_anywhere (hsettled.2 _ (hplaced.children child hchild)) d hd
    | descend =>
      rw [hverdict] at hsettled
      refine .later (.refl _) hsettled.1 (FirstOmission.of_reaches hreaches ?_)
      exact firstOmission_validateAll hbelow (fun child hchild => hsettled.2 _ (hplaced.children child hchild)) _
    | within frame =>
      rw [hverdict] at hsettled
      refine .later (.refl _) hsettled.1 (FirstOmission.of_reaches hreaches ?_)
      exact firstOmission_validateAll hbelow (fun child hchild => hsettled.2 _ (hplaced.children child hchild)) _
    | innerTypes owner =>
      rw [hverdict] at hsettled
      refine .later (.refl _) hsettled.1 (FirstOmission.of_reaches hreaches ?_)
      refine firstOmission_validateInner hbelow ?_ owner _ _
      intro child hchild
      rcases hsettled.2 _ (hplaced.children child hchild) with htype | hplace
      · exact .inl htype
      · exact .inr ((hplaced.child hchild).setting_anywhere hplace)

/-- The validation of a file that passes the structural checks and has no unknown elements ends at the first omission in document order, whatever the resolver answers, and without a fault if nothing is omitted. So a fault is a submodule without a type or a channel spec without one, never an element in a place its rule does not expect. With a resolver that always answers alike on the default channel type, there is no fault if and only if every submodule has a type or like-type and, where a channel spec has neither, there is that default. -/
theorem validate_file_fault (v : Validator σ) {file : Element} (hfile : file.tag = .nedFile)
    (hsound : (ParseTree.ofElement file).isSound = true) (hknown : ∀ e ∈ file.descendants, e.tag ≠ .unknown)
    {session : Session} (hscope : session.scope.currentType? = none) (state : σ) :
    v.FirstOmission state file.descendants (v.validate file session state).fault ∧
    (∀ fault, (v.validate file session state).fault = some fault →
      ∃ e ∈ file.descendants, e.isUntyped = true ∧
        (e.tag = .submodule ∧ fault = .submoduleWithoutType e.name ∨
          e.tag = .channelSpec ∧ fault = .missingDefaultChannel v.defaultChannelType)) ∧
    (∀ resolves : Bool,
      (∀ met, v.resolver.Reaches state met →
        (v.resolver.lookupTopLevel v.defaultChannelType v.project met).1.isSome = resolves) →
      (v.validate file session state).fault = file.descendants.findSome? (v.omission? · state) ∧
      ((v.validate file session state).fault = none ↔
        (∀ e ∈ file.descendants, e.tag = .submodule → e.isUntyped = false) ∧
          ((∃ e ∈ file.descendants, e.tag = .channelSpec ∧ e.isUntyped = true) → resolves = true))) := by
  have hplaced := (ParseTree.isSound_ofElement_iff.1 hsound).placed hknown
  have hplace : file.tag.setting.Holds session.scope := by
    rw [hfile]
    exact hscope
  have hfirst := firstOmission_validate (v := v) hplaced hplace state
  refine ⟨hfirst, ?_, ?_⟩
  · intro fault hfault
    rw [hfault] at hfirst
    exact hfirst.exists_of_some
  · intro resolves hresolves
    have hstart := hresolves state (.refl _)
    have hsome := hfirst.eq_findSome? fun e _ met hmet =>
      omission?_congr e ((hresolves met hmet).trans hstart.symm)
    refine ⟨hsome, ?_⟩
    rw [hsome, List.findSome?_eq_none_iff]
    constructor
    · intro hnone
      refine ⟨fun e he => (omission?_eq_none_iff.1 (hnone e he)).1, ?_⟩
      intro hspec
      obtain ⟨e, he, htag, huntyped⟩ := hspec
      exact hstart.symm.trans ((omission?_eq_none_iff.1 (hnone e he)).2 htag huntyped)
    · intro htyped e he
      refine omission?_eq_none_iff.2 ⟨htyped.1 e he, fun htag huntyped => ?_⟩
      exact hstart.trans (htyped.2 ⟨e, he, htag, huntyped⟩)

/-- A file with a network of one connection, whose channel spec names no type. -/
def bareLinkFile : Element :=
  let spec : Element := .new .channelSpec
  let values := ["", "", "out", "false", "", "", "", "", "in", "false", "", "", "l2r"]
  let link : Element := ⟨0, .connection, .fill _ values, [spec], none, {}⟩
  let network : Element :=
    ⟨0, .compoundModule, .fill _ ["Net"], [{ Element.new .connections with children := [link] }], none, {}⟩
  { Element.new .nedFile with children := [network] }

/-- A resolver that knows no types. -/
def ignorant : Resolver Unit where
  lookupType _ _ _ := (none, ())
  lookupTopLevel _ _ _ := (none, ())
  expectedPackage? _ _ := (none, ())
  qualifiedNames _ _ := ([], ())

theorem validate_file_fault_bareLinkFile :
    ((standard ignorant "p").validate bareLinkFile .initial ()).fault =
      some (.missingDefaultChannel "ned.DatarateChannel") := by
  have hsound : (ParseTree.ofElement bareLinkFile).isSound = true := by decide +kernel
  have hknown : ∀ e ∈ bareLinkFile.descendants, e.tag ≠ .unknown := by decide +kernel
  have hscope : Session.initial.scope.currentType? = none := rfl
  have hfault := validate_file_fault (standard ignorant "p") rfl hsound hknown hscope ()
  rw [(hfault.2.2 false fun _ _ => rfl).1]
  decide +kernel

end Validator

end NedCheck
