import NedCheck.Proofs.TypeIndex.Declarations
import NedCheck.Proofs.Validation.Setting

/-!
# The points of a walk

A walk over a file comes to one element after another, each in the session that the elements before it have left. `Step` leads from an element to any of its children that the walk comes to, and `Visits` strings steps together.

What a walk knows of where it is and what the index knows of the same place are worked out apart, the one on the way down and the other when a file is added. `Situated` is what they have in common: a type declaration is met in the context that its header is registered with, under a session that gives it the name it is registered under. Each step keeps this up, so it holds at every point of a walk over a file that fits the schema.
-/

namespace NedCheck

variable {σ : Type}

/-! ### The file a session is in -/

namespace Session

/-- The later session is for types declared in the same place of the same file. -/
structure Stays (session later : Session) : Prop where
  context : later.context = session.context
  package : later.package = session.package
  imports : later.imports = session.imports

variable {session between later : Session}

theorem Stays.refl (session : Session) : session.Stays session := ⟨rfl, rfl, rfl⟩

theorem Stays.trans (hleft : session.Stays between) (hright : between.Stays later) : session.Stays later :=
  ⟨hright.context.trans hleft.context, hright.package.trans hleft.package, hright.imports.trans hleft.imports⟩

theorem stays_withScope (session : Session) (scope : Scope) : session.Stays (session.withScope scope) := ⟨rfl, rfl, rfl⟩

theorem stays_enter (session : Session) (frame : Frame) : session.Stays (session.enter frame) := by
  cases frame <;> exact ⟨rfl, rfl, rfl⟩

theorem stays_leave (session : Session) (frame : Frame) : session.Stays (session.leave frame) := by
  cases frame <;> exact ⟨rfl, rfl, rfl⟩

end Session

namespace Validator

variable (v : Validator σ)

theorem stays_decided (e : Element) (session : Session) (state : σ) (decision : Decision) :
    session.Stays (decided e session state decision).session := by
  cases decision with
  | fault fault => exact .refl _
  | reject problem => exact .refl _
  | accept scope => exact session.stays_withScope scope

theorem stays_enterType (e : Element) (session : Session) (state : σ) :
    session.Stays (enterType e session state).session := by
  unfold enterType
  split_ifs <;> exact .refl _

theorem stays_enterTypes (session : Session) (state : σ) : session.Stays (enterTypes session state).session := by
  unfold enterTypes
  split <;> exact .refl _

theorem stays_enterExtends (e : Element) (session : Session) (state : σ) :
    session.Stays (v.enterExtends e session state).session := by
  unfold enterExtends
  split
  · exact .refl _
  · split
    · exact .refl _
    · split_ifs
      · exact .refl _
      · exact session.stays_withScope _

theorem stays_enterInterfaceName (e : Element) (session : Session) (state : σ) :
    session.Stays (v.enterInterfaceName e session state).session := by
  unfold enterInterfaceName
  split
  · exact .refl _
  · split
    · exact .refl _
    · split_ifs <;> exact .refl _

theorem stays_enterSubmodule (e : Element) (session : Session) (state : σ) :
    session.Stays (v.enterSubmodule e session state).session := by
  unfold enterSubmodule
  split
  · exact .refl _
  · dsimp only
    split <;> exact session.stays_withScope _

theorem stays_enterConnection (e : Element) (session : Session) (state : σ) :
    session.Stays (v.enterConnection e session state).session := by
  unfold enterConnection
  split
  · exact .refl _
  · split_ifs <;> exact .refl _

theorem stays_enterChannelSpec (e : Element) (session : Session) (state : σ) :
    session.Stays (v.enterChannelSpec e session state).session := by
  unfold enterChannelSpec
  split
  · exact .refl _
  · split <;> exact .refl _

theorem stays_enter {e : Element} (h : e.tag ≠ .nedFile) (session : Session) (state : σ) :
    session.Stays (v.enter e session state).session := by
  unfold enter
  split
  · exact absurd ‹_› h
  · exact .refl _
  · exact v.stays_enterExtends e session state
  · exact v.stays_enterInterfaceName e session state
  iterate 5 exact stays_enterType e session state
  · exact stays_decided e session state _
  · exact stays_decided e session state _
  · exact stays_enterTypes session state
  · exact v.stays_enterSubmodule e session state
  · exact v.stays_enterConnection e session state
  · exact v.stays_enterChannelSpec e session state
  all_goals exact .refl _

variable {v}

theorem stays_validateAll {children : List Element}
    (h : ∀ child ∈ children, ∀ (session : Session) state, session.Stays (v.validate child session state).session)
    (session : Session) (state : σ) : session.Stays (v.validateAll children session state).session := by
  induction children generalizing session state with
  | nil =>
    rw [validateAll]
    exact .refl _
  | cons child rest ih =>
    have hchild := h child (by simp) session state
    rw [validateAll]
    unfold Outcome.andThen
    split
    · exact hchild
    · exact hchild.trans (ih (fun other hother => h other (by simp [hother])) _ _)

theorem stays_validateInner (owner : String) (children : List Element) (session : Session) (state : σ) :
    session.Stays (v.validateInner owner children session state).session := by
  induction children generalizing session state with
  | nil =>
    rw [validateInner]
    exact .refl _
  | cons child rest ih =>
    rw [validateInner]
    split
    · unfold Outcome.andThen
      dsimp only
      split
      · exact .refl _
      · have hregistered (state : σ) : session.Stays (v.registerInner owner child session state).1 :=
          session.stays_withScope _
        exact (hregistered _).trans (ih _ _)
    · exact ih session state

theorem stays_validate {e : Element} (h : ∀ d ∈ e.descendants, d.tag ≠ .nedFile) (session : Session) (state : σ) :
    session.Stays (v.validate e session state).session := by
  induction e using Element.induction generalizing session state with
  | step e ih =>
    have hruling := v.stays_enter (h e e.mem_descendants_self) session state
    have hall := stays_validateAll (v := v) fun child hchild => ih child hchild fun d hd =>
      h d (Element.mem_descendants_trans (Element.mem_descendants_of_mem_children hchild) hd)
    rw [validate_eq]
    unfold Ruling.follow
    dsimp only [Outcome.after]
    cases (v.enter e session state).verdict with
    | fault fault => exact hruling
    | skip => exact hruling
    | descend => exact hruling.trans (hall _ _)
    | within frame =>
      exact ((hruling.trans (Session.stays_enter _ frame)).trans (hall _ _)).trans (Session.stays_leave _ frame)
    | innerTypes owner => exact hruling.trans (stays_validateInner owner _ _ _)

end Validator

/-! ### Points -/

/-- An element with the session and the state of the resolver that it is met in. -/
structure Point (σ : Type) where
  element : Element
  session : Session
  state : σ

namespace Validator

def rulingAt (v : Validator σ) (point : Point σ) : Ruling σ := v.enter point.element point.session point.state

def outcomeAt (v : Validator σ) (point : Point σ) : Outcome σ := v.validate point.element point.session point.state

/-- From an element the walk comes to a child once it is through with the children before it. -/
inductive Step (v : Validator σ) (point : Point σ) : Point σ → Prop where
  | descend {before rest : List Element} {child : Element} {row : Outcome σ} :
    point.element.children = before ++ child :: rest → (v.rulingAt point).verdict = .descend →
      v.validateAll before (v.rulingAt point).session (v.rulingAt point).state = row → row.fault = none →
      Step v point ⟨child, row.session, row.state⟩
  | within {frame : Frame} {before rest : List Element} {child : Element} {row : Outcome σ} :
    point.element.children = before ++ child :: rest → (v.rulingAt point).verdict = .within frame →
      v.validateAll before ((v.rulingAt point).session.enter frame) (v.rulingAt point).state = row → row.fault = none →
      Step v point ⟨child, row.session, row.state⟩
  | inner {owner : String} {before rest : List Element} {child : Element} {row : Outcome σ} :
    point.element.children = before ++ child :: rest → (v.rulingAt point).verdict = .innerTypes owner →
      child.tag.isTypeDeclaration = true →
      v.validateInner owner before (v.rulingAt point).session (v.rulingAt point).state = row → row.fault = none →
      Step v point ⟨child, row.session.inner owner, row.state⟩

/-- The walk over the element of the first point comes to the second. -/
def Visits (v : Validator σ) : Point σ → Point σ → Prop := Relation.ReflTransGen v.Step

variable {v : Validator σ} {start point next : Point σ}

theorem enter_eq_enterType {e : Element} (htype : e.tag.isTypeDeclaration = true) (session : Session) (state : σ) :
    v.enter e session state = enterType e session state := by
  unfold enter
  revert htype
  cases e.tag <;> simp [Tag.isTypeDeclaration]

theorem enter_eq_enterFile {e : Element} (hfile : e.tag = .nedFile) (session : Session) (state : σ) :
    v.enter e session state = v.enterFile e session state := by
  rw [enter, hfile]

theorem enter_eq_enterTypes {e : Element} (htypes : e.tag = .types) (session : Session) (state : σ) :
    v.enter e session state = enterTypes session state := by
  rw [enter, htypes]

/-- What is entered at an element is the type it declares, or it itself inside of a type, as a submodule or as a channel spec. -/
theorem within_cases {e : Element} {session : Session} {state : σ} {frame : Frame}
    (h : (v.enter e session state).verdict = .within frame) :
    (e.tag.isTypeDeclaration = true ∧ frame = .type ⟨e, session.qualifiedName e.name, session.context⟩) ∨
      ∃ opened resolved, session.scope.currentType? = some opened ∧
        (e.tag = .submodule ∧ frame = .submodule e resolved ∨ e.tag = .channelSpec ∧ frame = .channelSpec e resolved) := by
  by_cases htype : e.tag.isTypeDeclaration = true
  · rw [enter_eq_enterType htype, enterType] at h
    split_ifs at h
    exact .inl ⟨htype, (Verdict.within.inj h).symm⟩
  · right
    unfold enter at h
    split at h <;> rename_i htag
    · simp [enterFile] at h
    · simp [enterImport] at h
    · unfold enterExtends at h
      grind
    · unfold enterInterfaceName at h
      grind
    iterate 5 exact absurd (by rw [htag]; rfl) htype
    · unfold decided at h
      grind
    · unfold decided at h
      grind
    · unfold enterTypes at h
      grind
    · unfold enterSubmodule at h
      grind
    · unfold enterConnection at h
      grind
    · unfold enterChannelSpec at h
      grind
    all_goals simp at h

theorem eq_of_within_type {e : Element} {session : Session} {state : σ} {opened : OpenType}
    (h : (v.enter e session state).verdict = .within (.type opened)) :
    e.tag.isTypeDeclaration = true ∧ opened = ⟨e, session.qualifiedName e.name, session.context⟩ := by
  rcases within_cases h with ⟨htype, heq⟩ | ⟨_, _, _, ⟨-, heq⟩ | ⟨-, heq⟩⟩
  · exact ⟨htype, Frame.type.inj heq⟩
  · simp at heq
  · simp at heq

theorem Step.mem_children (h : v.Step point next) : next.element ∈ point.element.children := by
  cases h with
  | descend hchildren _ _ _ =>
    rw [hchildren]
    simp
  | within hchildren _ _ _ =>
    rw [hchildren]
    simp
  | inner hchildren _ _ _ _ =>
    rw [hchildren]
    simp

theorem Step.reaches (h : v.Step point next) : v.resolver.Reaches point.state next.state := by
  have hruling := (v.keeps_enter point.element point.session point.state).reaches
  cases h with
  | descend _ _ hrow _ =>
    rw [← hrow]
    exact hruling.trans (v.restores_validateAll (fun child _ => v.restores_validate child) _ _).reaches
  | within _ _ hrow _ =>
    rw [← hrow]
    exact hruling.trans (v.restores_validateAll (fun child _ => v.restores_validate child) _ _).reaches
  | inner _ _ _ hrow _ =>
    rw [← hrow]
    exact hruling.trans (v.restores_validateInner (fun child _ => v.restores_validate child) _ _ _).reaches

/-- A step stays inside of what has been entered, enters one thing more, or goes on with nothing entered, as the ruling says. -/
theorem Step.frames_cases (h : v.Step point next) :
    ((v.rulingAt point).verdict = .descend ∧ next.session.scope.frames = point.session.scope.frames) ∨
      (∃ frame, (v.rulingAt point).verdict = .within frame ∧
        next.session.scope.frames = frame :: point.session.scope.frames) ∨
      ∃ owner, (v.rulingAt point).verdict = .innerTypes owner ∧ next.session.scope.frames = [] := by
  have hruling := (v.keeps_enter point.element point.session point.state).frames
  have hrow (before : List Element) (session : Session) (state : σ) :=
    (v.restores_validateAll (fun child (_ : child ∈ before) => v.restores_validate child) session state).frames
  cases h with
  | @descend before _ _ _ _ hverdict heq _ =>
    subst heq
    exact .inl ⟨hverdict, (hrow before _ _).trans hruling⟩
  | @within frame before _ _ _ _ hverdict heq _ =>
    subst heq
    refine .inr (.inl ⟨frame, hverdict, (hrow before _ _).trans ?_⟩)
    rw [Session.enter_frames, rulingAt, hruling]
  | @inner owner _ _ _ _ _ hverdict _ _ _ => exact .inr (.inr ⟨owner, hverdict, rfl⟩)

theorem Step.frames_of_descend (h : v.Step point next) (hverdict : (v.rulingAt point).verdict = .descend) :
    next.session.scope.frames = point.session.scope.frames := by
  rcases h.frames_cases with ⟨-, hframes⟩ | ⟨_, hother, -⟩ | ⟨_, hother, -⟩
  · exact hframes
  · simp [hverdict] at hother
  · simp [hverdict] at hother

theorem Step.frames_of_within (h : v.Step point next) {frame : Frame}
    (hverdict : (v.rulingAt point).verdict = .within frame) :
    next.session.scope.frames = frame :: point.session.scope.frames := by
  rcases h.frames_cases with ⟨hother, -⟩ | ⟨entered, hother, hframes⟩ | ⟨_, hother, -⟩
  · simp [hverdict] at hother
  · obtain rfl := Verdict.within.inj (hother.symm.trans hverdict)
    exact hframes
  · simp [hverdict] at hother

theorem Step.currentType?_of_type (htype : point.element.tag.isTypeDeclaration = true) (h : v.Step point next) :
    next.session.scope.currentType? =
      some ⟨point.element, point.session.qualifiedName point.element.name, point.session.context⟩ := by
  have hruling : v.rulingAt point = enterType point.element point.session point.state :=
    enter_eq_enterType htype point.session point.state
  unfold enterType at hruling
  rcases h.frames_cases with ⟨hverdict, -⟩ | ⟨frame, hverdict, hframes⟩ | ⟨owner, hverdict, -⟩
  · rw [hruling] at hverdict
    split at hverdict <;> simp at hverdict
  · rw [hruling] at hverdict
    split at hverdict
    · simp at hverdict
    · obtain rfl := Verdict.within.inj hverdict
      exact Scope.currentType?_eq hframes
  · rw [hruling] at hverdict
    split at hverdict <;> simp at hverdict

theorem Visits.reaches (h : v.Visits start point) : v.resolver.Reaches start.state point.state := by
  induction h with
  | refl => exact .refl _
  | tail _ hstep ih => exact ih.trans hstep.reaches

theorem Visits.mem_descendants (h : v.Visits start point) : point.element ∈ start.element.descendants := by
  induction h with
  | refl => exact Element.mem_descendants_self _
  | tail _ hstep ih =>
    exact Element.mem_descendants_trans ih (Element.mem_descendants_of_mem_children hstep.mem_children)

end Validator

/-! ### Places -/

/-- A declaration as it is entered. -/
def TypeEntry.opened (entry : TypeEntry) : OpenType := ⟨entry.element, entry.qualifiedName, entry.headerContext⟩

/-- Whether no type is declared anywhere below elements of the kind. -/
def Tag.isBarren (tag : Tag) : Bool :=
  !tag.isTypeDeclaration && tag ≠ .files && tag ≠ .nedFile && tag ≠ .types && tag ≠ .unknown

theorem Tag.isTypeDeclaration_of_isBarren {tag : Tag} (h : tag.isBarren = true) : tag.isTypeDeclaration = false := by
  cases htype : tag.isTypeDeclaration with
  | false => rfl
  | true => simp [isBarren, htype] at h

theorem Tag.isBarren_of_mem_allowedChildren {tag child : Tag} (h : tag.isBarren = true)
    (hchild : child ∈ tag.allowedChildren) : child.isBarren = true := by
  have all : ∀ tag ∈ Tag.all, tag.isBarren = true → ∀ child ∈ tag.allowedChildren, child.isBarren = true := by decide
  exact all tag (mem_all tag) h child hchild

theorem Tag.isBarren_of_mem_file {child : Tag} (hchild : child ∈ Tag.nedFile.allowedChildren) :
    child.isTypeDeclaration = true ∨ child.isBarren = true := by
  have all : ∀ child ∈ Tag.nedFile.allowedChildren, child.isTypeDeclaration = true ∨ child.isBarren = true := by decide
  exact all child hchild

theorem Tag.isBarren_of_mem_files {child : Tag} (hchild : child ∈ Tag.files.allowedChildren) :
    child = .nedFile ∨ child.isBarren = true := by
  have all : ∀ child ∈ Tag.files.allowedChildren, child = .nedFile ∨ child.isBarren = true := by decide
  exact all child hchild

theorem Tag.isBarren_of_mem_declaration {tag child : Tag} (h : tag.isTypeDeclaration = true)
    (hchild : child ∈ tag.allowedChildren) : child = .types ∨ child.isBarren = true := by
  have all : ∀ tag ∈ Tag.all, tag.isTypeDeclaration = true → ∀ child ∈ tag.allowedChildren,
      child = .types ∨ child.isBarren = true := by decide
  exact all tag (mem_all tag) h child hchild

theorem Element.Placed.inside_file {e child : Element} (h : e.Placed) (hfiles : e.tag ≠ .files)
    (hchild : child ∈ e.children) : child.Placed ∧ child.tag ≠ .files ∧ child.tag ≠ .nedFile := by
  have all : ∀ tag ∈ Tag.all, tag ≠ .files → tag ≠ .unknown → ∀ child ∈ tag.allowedChildren,
      child ≠ .files ∧ child ≠ .nedFile := by decide
  exact ⟨h.child hchild, all e.tag (Tag.mem_all _) hfiles h.known _ (h.children child hchild)⟩

theorem Element.Placed.ne_nedFile_of_mem_descendants {e : Element} (h : e.Placed) (hfiles : e.tag ≠ .files)
    (hfile : e.tag ≠ .nedFile) : ∀ d ∈ e.descendants, d.tag ≠ .nedFile := by
  induction e using Element.induction with
  | step e ih =>
    intro d hd
    rw [descendants_eq] at hd
    rcases List.mem_cons.1 hd with rfl | hd
    · exact hfile
    · obtain ⟨child, hchild, hd⟩ := List.mem_flatMap.1 hd
      obtain ⟨hplaced, hchildFiles, hchildFile⟩ := h.inside_file hfiles hchild
      exact ih child hchild hplaced hchildFiles hchildFile d hd

/-- Where an element of a file is met, compared with what the file declares. -/
inductive Situated (file : Element) : Element → Session → Prop where
  | file (session : Session) : Situated file file session
  | type {entry : TypeEntry} {session : Session} : entry ∈ file.fileDeclarations →
    entry.element.tag.isTypeDeclaration = true → session.context = entry.headerContext →
    session.package = file.packageName → session.qualifiedName entry.element.name = entry.qualifiedName →
    Situated file entry.element session
  | part {entry : TypeEntry} {part : Element} {session : Session} : entry ∈ file.fileDeclarations →
    entry.element ∈ file.descendants → entry.element.tag.isTypeDeclaration = true → part ∈ entry.element.children →
    session.package = file.packageName →
    session.scope.currentType? = some ⟨entry.element, entry.qualifiedName, entry.headerContext⟩ →
    Situated file part session
  | leaf {e : Element} {session : Session} : e.tag.isBarren = true → Situated file e session

namespace Validator

variable {v : Validator σ} {file : Element}

theorem stays_validateAll_of_placed {e : Element} (hplaced : e.Placed) (hfiles : e.tag ≠ .files)
    {before : List Element} (hbefore : ∀ child ∈ before, child ∈ e.children) (session : Session) (state : σ) :
    session.Stays (v.validateAll before session state).session := by
  refine stays_validateAll (fun child hchild => stays_validate ?_) session state
  obtain ⟨hchildPlaced, hchildFiles, hchildFile⟩ := hplaced.inside_file hfiles (hbefore child hchild)
  exact hchildPlaced.ne_nedFile_of_mem_descendants hchildFiles hchildFile

variable {point next : Point σ}

theorem Step.situated_of_barren (hplaced : point.element.Placed) (hbarren : point.element.tag.isBarren = true)
    (hstep : v.Step point next) : Situated file next.element next.session :=
  .leaf (Tag.isBarren_of_mem_allowedChildren hbarren (hplaced.children _ hstep.mem_children))

theorem Step.situated_of_file (hfile : file.tag = .nedFile) (hplaced : file.Placed) {session : Session} {state : σ}
    (hstep : v.Step ⟨file, session, state⟩ next) : Situated file next.element next.session := by
  have hruling : v.rulingAt ⟨file, session, state⟩ = v.enterFile file session state :=
    enter_eq_enterFile hfile session state
  have hchildren := hplaced.children
  rw [hfile] at hchildren
  cases hstep with
  | @descend before rest child row hrow hverdict hwalk hfault =>
    have hmem : child ∈ file.children := by
      rw [show file.children = before ++ child :: rest from hrow]
      simp
    rcases Tag.isBarren_of_mem_file (hchildren child hmem) with htype | hbarren
    · have hbefore : ∀ other ∈ before, other ∈ file.children := fun other hother => by
        rw [show file.children = before ++ child :: rest from hrow]
        exact List.mem_append_left _ hother
      have hstays := stays_validateAll_of_placed (v := v) hplaced (by simp [hfile]) hbefore
        (v.rulingAt ⟨file, session, state⟩).session (v.rulingAt ⟨file, session, state⟩).state
      rw [hwalk, hruling] at hstays
      have hcontext : row.session.context = .file (file.value "filename") := hstays.context
      have hpackage : row.session.package = file.packageName := hstays.package
      refine Situated.type (Element.mem_fileDeclarations_of_mem_children hmem htype) htype hcontext hpackage ?_
      rw [Session.qualifiedName, hcontext, hpackage]
    · exact .leaf hbarren
  | within _ hverdict _ _ =>
    rw [hruling] at hverdict
    exact absurd hverdict (by simp [enterFile])
  | inner _ hverdict _ _ _ =>
    rw [hruling] at hverdict
    exact absurd hverdict (by simp [enterFile])

theorem Step.situated_of_type {entry : TypeEntry} {session : Session} {state : σ} (hplaced : entry.element.Placed)
    (hentry : entry ∈ file.fileDeclarations) (hmem : entry.element ∈ file.descendants)
    (htype : entry.element.tag.isTypeDeclaration = true) (hcontext : session.context = entry.headerContext)
    (hpackage : session.package = file.packageName)
    (hname : session.qualifiedName entry.element.name = entry.qualifiedName)
    (hstep : v.Step ⟨entry.element, session, state⟩ next) : Situated file next.element next.session := by
  have hruling : v.rulingAt ⟨entry.element, session, state⟩ = enterType entry.element session state :=
    enter_eq_enterType htype session state
  have hcurrent := hstep.currentType?_of_type htype
  dsimp only at hcurrent
  rw [hname, hcontext] at hcurrent
  have hfiles : entry.element.tag ≠ .files := by
    intro hfiles
    rw [hfiles] at htype
    exact absurd htype (by decide)
  have hchild := hstep.mem_children
  unfold enterType at hruling
  cases hstep with
  | descend _ hverdict _ _ =>
    rw [hruling] at hverdict
    split at hverdict <;> exact absurd hverdict (by simp)
  | @within frame before rest child row hrow hverdict hwalk hfault =>
    split at hruling
    · rw [hruling] at hverdict
      exact absurd hverdict (by simp)
    · rw [hruling] at hverdict hwalk
      obtain rfl := Verdict.within.inj hverdict
      have hbefore : ∀ other ∈ before, other ∈ entry.element.children := fun other hother => by
        rw [show entry.element.children = before ++ child :: rest from hrow]
        exact List.mem_append_left _ hother
      have hstays := stays_validateAll_of_placed (v := v) hplaced hfiles hbefore
        (session.enter (.type ⟨entry.element, session.qualifiedName entry.element.name, session.context⟩)) state
      rw [hwalk] at hstays
      exact .part hentry hmem htype hchild (hstays.package.trans hpackage) hcurrent
  | inner _ hverdict _ _ _ =>
    rw [hruling] at hverdict
    split at hverdict <;> exact absurd hverdict (by simp)

theorem Step.situated_of_types {entry : TypeEntry} {part : Element} {session : Session} {state : σ}
    (hentry : entry ∈ file.fileDeclarations) (hsound : entry.element.Sound) (hpart : part ∈ entry.element.children)
    (htag : part.tag = .types) (hpackage : session.package = file.packageName)
    (hcurrent : session.scope.currentType? = some ⟨entry.element, entry.qualifiedName, entry.headerContext⟩)
    (hstep : v.Step ⟨part, session, state⟩ next) : Situated file next.element next.session := by
  have hruling : v.rulingAt ⟨part, session, state⟩ = ⟨[], session, state, .innerTypes entry.qualifiedName⟩ := by
    rw [rulingAt, enter_eq_enterTypes htag, enterTypes, hcurrent]
  have hchild := hstep.mem_children
  cases hstep with
  | descend _ hverdict _ _ =>
    rw [hruling] at hverdict
    exact absurd hverdict (by simp)
  | within _ hverdict _ _ =>
    rw [hruling] at hverdict
    exact absurd hverdict (by simp)
  | @inner owner before rest child row hrow hverdict htype hwalk hfault =>
    rw [hruling] at hverdict hwalk
    obtain rfl := Verdict.innerTypes.inj hverdict
    have hstays := stays_validateInner (v := v) entry.qualifiedName before session state
    rw [hwalk] at hstays
    have hinner : child ∈ entry.element.innerTypes := hsound.mem_innerTypes_iff.2 ⟨part, hpart, htag, hchild, htype⟩
    exact .type (Element.mem_fileDeclarations_of_mem_innerTypes hentry hinner) htype rfl
      (hstays.package.trans hpackage) rfl

theorem Step.situated (hfile : file.tag = .nedFile) (hsound : file.Sound) (hplaced : file.Placed)
    (hmem : point.element ∈ file.descendants) (h : Situated file point.element point.session)
    (hstep : v.Step point next) : Situated file next.element next.session := by
  have hbelow : ∀ d ∈ file.descendants, d.Sound ∧ d.Placed := fun d hd =>
    ⟨fun other hother => hsound other (Element.mem_descendants_trans hd hother),
      hplaced.below hd⟩
  obtain ⟨element, session, state⟩ := point
  dsimp only at h hmem
  cases h with
  | file session => exact hstep.situated_of_file hfile hplaced
  | type hentry htype hcontext hpackage hname =>
    exact hstep.situated_of_type (hbelow _ hmem).2 hentry hmem htype hcontext hpackage hname
  | part hentry hin htype hpart hpackage hcurrent =>
    by_cases htag : element.tag = .types
    · exact hstep.situated_of_types hentry (hbelow _ hin).1 hpart htag hpackage hcurrent
    · have hallowed := (hbelow _ hin).2.children _ hpart
      have hbarren := (Tag.isBarren_of_mem_declaration htype hallowed).resolve_left htag
      exact hstep.situated_of_barren (hbelow _ hmem).2 hbarren
  | leaf hbarren => exact hstep.situated_of_barren (hbelow _ hmem).2 hbarren

/-- Wherever a walk over a file comes to, it is where the file's declarations say. -/
theorem Visits.situated (hfile : file.tag = .nedFile) (hsound : file.Sound) (hplaced : file.Placed)
    {session : Session} {state : σ} (h : v.Visits ⟨file, session, state⟩ point) :
    Situated file point.element point.session := by
  induction h with
  | refl => exact .file session
  | tail hvisits hstep ih => exact hstep.situated hfile hsound hplaced (Visits.mem_descendants hvisits) ih

/-- A type declaration is met under the name and in the context that the file declares it with. -/
theorem Visits.exists_declaration (hfile : file.tag = .nedFile) (hsound : file.Sound) (hplaced : file.Placed)
    {session : Session} {state : σ} (h : v.Visits ⟨file, session, state⟩ point)
    (htype : point.element.tag.isTypeDeclaration = true) :
    ∃ entry ∈ file.fileDeclarations, entry.element = point.element ∧
      entry.qualifiedName = point.session.qualifiedName point.element.name ∧
        entry.headerContext = point.session.context := by
  have hsituated := h.situated hfile hsound hplaced
  obtain ⟨element, session, state⟩ := point
  dsimp only at htype hsituated ⊢
  cases hsituated with
  | file session =>
    rw [hfile] at htype
    exact absurd htype (by decide)
  | @type entry _ hentry _ hcontext _ hname => exact ⟨entry, hentry, rfl, hname.symm, hcontext.symm⟩
  | part _ hin hdeclares hpart _ _ =>
    -- there are no declarations directly inside of declarations
    rcases Tag.isBarren_of_mem_declaration hdeclares ((hplaced _ hin).2 _ hpart) with htag | hbarren
    · rw [htag] at htype
      exact absurd htype (by decide)
    · exact absurd htype (by simp [Tag.isTypeDeclaration_of_isBarren hbarren])
  | leaf hbarren => exact absurd htype (by simp [Tag.isTypeDeclaration_of_isBarren hbarren])

end Validator

end NedCheck
