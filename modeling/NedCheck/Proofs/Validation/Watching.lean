import NedCheck.Proofs.Validation.Confinement

/-!
# Walks under watch

The checks that a caller adds are asked in the middle of a walk: about each import, each base of the right kind and each interface of the right kind. Besides answering they are free to do what they like: to remember what they have been asked, and to ask the very resolver that the walk asks. So a `Watcher` acts on the state that the walk goes on with.

What the checks answer is reported where they are asked, and nothing else comes of it. Of two walks whose checks do alike to the state, and in states that the resolver makes no difference between, both go the same way, and the one whose checks find something has errors in between. The rules say so one by one, and walks by induction over the element.
-/

namespace NedCheck

variable {σ : Type} {Alike : σ → σ → Prop}

/-! ### Errors in between -/

/-- The later diagnostics are the earlier ones in their order, with errors in between: at most one on each of the elements, and in the order of these. -/
inductive Interspersed : List Element → List Diagnostic → List Diagnostic → Prop where
  | nil : Interspersed [] [] []
  | keep {sites : List Element} {plain full : List Diagnostic} (diagnostic : Diagnostic) :
    Interspersed sites plain full → Interspersed sites (diagnostic :: plain) (diagnostic :: full)
  | pass {sites : List Element} {plain full : List Diagnostic} (e : Element) :
    Interspersed sites plain full → Interspersed (e :: sites) plain full
  | add {sites : List Element} {plain full : List Diagnostic} (e : Element) (message : String) :
    Interspersed sites plain full → Interspersed (e :: sites) plain (.onElement .error e message :: full)

namespace Interspersed

variable {sites later : List Element} {plain full rest more : List Diagnostic}

theorem refl (diagnostics : List Diagnostic) : Interspersed [] diagnostics diagnostics := by
  induction diagnostics with
  | nil => exact nil
  | cons diagnostic rest ih => exact ih.keep diagnostic

theorem append (hleft : Interspersed sites plain full) (hright : Interspersed later rest more) :
    Interspersed (sites ++ later) (plain ++ rest) (full ++ more) := by
  induction hleft with
  | nil => exact hright
  | keep diagnostic _ ih => exact ih.keep diagnostic
  | pass e _ ih => exact ih.pass e
  | add e message _ ih => exact ih.add e message

theorem sublist (h : Interspersed sites plain full) : plain.Sublist full := by
  induction h with
  | nil => exact .slnil
  | keep diagnostic _ ih => exact ih.cons_cons diagnostic
  | pass _ _ ih => exact ih
  | add e message _ ih => exact ih.cons _

end Interspersed

/-- Both rule alike and leave states that are alike, and the second one reports errors in between. -/
structure Ruling.Grows (Alike : σ → σ → Prop) (plain : Ruling σ) (sites : List Element) (full : Ruling σ) : Prop where
  verdict : full.verdict = plain.verdict
  session : full.session = plain.session
  state : Alike plain.state full.state
  reports : Interspersed sites (plain.reports.map Report.diagnostic) (full.reports.map Report.diagnostic)

namespace Outcome

/-- Both are outcomes of the same course that leaves states that are alike, and the second one has errors in between: at most one on each of the elements. -/
structure Grows (Alike : σ → σ → Prop) (plain : Outcome σ) (sites : List Element) (full : Outcome σ) : Prop where
  fault : full.fault = plain.fault
  session : full.session = plain.session
  state : Alike plain.state full.state
  diagnostics : Interspersed sites plain.diagnostics full.diagnostics

namespace Grows

variable {plain full : Outcome σ} {sites later : List Element}

theorem after (h : plain.Grows Alike sites full) {earlier : List Element} {reports more : List Report}
    (hreports : Interspersed earlier (reports.map Report.diagnostic) (more.map Report.diagnostic)) :
    (plain.after reports).Grows Alike (earlier ++ sites) (full.after more) where
  fault := h.fault
  session := h.session
  state := h.state
  diagnostics := by
    simp only [Outcome.diagnostics, after_reports, List.map_append]
    exact hreports.append h.diagnostics

theorem leave (h : plain.Grows Alike sites full) (frame : Frame) :
    (plain.leave frame).Grows Alike sites (full.leave frame) where
  fault := h.fault
  session := congrArg (·.leave frame) h.session
  state := h.state
  diagnostics := h.diagnostics

theorem andThen (h : plain.Grows Alike sites full) {next other : Session → σ → Outcome σ}
    (hnext : (next plain.session plain.state).Grows Alike later (other plain.session full.state)) :
    (plain.andThen next).Grows Alike (sites ++ if plain.fault.isSome then [] else later) (full.andThen other) := by
  have hfull : full.fault = plain.fault := h.fault
  cases hfault : plain.fault with
  | some fault =>
    rw [andThen_of_some hfault, andThen_of_some (hfull.trans hfault)]
    simpa using h
  | none =>
    rw [andThen_of_none hfault, andThen_of_none (hfull.trans hfault), h.session]
    exact hnext.after h.diagnostics

end Grows

end Outcome

/-! ### Questions to the checks -/

/-- A question to the checks, with what they are shown. -/
inductive Inquiry where
  | compliance (implementor : Element) (interface : TypeInfo)
  | inheritance (derived : Element) (base : TypeInfo)
  | importClash (importing : Element) (imports : List String)

def Hooks.answer (hooks : Hooks) : Inquiry → Option String
  | .compliance implementor interface => hooks.compliance implementor interface
  | .inheritance derived base => hooks.inheritance derived base
  | .importClash importing imports => hooks.importClash importing imports

theorem Hooks.answer_silent (inquiry : Inquiry) : Hooks.silent.answer inquiry = none := by
  cases inquiry <;> rfl

/-- Checks that act on the state of a walk: what they find depends on it, and they leave another one behind. -/
def Watcher (σ : Type) := Inquiry → σ → Option String × σ

namespace Watcher

/-- Checks that do nothing but answer. -/
def ofHooks (hooks : Hooks) : Watcher σ := fun inquiry state => (hooks.answer inquiry, state)

/-- Checks that do the same and find nothing. -/
def mute (watcher : Watcher σ) : Watcher σ := fun inquiry state => (none, (watcher inquiry state).2)

/-- The checks as they answer in a state. -/
def hooks (watcher : Watcher σ) (state : σ) : Hooks where
  compliance implementor interface := (watcher (.compliance implementor interface) state).1
  inheritance derived base := (watcher (.inheritance derived base) state).1
  importClash importing imports := (watcher (.importClash importing imports) state).1

/-- The first checks find nothing, and what they do is like what the others do. -/
structure Shadows (Alike : σ → σ → Prop) (quiet loud : Watcher σ) : Prop where
  silent (inquiry : Inquiry) (state : σ) : (quiet inquiry state).1 = none
  alike {left right : σ} (inquiry : Inquiry) : Alike left right →
    Alike (quiet inquiry left).2 (loud inquiry right).2

theorem shadows_mute (watcher : Watcher σ) : watcher.mute.Shadows Eq watcher where
  silent _ _ := rfl
  alike inquiry halike := by rw [halike, mute]

theorem Shadows.hooks_eq {quiet loud : Watcher σ} (h : quiet.Shadows Alike loud) (state : σ) :
    quiet.hooks state = .silent := by
  simp only [hooks, h.silent]
  rfl

end Watcher

namespace Validator

def withHooks (v : Validator σ) (hooks : Hooks) : Validator σ := { v with hooks }

/-- What the checks are asked at a point of a walk: about every import, about a base of the same kind as the type, and about an interface of the kind that the type takes. -/
def inquiry? (v : Validator σ) (point : Point σ) : Option Inquiry :=
  match point.element.tag with
  | .importDecl => some (.importClash point.element point.session.imports)
  | .extendsName =>
    match point.session.scope.currentType? with
    | none => none
    | some type =>
      match (v.resolver.lookupType point.element.name type.headerContext point.state).1 with
      | none => none
      | some base => if base.tag = type.element.tag then some (.inheritance type.element base) else none
  | .interfaceName =>
    match point.session.scope.currentType? with
    | none => none
    | some type =>
      match (v.resolver.lookupType point.element.name type.headerContext point.state).1 with
      | none => none
      | some found =>
        let expected : Tag := if type.element.tag.isModuleLike then .moduleInterface else .channelInterface
        if found.tag = expected then some (.compliance type.element found) else none
  | _ => none

/-- The element at a point, if the checks are asked about it. -/
def site (v : Validator σ) (point : Point σ) : List Element :=
  if (v.inquiry? point).isSome then [point.element] else []

/-- The ruling with checks that act on the state. They are asked once the rule has asked the resolver all that it asks. -/
def enterWatched (v : Validator σ) (watcher : Watcher σ) (e : Element) (session : Session) (state : σ) : Ruling σ :=
  let ruling := (v.withHooks .silent).enter e session state
  match v.inquiry? ⟨e, session, state⟩ with
  | none => ruling
  | some inquiry =>
    let answered := (v.withHooks (watcher.hooks ruling.state)).enter e session state
    { answered with state := (watcher inquiry ruling.state).2 }

mutual

/-- The validation with checks that act on the state. -/
def watch (v : Validator σ) (watcher : Watcher σ) : Element → Session → σ → Outcome σ
  | e@⟨_, _, _, children, _, _⟩, session, state =>
    (v.enterWatched watcher e session state).follow (watchAll v watcher children) fun owner =>
      watchInner v watcher owner children

def watchAll (v : Validator σ) (watcher : Watcher σ) : List Element → Session → σ → Outcome σ
  | [], session, state => ⟨[], session, state, none⟩
  | e :: rest, session, state => (watch v watcher e session state).andThen (watchAll v watcher rest)

def watchInner (v : Validator σ) (watcher : Watcher σ) (owner : String) :
    List Element → Session → σ → Outcome σ
  | [], session, state => ⟨[], session, state, none⟩
  | e :: rest, session, state =>
    if e.tag.isTypeDeclaration then
      let inner := watch v watcher e (session.inner owner) state
      { inner with session }.andThen fun session state =>
        let (session, state) := v.registerInner owner e session state
        watchInner v watcher owner rest session state
    else watchInner v watcher owner rest session state

end

mutual

/-- The elements that the validation asks the checks about, in its order. -/
def asked (v : Validator σ) (watcher : Watcher σ) : Element → Session → σ → List Element
  | e@⟨_, _, _, children, _, _⟩, session, state =>
    let ruling := v.enterWatched watcher e session state
    v.site ⟨e, session, state⟩ ++ match ruling.verdict with
      | .fault _ => []
      | .skip => []
      | .descend => askedAll v watcher children ruling.session ruling.state
      | .within frame => askedAll v watcher children (ruling.session.enter frame) ruling.state
      | .innerTypes owner => askedInner v watcher owner children ruling.session ruling.state

def askedAll (v : Validator σ) (watcher : Watcher σ) : List Element → Session → σ → List Element
  | [], _, _ => []
  | e :: rest, session, state =>
    let outcome := v.watch watcher e session state
    asked v watcher e session state ++
      if outcome.fault.isSome then [] else askedAll v watcher rest outcome.session outcome.state

def askedInner (v : Validator σ) (watcher : Watcher σ) (owner : String) :
    List Element → Session → σ → List Element
  | [], _, _ => []
  | e :: rest, session, state =>
    if e.tag.isTypeDeclaration then
      let inner := v.watch watcher e (session.inner owner) state
      asked v watcher e (session.inner owner) state ++
        if inner.fault.isSome then []
        else
          let (session, state) := v.registerInner owner e session inner.state
          askedInner v watcher owner rest session state
    else askedInner v watcher owner rest session state

end

theorem watch_eq (v : Validator σ) (watcher : Watcher σ) (e : Element) (session : Session) (state : σ) :
    v.watch watcher e session state = (v.enterWatched watcher e session state).follow (v.watchAll watcher e.children)
      fun owner => v.watchInner watcher owner e.children := by
  cases e
  rw [watch]

theorem asked_eq (v : Validator σ) (watcher : Watcher σ) (e : Element) (session : Session) (state : σ) :
    v.asked watcher e session state = v.site ⟨e, session, state⟩ ++
      match (v.enterWatched watcher e session state).verdict with
      | .fault _ => []
      | .skip => []
      | .descend => v.askedAll watcher e.children (v.enterWatched watcher e session state).session
          (v.enterWatched watcher e session state).state
      | .within frame => v.askedAll watcher e.children ((v.enterWatched watcher e session state).session.enter frame)
          (v.enterWatched watcher e session state).state
      | .innerTypes owner => v.askedInner watcher owner e.children (v.enterWatched watcher e session state).session
          (v.enterWatched watcher e session state).state := by
  cases e
  rw [asked]

/-- The checks can do no more at a point than to add what they answer to the one question that they are asked there. -/
def Additive (v : Validator σ) (point : Point σ) : Prop := ∃ (ruling : Ruling σ) (after : List Report), ∀ hooks : Hooks,
  (v.withHooks hooks).rulingAt point = { ruling with
    reports := ruling.reports ++ hookReports point.element ((v.inquiry? point).bind hooks.answer) ++ after }

variable {v : Validator σ} {e : Element} {session : Session} {state : σ}

theorem additive_of_unasked {point : Point σ} (hasked : v.inquiry? point = none)
    (hrule : ∀ hooks, (v.withHooks hooks).rulingAt point = v.rulingAt point) : v.Additive point := by
  refine ⟨v.rulingAt point, [], fun hooks => ?_⟩
  rw [hrule hooks, hasked]
  simp [hookReports]

theorem additive_importDecl (htag : e.tag = .importDecl) : v.Additive ⟨e, session, state⟩ := by
  have hrule (hooks : Hooks) :
      (v.withHooks hooks).rulingAt ⟨e, session, state⟩ = (v.withHooks hooks).enterImport e session state := by
    rw [rulingAt, enter, htag]
  have hasked : v.inquiry? ⟨e, session, state⟩ = some (.importClash e session.imports) := by simp [inquiry?, htag]
  refine ⟨(v.withHooks .silent).enterImport e session state, [], fun hooks => ?_⟩
  rw [hrule, hasked]
  unfold enterImport withHooks
  dsimp only
  simp only [hookReports, Hooks.silent, Option.toList_none, List.map_nil, List.append_nil]
  rfl

theorem additive_extendsName (htag : e.tag = .extendsName) : v.Additive ⟨e, session, state⟩ := by
  have hrule (hooks : Hooks) :
      (v.withHooks hooks).rulingAt ⟨e, session, state⟩ = (v.withHooks hooks).enterExtends e session state := by
    rw [rulingAt, enter, htag]
  unfold Additive inquiry?
  simp only [hrule, htag]
  unfold enterExtends withHooks
  cases session.scope.currentType? with
  | none => exact ⟨⟨[], session, state, .fault _⟩, [], fun _ => rfl⟩
  | some type =>
    dsimp only
    rcases v.resolver.lookupType e.name type.headerContext state with ⟨_ | base, next⟩
    · exact ⟨⟨[⟨e, .noComponent e.name⟩], session, next, .skip⟩, [], fun _ => rfl⟩
    · by_cases hkind : base.tag = type.element.tag
      · refine ⟨⟨[], session.withScope (session.scope.inherit base), next, .descend⟩,
          (session.scope.conflicts base).map fun member => Report.mk e (.inheritedConflict member e.name), fun _ => ?_⟩
        simp [hkind, Hooks.answer]
      · refine ⟨⟨[⟨e, .wrongKind e.name type.element.tag⟩], session, next, .skip⟩, [], fun _ => ?_⟩
        simp [hkind, hookReports]

theorem additive_interfaceName (htag : e.tag = .interfaceName) : v.Additive ⟨e, session, state⟩ := by
  have hrule (hooks : Hooks) :
      (v.withHooks hooks).rulingAt ⟨e, session, state⟩ = (v.withHooks hooks).enterInterfaceName e session state := by
    rw [rulingAt, enter, htag]
  unfold Additive inquiry?
  simp only [hrule, htag]
  unfold enterInterfaceName withHooks
  cases session.scope.currentType? with
  | none => exact ⟨⟨[], session, state, .fault _⟩, [], fun _ => rfl⟩
  | some type =>
    dsimp only
    rcases v.resolver.lookupType e.name type.headerContext state with ⟨_ | found, next⟩
    · exact ⟨⟨[⟨e, .noInterface e.name⟩], session, next, .skip⟩, [], fun _ => rfl⟩
    · cases hlike : type.element.tag.isModuleLike with
      | true =>
        by_cases hkind : found.tag = .moduleInterface
        · refine ⟨⟨[], session, next, .descend⟩, [], fun _ => ?_⟩
          simp [hkind, Hooks.answer]
        · refine ⟨⟨[⟨e, .notModuleInterface e.name⟩], session, next, .skip⟩, [], fun _ => ?_⟩
          simp [hkind, hookReports]
      | false =>
        by_cases hkind : found.tag = .channelInterface
        · refine ⟨⟨[], session, next, .descend⟩, [], fun _ => ?_⟩
          simp [hkind, Hooks.answer]
        · refine ⟨⟨[⟨e, .notChannelInterface e.name⟩], session, next, .skip⟩, [], fun _ => ?_⟩
          simp [hkind, hookReports]

theorem additive (v : Validator σ) (point : Point σ) : v.Additive point := by
  by_cases himport : point.element.tag = .importDecl
  · exact additive_importDecl himport
  by_cases hextends : point.element.tag = .extendsName
  · exact additive_extendsName hextends
  by_cases hinterface : point.element.tag = .interfaceName
  · exact additive_interfaceName hinterface
  -- the other rules do not know of the checks
  have hasked : v.inquiry? point = none := by
    unfold inquiry?
    split <;> first | rfl | exact absurd ‹_› ‹_›
  refine additive_of_unasked hasked fun hooks => ?_
  unfold rulingAt enter
  split <;> first | rfl | exact absurd ‹_› ‹_›

/-! ### One ruling -/

theorem site_sublist (v : Validator σ) (point : Point σ) : (v.site point).Sublist [point.element] := by
  unfold site
  split
  · exact .refl _
  · exact List.nil_sublist _

theorem interspersed_hookReports (point : Point σ) (answer : Inquiry → Option String) :
    Interspersed (v.site point) []
      ((hookReports point.element ((v.inquiry? point).bind answer)).map Report.diagnostic) := by
  unfold site
  cases v.inquiry? point with
  | none => exact .nil
  | some inquiry =>
    rw [Option.bind_some, Option.isSome_some, if_pos rfl]
    cases answer inquiry with
    | none => exact .pass _ .nil
    | some message => exact .add _ message .nil

/-- What the checks answer makes no difference to a ruling but for errors in between. -/
theorem grows_rulingAt (v : Validator σ) (hooks : Hooks) (point : Point σ) :
    ((v.withHooks .silent).rulingAt point).Grows Eq (v.site point) ((v.withHooks hooks).rulingAt point) := by
  obtain ⟨ruling, after, hruling⟩ := v.additive point
  have hsilent : (v.inquiry? point).bind Hooks.silent.answer = none :=
    Option.bind_eq_none_iff.2 fun inquiry _ => Hooks.answer_silent inquiry
  have hanswer := interspersed_hookReports (v := v) point hooks.answer
  have hgrown := ((Interspersed.refl (ruling.reports.map Report.diagnostic)).append hanswer).append
    (.refl (after.map Report.diagnostic))
  rw [hruling, hruling, hsilent]
  exact ⟨rfl, rfl, rfl, by simpa [hookReports] using hgrown⟩

theorem enterWatched_of_unasked {watcher : Watcher σ} (h : v.inquiry? ⟨e, session, state⟩ = none) :
    v.enterWatched watcher e session state = (v.withHooks .silent).enter e session state := by
  rw [enterWatched, h]

theorem enterWatched_of_asked {watcher : Watcher σ} {inquiry : Inquiry}
    (h : v.inquiry? ⟨e, session, state⟩ = some inquiry) :
    v.enterWatched watcher e session state =
      { (v.withHooks (watcher.hooks ((v.withHooks .silent).enter e session state).state)).enter e session state with
        state := (watcher inquiry ((v.withHooks .silent).enter e session state).state).2 } := by
  rw [enterWatched, h]

theorem enterWatched_ofHooks (v : Validator σ) (hooks : Hooks) (e : Element) (session : Session) (state : σ) :
    v.enterWatched (.ofHooks hooks) e session state = (v.withHooks hooks).enter e session state := by
  obtain ⟨ruling, after, hruling⟩ := v.additive ⟨e, session, state⟩
  unfold rulingAt at hruling
  cases hasked : v.inquiry? ⟨e, session, state⟩ with
  | none =>
    rw [enterWatched_of_unasked hasked, hruling, hruling, hasked]
    rfl
  | some inquiry =>
    have hhooks : (Watcher.ofHooks hooks : Watcher σ).hooks = fun _ => hooks := rfl
    rw [enterWatched_of_asked hasked, hhooks]
    dsimp only
    rw [hruling, hruling]
    rfl

/-! ### Walks with and without -/

section Shadows

variable {quiet loud : Watcher σ} {left right : σ} (hshadows : quiet.Shadows Alike loud)
  (hconfined : v.resolver.Confined v.project (fun _ => True) Alike)

include hconfined in
theorem inquiry?_eq (halike : Alike left right) (e : Element) (session : Session) :
    v.inquiry? ⟨e, session, left⟩ = v.inquiry? ⟨e, session, right⟩ := by
  have hlookup (name : String) (context : LookupContext) :
      (v.resolver.lookupType name context left).1 = (v.resolver.lookupType name context right).1 :=
    (hconfined.lookupType name trivial halike).1
  unfold inquiry?
  simp only [hlookup]

include hconfined in
theorem matching_registerInner (halike : Alike left right) (owner : String) (e : Element) (session : Session) :
    Matching Alike (v.registerInner owner e session left) (v.registerInner owner e session right) := by
  have hlookup : Matching Alike (v.resolver.lookupType e.name (.type owner) left)
      (v.resolver.lookupType e.name (.type owner) right) := hconfined.lookupType e.name trivial halike
  obtain ⟨found, next, other, hleft, hright, hnext⟩ := hlookup.exists_eq
  unfold registerInner
  rw [hleft, hright]
  exact ⟨rfl, hnext⟩

include hshadows hconfined

theorem grows_enterWatched (halike : Alike left right) (e : Element) (session : Session) :
    (v.enterWatched quiet e session left).Grows Alike (v.site ⟨e, session, left⟩)
      (v.enterWatched loud e session right) := by
  -- both are asked the same question, and without answers the two rulings differ in the state at most
  have hsame := inquiry?_eq hconfined halike e session
  obtain ⟨hanswered, hnext, -, -⟩ := matches_enter (v := v.withHooks .silent) (e := e) hconfined
    session.scope.atHome_everywhere halike fun opened _ => ⟨trivial, trivial⟩
  simp only [Ruling.answered, Prod.mk.injEq] at hanswered
  obtain ⟨hreports, hsession, hverdict⟩ := hanswered
  cases hasked : v.inquiry? ⟨e, session, left⟩ with
  | none =>
    have hsite : v.site ⟨e, session, left⟩ = [] := by rw [site, hasked]; rfl
    rw [enterWatched_of_unasked hasked, enterWatched_of_unasked (hsame ▸ hasked), hsite]
    refine ⟨hverdict.symm, hsession.symm, hnext, ?_⟩
    rw [hreports]
    exact .refl _
  | some inquiry =>
    have hsite : v.site ⟨e, session, left⟩ = v.site ⟨e, session, right⟩ := by rw [site, site, hsame]
    have hgrows := v.grows_rulingAt (loud.hooks ((v.withHooks .silent).enter e session right).state) ⟨e, session, right⟩
    rw [enterWatched_of_asked hasked, enterWatched_of_asked (hsame ▸ hasked), hshadows.hooks_eq, hsite]
    refine ⟨hgrows.verdict.trans hverdict.symm, hgrows.session.trans hsession.symm, hshadows.alike inquiry hnext, ?_⟩
    dsimp only
    rw [hreports]
    exact hgrows.reports

section Rows

variable {children : List Element} (h : ∀ child ∈ children, ∀ {left right : σ} (session : Session),
  Alike left right → (v.watch quiet child session left).Grows Alike (v.asked quiet child session left)
    (v.watch loud child session right))

include h

omit hshadows hconfined in
theorem grows_watchAll (session : Session) (halike : Alike left right) :
    (v.watchAll quiet children session left).Grows Alike (v.askedAll quiet children session left)
      (v.watchAll loud children session right) := by
  induction children generalizing session left right with
  | nil =>
    rw [watchAll, askedAll, watchAll]
    exact ⟨rfl, rfl, halike, .nil⟩
  | cons child rest ih =>
    have hchild := h child (by simp) session halike
    rw [watchAll, askedAll, watchAll]
    exact hchild.andThen (ih (fun other hother => h other (by simp [hother])) _ hchild.state)

omit hshadows in
theorem grows_watchInner (owner : String) (session : Session) (halike : Alike left right) :
    (v.watchInner quiet owner children session left).Grows Alike (v.askedInner quiet owner children session left)
      (v.watchInner loud owner children session right) := by
  induction children generalizing session left right with
  | nil =>
    rw [watchInner, askedInner, watchInner]
    exact ⟨rfl, rfl, halike, .nil⟩
  | cons child rest ih =>
    have hothers := fun other (hother : other ∈ rest) => @h other (List.mem_cons_of_mem _ hother)
    rw [watchInner, askedInner, watchInner]
    by_cases htype : child.tag.isTypeDeclaration = true
    · simp only [if_pos htype]
      obtain ⟨hfault, -, hnext, hdiagnostics⟩ := h child (by simp) (session.inner owner) halike
      -- the session of the inner type is dropped, and the one around it goes on
      have hdropped : ({ v.watch quiet child (session.inner owner) left with session } : Outcome σ).Grows Alike
          (v.asked quiet child (session.inner owner) left)
          { v.watch loud child (session.inner owner) right with session } := ⟨hfault, rfl, hnext, hdiagnostics⟩
      refine hdropped.andThen ?_
      obtain ⟨hregistered, hlast⟩ := matching_registerInner hconfined hnext owner child session
      dsimp only
      rw [← hregistered]
      exact ih hothers _ hlast
    · simp only [if_neg htype]
      exact ih hothers session halike

end Rows

/-- Of two walks whose checks do alike to the state, the one whose checks find something has errors in between. -/
theorem grows_watch (e : Element) (session : Session) (halike : Alike left right) :
    (v.watch quiet e session left).Grows Alike (v.asked quiet e session left) (v.watch loud e session right) := by
  induction e using Element.induction generalizing session left right with
  | step e ih =>
    obtain ⟨hverdict, hsession, hnext, hreports⟩ := grows_enterWatched hshadows hconfined halike e session
    rw [watch_eq, asked_eq, watch_eq]
    unfold Ruling.follow
    rw [hverdict, hsession]
    refine .after ?_ hreports
    cases (v.enterWatched quiet e session left).verdict with
    | fault fault => exact ⟨rfl, rfl, hnext, .nil⟩
    | skip => exact ⟨rfl, rfl, hnext, .nil⟩
    | descend => exact grows_watchAll ih _ hnext
    | within frame => exact (grows_watchAll ih _ hnext).leave frame
    | innerTypes owner => exact grows_watchInner hconfined ih owner _ hnext

end Shadows

section Pure

variable {hooks : Hooks} {children : List Element} (h : ∀ child ∈ children, ∀ session state,
  v.watch (.ofHooks hooks) child session state = (v.withHooks hooks).validate child session state)

include h

theorem watchAll_ofHooks : v.watchAll (.ofHooks hooks) children = (v.withHooks hooks).validateAll children := by
  induction children with
  | nil => rfl
  | cons child rest ih =>
    have hrest := ih fun other hother => h other (by simp [hother])
    funext session state
    rw [watchAll, validateAll, h child (by simp), hrest]

theorem watchInner_ofHooks (owner : String) :
    v.watchInner (.ofHooks hooks) owner children = (v.withHooks hooks).validateInner owner children := by
  induction children with
  | nil => rfl
  | cons child rest ih =>
    have hrest := ih fun other hother => h other (by simp [hother])
    funext session state
    rw [watchInner, validateInner, h child (by simp), hrest]
    rfl

end Pure

/-- A walk with checks that do nothing but answer is the validation with these hooks. -/
theorem watch_ofHooks (v : Validator σ) (hooks : Hooks) (e : Element) (session : Session) (state : σ) :
    v.watch (.ofHooks hooks) e session state = (v.withHooks hooks).validate e session state := by
  induction e using Element.induction generalizing session state with
  | step e ih =>
    rw [watch_eq, validate_eq, enterWatched_ofHooks, watchAll_ofHooks ih, funext fun owner => watchInner_ofHooks ih owner]

section Asked

variable {watcher : Watcher σ} {children : List Element} (h : ∀ child ∈ children, ∀ session state,
  (v.asked watcher child session state).Sublist child.descendants)

include h

theorem askedAll_sublist (session : Session) (state : σ) :
    (v.askedAll watcher children session state).Sublist (children.flatMap Element.descendants) := by
  induction children generalizing session state with
  | nil => rw [askedAll, List.flatMap_nil]
  | cons child rest ih =>
    have hrest := ih fun other hother => h other (by simp [hother])
    rw [askedAll, List.flatMap_cons]
    refine (h child (by simp) _ _).append ?_
    split_ifs
    · exact List.nil_sublist _
    · exact hrest _ _

theorem askedInner_sublist (owner : String) (session : Session) (state : σ) :
    (v.askedInner watcher owner children session state).Sublist (children.flatMap Element.descendants) := by
  induction children generalizing session state with
  | nil => rw [askedInner, List.flatMap_nil]
  | cons child rest ih =>
    have hrest := ih fun other hother => h other (by simp [hother])
    rw [askedInner, List.flatMap_cons]
    split_ifs with htype
    · refine (h child (by simp) _ _).append ?_
      dsimp only
      split_ifs
      · exact List.nil_sublist _
      · exact hrest _ _
    · exact (hrest _ _).trans (List.sublist_append_right _ _)

end Asked

/-- The checks are asked about each element at most once, in the order of the file. -/
theorem asked_sublist (v : Validator σ) (watcher : Watcher σ) (e : Element) (session : Session) (state : σ) :
    (v.asked watcher e session state).Sublist e.descendants := by
  induction e using Element.induction generalizing session state with
  | step e ih =>
    rw [asked_eq, Element.descendants_eq]
    refine (v.site_sublist _).append ?_
    split
    · exact List.nil_sublist _
    · exact List.nil_sublist _
    · exact askedAll_sublist ih _ _
    · exact askedAll_sublist ih _ _
    · exact askedInner_sublist ih _ _ _

end Validator

end NedCheck
