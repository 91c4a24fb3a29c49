import Mathlib.Data.List.Perm.Subperm
import NedCheck.Proofs.Validation.Trace
import NedCheck.TypeIndex.Lookup

/-!
# Types are entered as they are registered

An index registers the types of a tree in one recursion, over the sections for types of each declaration, and a validation enters them in another, session by session. The two agree. Each type is entered under the qualified name that it is registered under, and with the names in its header looked up in the same context, however deep it is inside of other types. None is entered twice, and a walk that comes to the end of the tree has entered all of them.
-/

namespace NedCheck

variable {σ : Type}

/-! ### What declares no types -/

theorem Element.Placed.isBarren_of_mem_descendants {e : Element} (h : e.Placed) (hbarren : e.tag.isBarren = true) :
    ∀ d ∈ e.descendants, d.tag.isBarren = true := by
  induction e using Element.induction with
  | step e ih =>
    intro d hd
    rw [descendants_eq] at hd
    rcases List.mem_cons.1 hd with rfl | hd
    · exact hbarren
    · obtain ⟨child, hchild, hd⟩ := List.mem_flatMap.1 hd
      exact ih child hchild (h.child hchild) (Tag.isBarren_of_mem_allowedChildren hbarren (h.children child hchild)) d hd

/-! ### Lists of declarations -/

theorem flatMap_filter {α β : Type} (keep : α → Bool) (f : α → List β) (list : List α) :
    (list.filter keep).flatMap f = list.flatMap fun a => if keep a then f a else [] := by
  induction list with
  | nil => rfl
  | cons a rest ih => by_cases hkeep : keep a = true <;> simp [hkeep, ih]

/-- The types registered for a part of a declaration, as they are entered. -/
def Element.openedIn (part : Element) (file owner : String) : List OpenType :=
  if part.tag = .types then
    (part.children.filter (·.tag.isTypeDeclaration)).flatMap fun d =>
      (d.declarations file (some owner) (owner ++ "." ++ d.name)).map TypeEntry.opened
  else []

theorem Element.Sound.opened_declarations {e : Element} (h : e.Sound) (file : String) (enclosing : Option String)
    (qualifiedName : String) : (e.declarations file enclosing qualifiedName).map TypeEntry.opened =
      (e.children.flatMap fun part => part.openedIn file qualifiedName) ++
        [(TypeEntry.mk e.name qualifiedName file enclosing e).opened] := by
  rw [declarations_eq, List.map_append, List.map_flatMap, h.innerTypes_eq, List.flatMap_assoc, childrenWithTag,
    flatMap_filter]
  simp [openedIn]

namespace Validator

variable {v : Validator σ} {point : Point σ} {session : Session} {state : σ}

/-! ### The types that are entered -/

/-- The type that is entered at a point of a walk, if any. -/
def typeEntered? (v : Validator σ) (point : Point σ) : Option OpenType :=
  match (v.rulingAt point).verdict with
  | .within (.type opened) => some opened
  | _ => none

/-- The types that a walk enters, in order. -/
def entered (v : Validator σ) (e : Element) (session : Session) (state : σ) : List OpenType :=
  (v.trace e session state).filterMap v.typeEntered?

theorem typeEntered?_declaration (htype : point.element.tag.isTypeDeclaration = true)
    (houtside : point.session.scope.currentType? = none) : v.typeEntered? point =
      some ⟨point.element, point.session.qualifiedName point.element.name, point.session.context⟩ := by
  rw [typeEntered?, rulingAt, enter_eq_enterType htype, enterType, houtside]
  rfl

theorem typeEntered?_eq_none (htype : point.element.tag.isTypeDeclaration = false) : v.typeEntered? point = none := by
  unfold typeEntered?
  split
  · have hdeclares := (eq_of_within_type ‹_›).1
    exact absurd (hdeclares.symm.trans htype) (by simp)
  · rfl

/-- At the points the declared types are entered, each at most once, and all of them unless the walk ends in a fault. -/
structure Enters (v : Validator σ) (points : List (Point σ)) (fault : Option ValidationFault)
    (declared : List OpenType) : Prop where
  within : (points.filterMap v.typeEntered?).Subperm declared
  all : fault = none → (points.filterMap v.typeEntered?).Perm declared

namespace Enters

variable {points later : List (Point σ)} {fault laterFault : Option ValidationFault}
  {declared laterDeclared : List OpenType}

theorem of_perm (h : (points.filterMap v.typeEntered?).Perm declared) : v.Enters points fault declared :=
  ⟨h.subperm, fun _ => h⟩

theorem of_none (h : ∀ point ∈ points, v.typeEntered? point = none) : v.Enters points fault [] :=
  .of_perm (List.Perm.of_eq (List.filterMap_eq_nil_iff.2 h))

theorem congr {other : List OpenType} (h : v.Enters points fault declared) (hperm : declared.Perm other) :
    v.Enters points fault other :=
  ⟨(hperm.subperm_left).1 h.within, fun hfault => (h.all hfault).trans hperm⟩

theorem self {e : Element} (htype : e.tag.isTypeDeclaration = false) (session : Session) (state : σ) :
    v.Enters [⟨e, session, state⟩] none [] := by
  refine .of_none fun point hpoint => typeEntered?_eq_none ?_
  rwa [List.mem_singleton.1 hpoint]

theorem append (h : v.Enters points none declared) (hlater : v.Enters later laterFault laterDeclared) :
    v.Enters (points ++ later) laterFault (declared ++ laterDeclared) where
  within := by
    rw [List.filterMap_append]
    exact (h.within.append hlater.within)
  all hfault := by
    rw [List.filterMap_append]
    exact (h.all rfl).append (hlater.all hfault)

theorem stop {fault : ValidationFault} (h : v.Enters points (some fault) declared) (laterDeclared : List OpenType) :
    v.Enters points (some fault) (declared ++ laterDeclared) where
  within := h.within.trans (List.sublist_append_left _ _).subperm
  all := by simp

end Enters

/-! ### Rows -/

theorem enters_traceAll {children : List Element} {declared : Element → List OpenType} (holds : Session → Prop)
    (h : ∀ child ∈ children, ∀ session state, holds session → v.Enters (v.trace child session state)
      (v.validate child session state).fault (declared child) ∧ holds (v.validate child session state).session)
    (hsession : holds session) : v.Enters (v.traceAll children session state)
      (v.validateAll children session state).fault (children.flatMap declared) := by
  induction children generalizing session state with
  | nil =>
    rw [traceAll]
    exact .of_none (by simp)
  | cons child rest ih =>
    obtain ⟨hchild, hafter⟩ := h child (by simp) session state hsession
    have hothers := fun other (hother : other ∈ rest) => h other (by simp [hother])
    rw [traceAll, List.flatMap_cons]
    cases hfault : (v.validate child session state).fault with
    | some fault =>
      rw [hfault] at hchild
      rw [validateAll_cons_of_some hfault, hfault]
      simpa using hchild.stop (rest.flatMap declared)
    | none =>
      rw [hfault] at hchild
      rw [validateAll_cons_of_none hfault]
      exact hchild.append (ih hothers hafter)

theorem enters_traceInner {owner : String} {children : List Element} {declared : Element → List OpenType}
    (h : ∀ child ∈ children, child.tag.isTypeDeclaration = true → ∀ (session : Session) state,
      v.Enters (v.trace child (session.inner owner) state) (v.validate child (session.inner owner) state).fault
        (declared child)) :
    v.Enters (v.traceInner owner children session state) (v.validateInner owner children session state).fault
      ((children.filter (·.tag.isTypeDeclaration)).flatMap declared) := by
  induction children generalizing session state with
  | nil =>
    rw [traceInner]
    exact .of_none (by simp)
  | cons child rest ih =>
    have hothers := fun other (hother : other ∈ rest) => h other (by simp [hother])
    rw [traceInner]
    by_cases htype : child.tag.isTypeDeclaration = true
    · have hchild := h child (by simp) htype session state
      have hkept : (child :: rest).filter (·.tag.isTypeDeclaration) = child :: rest.filter (·.tag.isTypeDeclaration) :=
        List.filter_cons_of_pos htype
      rw [if_pos htype, hkept, List.flatMap_cons]
      cases hfault : (v.validate child (session.inner owner) state).fault with
      | some fault =>
        rw [hfault] at hchild
        rw [validateInner_cons_of_some htype hfault, hfault]
        simpa [hfault] using hchild.stop ((rest.filter (·.tag.isTypeDeclaration)).flatMap declared)
      | none =>
        rw [hfault] at hchild
        rw [validateInner_cons_of_none htype hfault]
        exact hchild.append (by simpa [hfault] using ih hothers)
    · have hdropped : (child :: rest).filter (·.tag.isTypeDeclaration) = rest.filter (·.tag.isTypeDeclaration) :=
        List.filter_cons_of_neg htype
      rw [if_neg htype, validateInner_cons_of_other htype, hdropped]
      exact ih hothers

/-! ### Declarations -/

theorem enters_barren {e : Element} (hplaced : e.Placed) (hbarren : e.tag.isBarren = true) (session : Session)
    (state : σ) : v.Enters (v.trace e session state) (v.validate e session state).fault [] := by
  refine .of_none fun point hpoint => typeEntered?_eq_none ?_
  have hmem : point.element ∈ e.descendants := (mem_trace_iff.1 hpoint).mem_descendants
  exact Tag.isTypeDeclaration_of_isBarren (hplaced.isBarren_of_mem_descendants hbarren _ hmem)

theorem enters_types {part : Element} {opened : OpenType} {declared : Element → List OpenType}
    (htag : part.tag = .types) (hcurrent : session.scope.currentType? = some opened)
    (h : ∀ d ∈ part.children, d.tag.isTypeDeclaration = true → ∀ (session : Session) state,
      v.Enters (v.trace d (session.inner opened.qualifiedName) state)
        (v.validate d (session.inner opened.qualifiedName) state).fault (declared d)) :
    v.Enters (v.trace part session state) (v.validate part session state).fault
      ((part.children.filter (·.tag.isTypeDeclaration)).flatMap declared) := by
  have hruling : v.enter part session state = ⟨[], session, state, .innerTypes opened.qualifiedName⟩ := by
    rw [enter_eq_enterTypes htag, enterTypes, hcurrent]
  have htype : part.tag.isTypeDeclaration = false := by rw [htag]; rfl
  rw [trace_eq, traceBelow_of_innerTypes (by rw [hruling]), validate_eq, hruling]
  exact (Enters.self htype session state).append (enters_traceInner h)

/-- A declaration is entered with its inner types, in whatever session its header is met. -/
theorem enters_declaration {e : Element} (hsound : e.Sound) (hplaced : e.Placed)
    (htype : e.tag.isTypeDeclaration = true) (file : String) {enclosing : Option String}
    (houtside : session.scope.currentType? = none)
    (hcontext : session.context = (TypeEntry.mk e.name (session.qualifiedName e.name) file enclosing e).headerContext) :
    v.Enters (v.trace e session state) (v.validate e session state).fault
      ((e.declarations file enclosing (session.qualifiedName e.name)).map TypeEntry.opened) := by
  induction e using Element.innerTypes_induction generalizing session state enclosing with
  | step e ih =>
    have hruling : v.enter e session state = ⟨[], session, state,
        .within (.type ⟨e, session.qualifiedName e.name, session.context⟩)⟩ := by
      rw [enter_eq_enterType htype, enterType, houtside]
      rfl
    have hself : v.Enters [⟨e, session, state⟩] none [⟨e, session.qualifiedName e.name, session.context⟩] := by
      refine .of_perm (List.Perm.of_eq ?_)
      rw [List.filterMap_cons, typeEntered?_declaration htype houtside]
      rfl
    have hrow : v.Enters (v.traceBelow ⟨e, session, state⟩) (v.validate e session state).fault
        (e.children.flatMap fun part => part.openedIn file (session.qualifiedName e.name)) := by
      rw [traceBelow_of_within (by rw [hruling]), validate_eq, hruling]
      refine enters_traceAll (fun inside => inside.scope.currentType? =
        some ⟨e, session.qualifiedName e.name, session.context⟩) ?_ (Scope.currentType?_eq (Session.enter_frames _ _))
      intro part hpart inside state hcurrent
      have hafter := Scope.currentType?_congr (v.restores_validate part inside state).frames
      refine ⟨?_, hafter.trans hcurrent⟩
      unfold Element.openedIn
      rcases Tag.isBarren_of_mem_declaration htype (hplaced.children part hpart) with htag | hbarren
      · rw [if_pos htag]
        refine enters_types htag hcurrent fun d hd hinner inside state => ?_
        have hmem : d ∈ e.innerTypes := hsound.mem_innerTypes_iff.2 ⟨part, hpart, htag, hd, hinner⟩
        have hpartSound := (Element.sound_iff.1 hsound).2 part hpart
        exact ih d hmem ((Element.sound_iff.1 hpartSound).2 d hd) ((hplaced.child hpart).child hd) hinner rfl rfl
      · have htag : part.tag ≠ .types := by
          intro htag
          rw [htag] at hbarren
          exact absurd hbarren (by decide)
        rw [if_neg htag]
        exact enters_barren (hplaced.child hpart) hbarren inside state
    rw [trace_eq, hsound.opened_declarations, TypeEntry.opened, ← hcontext]
    exact (hself.append hrow).congr List.perm_append_comm

/-! ### Files -/

theorem enters_file {file : Element} (hfile : file.tag = .nedFile) (hsound : file.Sound) (hplaced : file.Placed)
    (houtside : session.scope.currentType? = none) :
    v.Enters (v.trace file session state) (v.validate file session state).fault
      (file.fileDeclarations.map TypeEntry.opened) := by
  have henter : v.enter file session state = v.enterFile file session state := enter_eq_enterFile hfile session state
  have htype : file.tag.isTypeDeclaration = false := by rw [hfile]; rfl
  have hrow : v.Enters (v.traceBelow ⟨file, session, state⟩) (v.validate file session state).fault
      (file.fileDeclarations.map TypeEntry.opened) := by
    rw [traceBelow_of_descend (by rw [henter]; rfl), validate_eq, henter, Element.fileDeclarations, flatMap_filter,
      List.map_flatMap]
    refine enters_traceAll (fun inside => inside.context = .file (file.value "filename") ∧
      inside.package = file.packageName ∧ inside.scope.currentType? = none) ?_ ⟨rfl, rfl, houtside⟩
    intro child hchild inside state ⟨hcontext, hpackage, hclear⟩
    obtain ⟨hchildPlaced, hchildFiles, hchildFile⟩ := hplaced.inside_file (by simp [hfile]) hchild
    have hstays := stays_validate (v := v) (hchildPlaced.ne_nedFile_of_mem_descendants hchildFiles hchildFile) inside state
    have hafter := Scope.currentType?_congr (v.restores_validate child inside state).frames
    refine ⟨?_, hstays.context.trans hcontext, hstays.package.trans hpackage, hafter.trans hclear⟩
    have hallowed := hplaced.children child hchild
    rw [hfile] at hallowed
    rcases Tag.isBarren_of_mem_file hallowed with htype | hbarren
    · have hname : inside.qualifiedName child.name = qualify file.packageName child.name := by
        rw [Session.qualifiedName, hcontext, hpackage]
      rw [if_pos htype, ← hname]
      exact enters_declaration ((Element.sound_iff.1 hsound).2 child hchild) hchildPlaced htype _ hclear hcontext
    · rw [if_neg (by simp [Tag.isTypeDeclaration_of_isBarren hbarren])]
      exact enters_barren hchildPlaced hbarren inside state
  rw [trace_eq]
  exact (Enters.self htype session state).append hrow

theorem enters_files {root : Element} (hfiles : root.tag = .files) (hsound : root.Sound) (hplaced : root.Placed)
    (houtside : session.scope.currentType? = none) :
    v.Enters (v.trace root session state) (v.validate root session state).fault
      (((root.childrenWithTag .nedFile).flatMap Element.fileDeclarations).map TypeEntry.opened) := by
  have henter : v.enter root session state = ⟨[], session, state, .descend⟩ := by
    rw [enter, hfiles]
  have htype : root.tag.isTypeDeclaration = false := by rw [hfiles]; rfl
  have hrow : v.Enters (v.traceBelow ⟨root, session, state⟩) (v.validate root session state).fault
      (((root.childrenWithTag .nedFile).flatMap Element.fileDeclarations).map TypeEntry.opened) := by
    rw [traceBelow_of_descend (by rw [henter]), validate_eq, henter, Element.childrenWithTag, flatMap_filter,
      List.map_flatMap]
    refine enters_traceAll (fun inside => inside.scope.currentType? = none) ?_ houtside
    intro child hchild inside state hclear
    have hafter := Scope.currentType?_congr (v.restores_validate child inside state).frames
    refine ⟨?_, hafter.trans hclear⟩
    by_cases hfile : child.tag = .nedFile
    · rw [if_pos (decide_eq_true hfile)]
      exact enters_file hfile ((Element.sound_iff.1 hsound).2 child hchild) (hplaced.child hchild) hclear
    · have hallowed := hplaced.children child hchild
      rw [hfiles] at hallowed
      have hbarren : child.tag.isBarren = true := (Tag.isBarren_of_mem_files hallowed).resolve_left hfile
      rw [if_neg (by simpa using hfile)]
      exact enters_barren (hplaced.child hchild) hbarren inside state
  rw [trace_eq]
  exact (Enters.self htype session state).append hrow

/-- What is registered when a tree that fits the schema is added to an index is what a walk over the tree enters: no type is entered that is not registered, each is entered under the qualified name and with the header context that it is registered with, and at most once, and a walk without a fault enters each of them. Of the types registered under one name the index keeps the last. -/
theorem entered_registrations {root : Element} (hroot : root.tag = .nedFile ∨ root.tag = .files)
    (hsound : (ParseTree.ofElement root).isSound = true) (hknown : ∀ e ∈ root.descendants, e.tag ≠ .unknown)
    (houtside : session.scope.currentType? = none) (index : TypeIndex) (project : String) :
    (v.entered root session state).Subperm (root.registrations.map TypeEntry.opened) ∧
      ((v.validate root session state).fault = none →
        (v.entered root session state).Perm (root.registrations.map TypeEntry.opened)) ∧
      ∀ name, (index.addFile project root).types.get? (project, name) =
        ((root.registrations.filter (·.qualifiedName = name)).getLast?).or (index.types.get? (project, name)) := by
  have hrootSound := ParseTree.isSound_ofElement_iff.1 hsound
  have hplaced := hrootSound.placed hknown
  have henters : v.Enters (v.trace root session state) (v.validate root session state).fault
      (root.registrations.map TypeEntry.opened) := by
    unfold Element.registrations
    rcases hroot with hfile | hfiles
    · rw [hfile]
      exact enters_file hfile hrootSound hplaced houtside
    · rw [hfiles]
      exact enters_files hfiles hrootSound hplaced houtside
  exact ⟨henters.within, henters.all, index.types_addFile_get? project root⟩

/-- Two files: a module in a package with a module inside a module inside of it, and a module in no package. -/
def nestedFiles : Element :=
  let inside (name : String) (inner : Element) : Element :=
    ⟨0, .compoundModule, .fill _ [name], [{ Element.new .types with children := [inner] }], none, {}⟩
  let package : Element := ⟨0, .package, .fill _ ["q"], [], none, {}⟩
  let outer : Element := inside "Outer" (inside "Middle" ⟨0, .simpleModule, .fill _ ["Inner"], [], none, {}⟩)
  let first : Element := ⟨0, .nedFile, .fill _ ["a.ned"], [package, outer], none, {}⟩
  let second : Element := ⟨0, .nedFile, .fill _ ["b.ned"], [⟨0, .channel, .fill _ ["C"], [], none, {}⟩], none, {}⟩
  { Element.new .files with children := [first, second] }

/-- The walk enters owners before their inner types, and the index registers them after. -/
theorem entered_registrations_nestedFiles :
    let index := TypeIndex.empty.addFile "p" nestedFiles
    let entered := (standard TypeIndex.resolver "p").entered nestedFiles .initial index
    entered.map (fun opened => (opened.qualifiedName, opened.headerContext)) =
        [("q.Outer", .file "a.ned"), ("q.Outer.Middle", .type "q.Outer"),
          ("q.Outer.Middle.Inner", .type "q.Outer.Middle"), ("C", .file "b.ned")] ∧
      entered.Perm (nestedFiles.registrations.map TypeEntry.opened) := by
  intro index entered
  refine ⟨by decide +kernel, ?_⟩
  exact (entered_registrations (.inr rfl) (by decide +kernel) (by decide +kernel) rfl index "p").2.1 (by decide +kernel)

end Validator

end NedCheck
