import NedCheck.Proofs.Validation.Imports
import NedCheck.Proofs.Validation.Succession

/-!
# Piece by piece

The walk over a file hands one session from child to child, and all report to one place. Still each child is validated as if it were alone in the file: what a child leaves in the session is the file it is in, and a clear scope. In the same way an inner type is validated as if it were alone, in a session of its own for the type around it, of which it sees the name and nothing else.

What would get in the way is a file inside of the file, after which the walk goes on as in that file.
-/

namespace NedCheck

variable {σ : Type}

/-! ### Sessions and reports -/

theorem Session.Stays.eq {session later : Session} (h : session.Stays later) (hscope : later.scope = session.scope) :
    later = session := by
  obtain ⟨context, package, imports, scope⟩ := later
  obtain ⟨rfl, rfl, rfl⟩ := h
  exact congrArg (Session.mk _ _ _) hscope

/-- No file stands inside of the element. -/
def Element.NoFilesBelow (e : Element) : Prop := ∀ child ∈ e.children, ∀ d ∈ child.descendants, d.tag ≠ .nedFile

theorem Outcome.diagnostics_after (outcome : Outcome σ) (earlier : List Report) :
    (outcome.after earlier).diagnostics = earlier.map Report.diagnostic ++ outcome.diagnostics :=
  List.map_append

namespace Validator

/-! ### Where a point is -/

variable {v : Validator σ} {start point next : Point σ}

/-- A step goes on inside the same type, into a type, or into a section for types, where nothing is entered. -/
theorem Step.currentType?_cases (h : v.Step point next) :
    next.session.scope.currentType? = point.session.scope.currentType? ∨
      next.session.scope.currentType? = none ∨
      ∃ opened, (v.rulingAt point).verdict = .within (.type opened) ∧
        next.session.scope.currentType? = some opened := by
  rcases h.frames_cases with ⟨-, hsame⟩ | ⟨frame, hverdict, hframes⟩ | ⟨-, -, hnone⟩
  · exact .inl (Scope.currentType?_congr hsame)
  · cases frame with
    | type opened => exact .inr (.inr ⟨opened, hverdict, Scope.currentType?_eq hframes⟩)
    | submodule element resolved =>
      left
      rw [Scope.currentType?, Scope.currentType?, hframes]
      rfl
    | channelSpec element resolved =>
      left
      rw [Scope.currentType?, Scope.currentType?, hframes]
      rfl
  · right
    left
    rw [Scope.currentType?, hnone]
    rfl

theorem Visits.exists_owner (h : v.Visits start point) (houtside : start.session.scope.currentType? = none)
    {opened : OpenType} (hcurrent : point.session.scope.currentType? = some opened) :
    ∃ owner, v.Visits start owner ∧ v.Visits owner point ∧ owner.element.tag.isTypeDeclaration = true ∧
      opened = ⟨owner.element, owner.session.qualifiedName owner.element.name, owner.session.context⟩ := by
  induction h with
  | refl => exact absurd (houtside.symm.trans hcurrent) (by simp)
  | @tail between point hbetween hstep ih =>
    rcases hstep.currentType?_cases with hsame | hnone | ⟨entered, hverdict, hentered⟩
    · obtain ⟨owner, howner, hbelow, hdeclares⟩ := ih (hsame.symm.trans hcurrent)
      exact ⟨owner, howner, hbelow.tail hstep, hdeclares⟩
    · exact absurd (hnone.symm.trans hcurrent) (by simp)
    · obtain rfl := Option.some.inj (hentered.symm.trans hcurrent)
      exact ⟨between, hbetween, .single hstep, eq_of_within_type hverdict⟩

theorem Step.package_eq (h : v.Step point next)
    (hbelow : point.element.NoFilesBelow) : next.session.package = (v.rulingAt point).session.package ∧
      next.session.imports = (v.rulingAt point).session.imports := by
  cases h with
  | @descend before rest child row hchildren _ hrow _ =>
    subst hrow
    have hstays := stays_validateAll (v := v) (fun other hother => stays_validate
      (hbelow other (hchildren ▸ List.mem_append_left _ hother))) (v.rulingAt point).session (v.rulingAt point).state
    exact ⟨hstays.package, hstays.imports⟩
  | @within frame before rest child row hchildren _ hrow _ =>
    subst hrow
    have hentered := Session.stays_enter (v.rulingAt point).session frame
    have hstays := stays_validateAll (v := v) (fun other hother => stays_validate
      (hbelow other (hchildren ▸ List.mem_append_left _ hother)))
      ((v.rulingAt point).session.enter frame) (v.rulingAt point).state
    exact ⟨(hentered.trans hstays).package, (hentered.trans hstays).imports⟩
  | @inner owner before rest child row _ _ _ hrow _ =>
    subst hrow
    have hstays := stays_validateInner (v := v) owner before (v.rulingAt point).session (v.rulingAt point).state
    exact ⟨hstays.package, hstays.imports⟩

theorem Visits.package_eq {file : Element} {session : Session} {state : σ} (hfile : file.tag = .nedFile)
    (hbelow : file.NoFilesBelow)
    (h : v.Visits ⟨file, session, state⟩ point) :
    point = ⟨file, session, state⟩ ∨ point.session.package = file.packageName ∧
      point.session.imports = file.importSpecs ∧ ∀ d ∈ point.element.descendants, d.tag ≠ .nedFile := by
  induction h with
  | refl => exact .inl rfl
  | @tail between point hbetween hstep ih =>
    right
    rcases ih with rfl | ⟨hpackage, himports, hfree⟩
    · have hruling : v.rulingAt ⟨file, session, state⟩ = v.enterFile file session state :=
        enter_eq_enterFile hfile session state
      have hsame := hstep.package_eq hbelow
      rw [hruling] at hsame
      exact ⟨hsame.1, hsame.2, hbelow _ hstep.mem_children⟩
    · have hchildren : ∀ child ∈ between.element.children, ∀ d ∈ child.descendants, d.tag ≠ .nedFile :=
        fun child hchild d hd =>
          hfree d (Element.mem_descendants_trans (Element.mem_descendants_of_mem_children hchild) hd)
      have hstays := v.stays_enter (hfree _ (Element.mem_descendants_self _)) between.session between.state
      have hsame := hstep.package_eq hchildren
      exact ⟨(hsame.1.trans hstays.package).trans hpackage, (hsame.2.trans hstays.imports).trans himports,
        hchildren _ hstep.mem_children⟩

/-! ### Rows -/

variable {session : Session} {state : σ}

/-- Elements that leave nothing behind are validated as each is on its own. -/
theorem diagnostics_validateAll (hconstant : v.resolver.Constant) {children : List Element}
    (hbelow : ∀ child ∈ children, ∀ d ∈ child.descendants, d.tag ≠ .nedFile) (hempty : session.scope = .empty)
    (hfault : (v.validateAll children session state).fault = none) (other : σ) :
    (v.validateAll children session state).diagnostics =
      children.flatMap fun child => (v.validate child session other).diagnostics := by
  induction children generalizing state with
  | nil =>
    rw [validateAll]
    rfl
  | cons child rest ih =>
    have hstays := stays_validate (v := v) (hbelow child (by simp)) session state
    have hscope := v.scope_validate_eq_empty child hempty state
    cases hchild : (v.validate child session state).fault with
    | some fault =>
      rw [validateAll_cons_of_some hchild, hchild] at hfault
      exact absurd hfault (by simp)
    | none =>
      have hsession : (v.validate child session state).session = session := hstays.eq (hscope.trans hempty.symm)
      have hsame := congrArg Prod.snd (result_validate_eq hconstant child session state other)
      rw [validateAll_cons_of_none hchild, hsession] at hfault ⊢
      rw [Outcome.diagnostics_after, ih (fun other hother => hbelow other (by simp [hother])) hfault, List.flatMap_cons]
      exact congrArg (· ++ _) hsame

theorem diagnostics_validateInner (hconstant : v.resolver.Constant) {owner : String} {children : List Element}
    (hfault : (v.validateInner owner children session state).fault = none) (other : σ) :
    (v.validateInner owner children session state).diagnostics =
      (children.filter (·.tag.isTypeDeclaration)).flatMap fun d =>
        (v.validate d (session.inner owner) other).diagnostics := by
  induction children generalizing session state with
  | nil =>
    rw [validateInner]
    rfl
  | cons child rest ih =>
    by_cases htype : child.tag.isTypeDeclaration = true
    · have hkept : (child :: rest).filter (·.tag.isTypeDeclaration) = child :: rest.filter (·.tag.isTypeDeclaration) :=
        List.filter_cons_of_pos htype
      cases hchild : (v.validate child (session.inner owner) state).fault with
      | some fault =>
        rw [validateInner_cons_of_some htype hchild, hchild] at hfault
        exact absurd hfault (by simp)
      | none =>
        have hsame := congrArg Prod.snd (result_validate_eq hconstant child (session.inner owner) state other)
        rw [validateInner_cons_of_none htype hchild] at hfault ⊢
        rw [Outcome.diagnostics_after, ih hfault, hkept, List.flatMap_cons]
        exact congrArg (· ++ _) hsame
    · have hdropped : (child :: rest).filter (·.tag.isTypeDeclaration) = rest.filter (·.tag.isTypeDeclaration) :=
        List.filter_cons_of_neg htype
      rw [validateInner_cons_of_other htype] at hfault ⊢
      rw [hdropped, ih hfault]

/-! ### Files and sections for types -/

/-- The diagnostic that a file is not in the package it should be in, if that is so. -/
def packageDiagnostics (v : Validator σ) (file : Element) (state : σ) : List Diagnostic :=
  match (v.resolver.expectedPackage? (file.value "filename") state).1 with
  | none => []
  | some expected =>
    if expected = file.packageName then []
    else [.onElement .error ((file.firstChild? .package).getD file)
      (Problem.packageMismatch file.packageName expected).message]

theorem diagnostics_file (hconstant : v.resolver.Constant) {file : Element} (hfile : file.tag = .nedFile)
    (hbelow : file.NoFilesBelow) (hempty : session.scope = .empty)
    (hfault : (v.validate file session state).fault = none) (other : σ) :
    (v.validate file session state).diagnostics = v.packageDiagnostics file state ++
      file.children.flatMap fun child => (v.validate child
        (.fresh (.file (file.value "filename")) file.packageName file.importSpecs) other).diagnostics := by
  have hruling : v.enter file session state = v.enterFile file session state := enter_eq_enterFile hfile session state
  have hpackage : (v.enterFile file session state).reports.map Report.diagnostic = v.packageDiagnostics file state := by
    unfold enterFile packageDiagnostics
    dsimp only
    cases (v.resolver.expectedPackage? (file.value "filename") state).1 with
    | none => rfl
    | some expected =>
      dsimp only
      split_ifs <;> rfl
  have hsession : (v.enterFile file session state).session =
      .fresh (.file (file.value "filename")) file.packageName file.importSpecs := by
    unfold enterFile
    dsimp only
    rw [hempty]
    rfl
  have hwhole : v.validate file session state = (v.validateAll file.children
      (.fresh (.file (file.value "filename")) file.packageName file.importSpecs)
      (v.enterFile file session state).state).after (v.enterFile file session state).reports := by
    rw [validate_eq, hruling, ← hsession]
    rfl
  rw [hwhole] at hfault ⊢
  rw [Outcome.diagnostics_after, hpackage, diagnostics_validateAll hconstant hbelow rfl hfault other]

theorem diagnostics_types (hconstant : v.resolver.Constant) {part : Element} (htag : part.tag = .types)
    (hfault : (v.validate part session state).fault = none) (other : σ) :
    ∃ opened, session.scope.currentType? = some opened ∧ (v.validate part session state).diagnostics =
      (part.children.filter (·.tag.isTypeDeclaration)).flatMap fun d =>
        (v.validate d (session.inner opened.qualifiedName) other).diagnostics := by
  rw [validate_eq, enter_eq_enterTypes htag, enterTypes] at hfault ⊢
  cases hcurrent : session.scope.currentType? with
  | none =>
    rw [hcurrent] at hfault
    exact absurd hfault (by simp [Ruling.follow])
  | some opened =>
    rw [hcurrent] at hfault
    exact ⟨opened, rfl, diagnostics_validateInner hconstant hfault other⟩

/-- With a resolver whose answers do not change, a file is validated piece by piece, unless a fault comes up. If there are no files inside of it, its diagnostics are the one on its package, if any, and then, child by child, what the child alone is validated to in a new session for the file. Wherever the walk comes to a section for types, what it reports there is, type by type, what the inner type alone is validated to in a new session for the type that has been entered around the section, in the same package, and it is a section of what is reported on that type. The new session needs the same imports only if there is an import inside of the inner type. -/
theorem diagnostics_piecewise (hconstant : v.resolver.Constant) {file : Element} (hfile : file.tag = .nedFile)
    (hclear : session.scope.isClear = true) (hfault : (v.validate file session state).fault = none) (other : σ) :
    (file.NoFilesBelow → (v.validate file session state).diagnostics = v.packageDiagnostics file state ++
        file.children.flatMap fun child => (v.validate child
          (.fresh (.file (file.value "filename")) file.packageName file.importSpecs) other).diagnostics) ∧
      ∀ part, v.Visits ⟨file, session, state⟩ part → part.element.tag = .types →
        ∃ owner, v.Visits ⟨file, session, state⟩ owner ∧ v.Visits owner part ∧
          owner.element.tag.isTypeDeclaration = true ∧
          part.session.scope.currentType? =
            some ⟨owner.element, owner.session.qualifiedName owner.element.name, owner.session.context⟩ ∧
          (file.NoFilesBelow →
            part.session.package = file.packageName ∧ part.session.imports = file.importSpecs) ∧
          (v.outcomeAt part).diagnostics <:+: (v.outcomeAt owner).diagnostics ∧
          ∀ imports : Element → List String, (∀ inner ∈ part.element.children,
              imports inner = part.session.imports ∨ ∀ d ∈ inner.descendants, d.tag ≠ .importDecl) →
            (v.outcomeAt part).diagnostics = (part.element.children.filter (·.tag.isTypeDeclaration)).flatMap
              fun inner => (v.validate inner (.fresh (.type (owner.session.qualifiedName owner.element.name))
                part.session.package (imports inner)) other).diagnostics := by
  have hempty := Scope.isClear_iff.1 hclear
  refine ⟨fun hbelow => diagnostics_file hconstant hfile hbelow hempty hfault other, fun part hvisits htag => ?_⟩
  obtain ⟨opened, hcurrent, hdiagnostics⟩ := diagnostics_types hconstant htag (hvisits.part.fault hfault) other
  have houtside : session.scope.currentType? = none := by
    rw [hempty]
    rfl
  obtain ⟨owner, howner, hinside, hdeclares, rfl⟩ := hvisits.exists_owner houtside hcurrent
  refine ⟨owner, howner, hinside, hdeclares, hcurrent, fun hbelow => ?_, hinside.part.diagnostics, ?_⟩
  · have hnot : part ≠ ⟨file, session, state⟩ := by
      rintro rfl
      exact absurd (hfile.symm.trans htag) (by decide)
    obtain ⟨hpackage, himports, -⟩ := (hvisits.package_eq hfile hbelow).resolve_left hnot
    exact ⟨hpackage, himports⟩
  · intro imports himports
    refine hdiagnostics.trans (List.flatMap_congr fun inner hinner => ?_)
    rcases himports inner (List.mem_filter.1 hinner).1 with hsame | hnone
    · rw [hsame]
      rfl
    · have halike : (part.session.inner (owner.session.qualifiedName owner.element.name)).Alike
          (.fresh (.type (owner.session.qualifiedName owner.element.name)) part.session.package (imports inner)) :=
        ⟨rfl, rfl, rfl⟩
      exact congrArg (List.map Report.diagnostic) (validate_alike hnone halike other).reports

/-- A file in the wrong package, with an import, a module with an inner type, and a module that takes the inner type for its base. -/
def nestingFile : Element :=
  let package : Element := ⟨0, .package, .fill _ ["q"], [], some "a.ned:1", {}⟩
  let importDecl : Element := ⟨0, .importDecl, .fill _ ["q.Outer"], [], none, {}⟩
  let base (name location : String) : Element := ⟨0, .extendsName, .fill _ [name], [], some location, {}⟩
  let inner : Element := ⟨0, .simpleModule, .fill _ ["Inner"], [base "Gone" "a.ned:5"], none, {}⟩
  let outer : Element :=
    ⟨0, .compoundModule, .fill _ ["Outer"], [{ Element.new .types with children := [inner] }], none, {}⟩
  let derived : Element := ⟨0, .simpleModule, .fill _ ["Derived"], [base "Inner" "a.ned:8"], none, {}⟩
  ⟨0, .nedFile, .fill _ ["a.ned"], [package, importDecl, outer, derived], none, {}⟩

/-- The inner type is as good as alone, without the imports of the file, and nobody after it knows of it. -/
theorem diagnostics_piecewise_nestingFile :
    let index := (TypeIndex.empty.setExpectedPackage "a.ned" "p").addFile "project" nestingFile
    let v := standard (TypeIndex.resolver.frozen index) "project"
    (v.validate nestingFile .initial ()).diagnostics.map (·.line) = [1, 5, 8] ∧
      (v.validate nestingFile .initial ()).diagnostics = v.packageDiagnostics nestingFile () ++
        nestingFile.children.flatMap (fun child =>
          (v.validate child (.fresh (.file "a.ned") "q" ["q.Outer"]) ()).diagnostics) ∧
      ∃ part owner, v.Visits ⟨nestingFile, .initial, ()⟩ part ∧ part.element.tag = .types ∧ v.Visits owner part ∧
        (v.outcomeAt part).diagnostics = (part.element.children.filter (·.tag.isTypeDeclaration)).flatMap fun inner =>
          (v.validate inner (.fresh (.type (owner.session.qualifiedName owner.element.name)) "q" []) ()).diagnostics := by
  intro index v
  have hconstant : v.resolver.Constant := TypeIndex.resolver.constant_frozen index
  have hfile : nestingFile.tag = .nedFile := rfl
  have hbelow : nestingFile.NoFilesBelow := by
    unfold Element.NoFilesBelow
    decide +kernel
  have hclear : Session.initial.scope.isClear = true := rfl
  have hfault : (v.validate nestingFile .initial ()).fault = none := by decide +kernel
  obtain ⟨hdiagnostics, hparts⟩ := diagnostics_piecewise hconstant hfile hclear hfault ()
  refine ⟨by decide +kernel, hdiagnostics hbelow, ?_⟩
  have hsection : (v.trace nestingFile .initial ()).any (fun point => point.element.tag = .types) = true := by
    decide +kernel
  obtain ⟨part, hpart, htag⟩ := List.any_eq_true.1 hsection
  have hvisits := mem_trace_iff.1 hpart
  have hfree : ∀ d ∈ nestingFile.descendants, d.tag = .types → ∀ inner ∈ d.children, ∀ below ∈ inner.descendants,
      below.tag ≠ .importDecl := by decide +kernel
  obtain ⟨owner, -, hinside, -, -, hsession, -, hinner⟩ := hparts part hvisits (of_decide_eq_true htag)
  have hpackage : part.session.package = "q" := (hsession hbelow).1
  refine ⟨part, owner, hvisits, of_decide_eq_true htag, hinside, ?_⟩
  rw [← hpackage]
  exact hinner (fun _ => []) fun inner hmem =>
    .inr (hfree _ hvisits.mem_descendants (of_decide_eq_true htag) inner hmem)

/-! ### A file inside of a file, and an import inside of an inner type -/

/-- A file in a package, with another file inside of it between a module and one that extends it. -/
def strayFile : Element :=
  let package : Element := ⟨0, .package, .fill _ ["q"], [], none, {}⟩
  let base : Element := ⟨0, .simpleModule, .fill _ ["Base"], [], none, {}⟩
  let stray : Element := ⟨0, .nedFile, .fill _ ["b.ned"], [], none, {}⟩
  let extension : Element := ⟨0, .extendsName, .fill _ ["Base"], [], none, {}⟩
  let derived : Element := ⟨0, .simpleModule, .fill _ ["X"], [extension], none, {}⟩
  ⟨0, .nedFile, .fill _ ["a.ned"], [package, base, stray, derived], none, {}⟩

/-- An inner type with an import inside of it. -/
def importingType : Element :=
  ⟨0, .simpleModule, .fill _ ["Inner"], [⟨0, .importDecl, .fill _ ["A"], [], none, {}⟩], none, {}⟩

/-- A file with an import, and a module around the inner type. -/
def importingFile : Element :=
  let plain : Element := ⟨0, .simpleModule, .fill _ ["A"], [], none, {}⟩
  let outer : Element :=
    ⟨0, .compoundModule, .fill _ ["Net"], [{ Element.new .types with children := [importingType] }], none, {}⟩
  ⟨0, .nedFile, .fill _ ["a.ned"], [plain, ⟨0, .importDecl, .fill _ ["A"], [], none, {}⟩, outer], none, {}⟩

/-- The module after the file inside is validated as part of that file, and a check on imports sees those of the file from inside of the inner type. -/
theorem diagnostics_strayFile_importingFile :
    let v := standard (TypeIndex.resolver.frozen (TypeIndex.empty.addFile "p" strayFile)) "p"
    let w : Validator Unit :=
      { standard (TypeIndex.resolver.frozen (TypeIndex.empty.addFile "p" importingFile)) "p" with
        hooks := { Hooks.silent with importClash := fun _ imports => imports.head? } }
    v.resolver.Constant ∧ (v.validate strayFile .initial ()).fault = none ∧
      (v.validate strayFile .initial ()).diagnostics.map (·.message) = ["no such component: 'Base'"] ∧
      v.packageDiagnostics strayFile () ++ strayFile.children.flatMap (fun child =>
        (v.validate child (.fresh (.file "a.ned") "q" []) ()).diagnostics) = [] ∧
      w.resolver.Constant ∧ (w.validate importingFile .initial ()).fault = none ∧
      (w.validate importingFile .initial ()).diagnostics.map (·.message) = ["A", "A"] ∧
      (w.validate importingType (.fresh (.type "Net") "" []) ()).diagnostics = [] := by
  intro v w
  exact ⟨TypeIndex.resolver.constant_frozen _, by decide +kernel, by decide +kernel, by decide +kernel,
    TypeIndex.resolver.constant_frozen _, by decide +kernel, by decide +kernel, by decide +kernel⟩

end Validator

end NedCheck
