import NedCheck.ImportSpec
import NedCheck.Validation.Connection
import NedCheck.Validation.Members

/-!
# Rules

What validation checks on each kind of element, and in what scope it goes on below. Kinds without a rule of their own are just descended into, except for packets, whose contents are not NED.
-/

namespace NedCheck

namespace Validator

variable {σ : Type}

/-- The ruling of a rule that finds at most one problem: the children of a rejected element are skipped. -/
def decided (e : Element) (session : Session) (state : σ) : Decision → Ruling σ
  | .fault fault => ⟨[], session, state, .fault fault⟩
  | .reject problem => ⟨[⟨e, problem⟩], session, state, .skip⟩
  | .accept scope => ⟨[], session.withScope scope, state, .descend⟩

/-- The report of a caller's check, if it found something. -/
def hookReports (e : Element) (found : Option String) : List Report :=
  found.toList.map fun message => ⟨e, .other message⟩

/-! ### Files -/

/-- A file sets the context and package of its types, and should declare the package its place implies. -/
def enterFile (v : Validator σ) (file : Element) (session : Session) (state : σ) : Ruling σ :=
  let name := file.value "filename"
  let session :=
    { session with context := .file name, package := file.packageName, imports := file.importSpecs }
  let (expected, state) := v.resolver.expectedPackage? name state
  let reports := match expected with
    | none => []
    | some expected =>
      if expected = file.packageName then []
      else [⟨(file.firstChild? .package).getD file, .packageMismatch file.packageName expected⟩]
  ⟨reports, session, state, .descend⟩

/-- An import names at least one type of the project. -/
def enterImport (v : Validator σ) (e : Element) (session : Session) (state : σ) : Ruling σ :=
  let spec := e.value "import-spec"
  let (problems, state) :=
    if isWildcardImport spec then
      let (names, state) := v.resolver.qualifiedNames v.project state
      (if names.any (importMatches spec) then [] else [Problem.importMatchesNothing spec], state)
    else
      let (found, state) := v.resolver.lookupTopLevel spec v.project state
      (if found.isSome then [] else [Problem.importNotFound spec], state)
  let reports := problems.map fun problem => Report.mk e problem
  ⟨reports ++ hookReports e (v.hooks.importClash e session.imports), session, state, .descend⟩

/-! ### Types -/

/-- A type declaration does not stand inside another, except in a section for inner types. -/
def enterType (declaration : Element) (session : Session) (state : σ) : Ruling σ :=
  if session.scope.currentType?.isSome then
    ⟨[], session, state, .fault (.nestedTypeScope declaration.name)⟩
  else
    let opened := ⟨declaration, session.qualifiedName declaration.name, session.context⟩
    ⟨[], session, state, .within (.type opened)⟩

/-- A base is a type of the same kind, and its members become members of the type. -/
def enterExtends (v : Validator σ) (e : Element) (session : Session) (state : σ) : Ruling σ :=
  match session.scope.currentType? with
  | none => ⟨[], session, state, .fault (.outsideType .extendsName)⟩
  | some type =>
    match v.resolver.lookupType e.name type.headerContext state with
    | (none, state) => ⟨[⟨e, .noComponent e.name⟩], session, state, .skip⟩
    | (some base, state) =>
      if base.tag ≠ type.element.tag then
        ⟨[⟨e, .wrongKind e.name type.element.tag⟩], session, state, .skip⟩
      else
        let conflicts := (session.scope.conflicts base).map fun member =>
          Report.mk e (.inheritedConflict member e.name)
        ⟨hookReports e (v.hooks.inheritance type.element base) ++ conflicts,
          session.withScope (session.scope.inherit base), state, .descend⟩

/-- Modules implement module interfaces, channels channel interfaces. -/
def enterInterfaceName (v : Validator σ) (e : Element) (session : Session) (state : σ) : Ruling σ :=
  match session.scope.currentType? with
  | none => ⟨[], session, state, .fault (.outsideType .interfaceName)⟩
  | some type =>
    match v.resolver.lookupType e.name type.headerContext state with
    | (none, state) => ⟨[⟨e, .noInterface e.name⟩], session, state, .skip⟩
    | (some found, state) =>
      if type.element.tag.isModuleLike && found.tag ≠ .moduleInterface then
        ⟨[⟨e, .notModuleInterface e.name⟩], session, state, .skip⟩
      else if !type.element.tag.isModuleLike && found.tag ≠ .channelInterface then
        ⟨[⟨e, .notChannelInterface e.name⟩], session, state, .skip⟩
      else
        ⟨hookReports e (v.hooks.compliance type.element found), session, state, .descend⟩

def enterTypes (session : Session) (state : σ) : Ruling σ :=
  match session.scope.currentType? with
  | none => ⟨[], session, state, .fault (.outsideType .types)⟩
  | some type => ⟨[], session, state, .innerTypes type.qualifiedName⟩

/-! ### Submodules and connections -/

/-- A submodule is a member of the type around it and is of a module type or interface. Its body is validated even if its name is taken. -/
def enterSubmodule (v : Validator σ) (e : Element) (session : Session) (state : σ) : Ruling σ :=
  match session.scope.currentType? with
  | none => ⟨[], session, state, .fault (.outsideType .submodule)⟩
  | some type =>
    let (clash, scope) := match session.scope.declare e type.qualifiedName with
      | .ok scope => ([], scope)
      | .error problem => ([Report.mk e problem], session.scope)
    let session := session.withScope scope
    match v.submoduleType? e (.type type.qualifiedName) state with
    | (none, state) => ⟨clash, session, state, .fault (.submoduleWithoutType e.name)⟩
    | (some (.ok info), state) => ⟨clash, session, state, .within (.submodule e (some info))⟩
    | (some (.error problem), state) =>
      ⟨clash ++ [⟨e, problem⟩], session, state, .within (.submodule e none)⟩

def enterChannelSpec (v : Validator σ) (e : Element) (session : Session) (state : σ) : Ruling σ :=
  match session.scope.currentType? with
  | none => ⟨[], session, state, .fault (.outsideType .channelSpec)⟩
  | some type =>
    match v.channelType e (.type type.qualifiedName) state with
    | (.error fault, state) => ⟨[], session, state, .fault fault⟩
    | (.ok (.ok info), state) => ⟨[], session, state, .within (.channelSpec e (some info))⟩
    | (.ok (.error problem), state) =>
      ⟨[⟨e, problem⟩], session, state, .within (.channelSpec e none)⟩

/-- A connection stands in a compound module, and both its ends fit. -/
def enterConnection (v : Validator σ) (e : Element) (session : Session) (state : σ) : Ruling σ :=
  match session.scope.currentType? with
  | none => ⟨[], session, state, .fault (.outsideType .connection)⟩
  | some type =>
    if type.element.tag ≠ .compoundModule then
      ⟨[], session, state, .fault .connectionOutsideCompound⟩
    else
      let report (endpoint : Endpoint) (problem : EndpointProblem) : Report :=
        ⟨e, .badEndpoint endpoint problem⟩
      let (atSource, state) := v.endpointProblems e .source session.scope.members state
      let (atDestination, state) := v.endpointProblems e .destination session.scope.members state
      ⟨atSource.map (report .source) ++ atDestination.map (report .destination), session, state, .descend⟩

/-- The ruling on an element. -/
def enter (v : Validator σ) (e : Element) (session : Session) (state : σ) : Ruling σ :=
  match e.tag with
  | .nedFile => v.enterFile e session state
  | .importDecl => v.enterImport e session state
  | .extendsName => v.enterExtends e session state
  | .interfaceName => v.enterInterfaceName e session state
  | .simpleModule | .moduleInterface | .compoundModule | .channelInterface | .channel =>
    enterType e session state
  | .param => decided e session state (session.scope.judgeParam e)
  | .gate => decided e session state (session.scope.judgeGate e)
  | .types => enterTypes session state
  | .submodule => v.enterSubmodule e session state
  | .connection => v.enterConnection e session state
  | .channelSpec => v.enterChannelSpec e session state
  | .packetDecl | .packetType => ⟨[], session, state, .skip⟩
  | _ => ⟨[], session, state, .descend⟩

end Validator

end NedCheck
