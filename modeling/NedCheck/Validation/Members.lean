import NedCheck.Scope
import NedCheck.Validation.Problem

/-!
# Members in scope

How a type gets its members, and how parameters and gates refer to them. A parameter or gate is either declared by its element or used by it, and a declaration is also the first use. What a use refers to hangs on where it stands: in the body of a submodule or channel spec it is a member of that one's type, elsewhere a member of the type declaration around it.
-/

namespace NedCheck

/-- The outcome of a rule that finds at most one problem. -/
inductive Decision where
  | fault (fault : ValidationFault)
  | reject (problem : Problem)
  | accept (scope : Scope)

namespace Scope

/-- The scope with a new member, unless its name is taken. -/
def declare (scope : Scope) (element : Element) (owner : String) : Except Problem Scope :=
  match scope.members.get? element.name with
  | some existing => .error (.alreadyDefined element.name existing.element.describeLocation)
  | none => .ok (scope.addMember element.name ⟨element, owner⟩)

/-- The names of the base's members that are taken already. -/
def conflicts (scope : Scope) (base : TypeInfo) : List String :=
  base.members.keys.filter scope.members.contains

/-- The scope with those members of the base whose names are new. -/
def inherit (scope : Scope) (base : TypeInfo) : Scope :=
  { scope with members := scope.members.insertAll base.members.entries }

/-! ### Parameters -/

/-- Whether a parameter that stands in the scope is declared where it should be. -/
def assignParam (scope : Scope) (param : Element) : Decision :=
  let inType (resolved : TypeInfo) : Decision :=
    if (resolved.paramDeclaration? param.name).isSome then .accept scope
    else .reject (.noParam param.name resolved.name)
  match scope.frames with
  | .submodule _ (some resolved) :: _ => inType resolved
  | .submodule _ none :: _ => .reject .paramOfUnknownSubmodule
  | .channelSpec _ (some resolved) :: _ => inType resolved
  | .channelSpec _ none :: _ => .reject .paramOfUnknownChannel
  | _ =>
    if (scope.members.get? param.name).any Member.isParamDeclaration then .accept scope
    else .reject (.undefinedParam param.name)

def judgeParam (scope : Scope) (param : Element) : Decision :=
  if param.paramType = .unspecified then scope.assignParam param
  else match scope.frames with
    | .submodule _ _ :: _ => .reject (.paramInSubmodule param.name)
    | .channelSpec _ _ :: _ => .reject (.paramInChannelSpec param.name)
    | _ =>
      match scope.currentType? with
      | none => .fault (.outsideType .param)
      | some type =>
        match scope.declare param type.qualifiedName with
        | .error problem => .reject problem
        | .ok scope => scope.assignParam param

/-! ### Gates -/

/-- The element that declares a gate used in the scope. -/
def gateDeclaration (scope : Scope) (gate : Element) : Except Problem Element :=
  let (declaration, problem) := match scope.frames with
    | .submodule _ none :: _ => (none, .gateOfUnknownSubmodule)
    | .submodule _ (some resolved) :: _ =>
      (resolved.gateDeclaration? gate.name, .noGate gate.name resolved.name)
    | _ =>
      (((scope.members.get? gate.name).filter Member.isGateDeclaration).map (·.element),
        .undefinedGate gate.name)
  match declaration with
  | some declaration => .ok declaration
  | none => .error problem

/-- Whether a gate that stands in the scope is declared where it should be, as a vector if and only if it is used as one. -/
def useGate (scope : Scope) (gate : Element) : Decision :=
  match scope.gateDeclaration gate with
  | .error problem => .reject problem
  | .ok declaration =>
    if declaration.isVector && !gate.isVector then
      .reject (.missingBrackets gate.name declaration.describeLocation)
    else if !declaration.isVector && gate.isVector then
      .reject (.extraBrackets gate.name declaration.describeLocation)
    else .accept scope

def judgeGate (scope : Scope) (gate : Element) : Decision :=
  if gate.gateType = .unspecified then scope.useGate gate
  else match scope.frames with
    | .submodule _ _ :: _ => .reject (.gateInSubmodule gate.name)
    | _ =>
      match scope.currentType? with
      | none => .fault (.outsideType .gate)
      | some type =>
        match scope.declare gate type.qualifiedName with
        | .error problem => .reject problem
        | .ok scope => scope.useGate gate

end Scope

end NedCheck
