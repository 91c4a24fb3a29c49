import NedCheck.Diagnostic

/-!
# Problems and faults

What validation finds wrong with a file, by cause, with the wording of each in one place. Problems are for the author of the file and never stop a validation. A fault does: it says that the element tree is not what the element schema promises, or that the default channel type is missing.
-/

namespace NedCheck

/-- An end of a connection. -/
inductive Endpoint where
  | source
  | destination
deriving DecidableEq, Repr

/-- What every message about the end begins with. -/
def Endpoint.leadIn : Endpoint → String
  | .source => "wrong source gate: "
  | .destination => "wrong destination gate: "

/-- The name of a direction in messages. -/
def GateType.direction : GateType → String
  | .input => "input"
  | .output => "output"
  | .inout => "inout"
  | .unspecified => "inout"

/-- What is wrong with an end of a connection. -/
inductive EndpointProblem where
  | noParentGate (gate : String)
  | noSubmodule (name : String)
  | extraSubmoduleIndex (name : String)
  | missingSubmoduleIndex (name : String)
  | noSubmoduleGate (submodule gate : String)
  | extraGateIndex (gate : String)
  | missingGateIndex (gate : String)
  | subgateOfNonInout (gate : String) (declared : GateType)
  | wrongDirection (expected : GateType) (gate : String) (actual : GateType)
deriving DecidableEq, Repr

def EndpointProblem.message : EndpointProblem → String
  | .noParentGate gate => "compound module has no gate named '" ++ gate ++ "'"
  | .noSubmodule name => "no such submodule: '" ++ name ++ "'"
  | .extraSubmoduleIndex name => "extra submodule index ('" ++ name ++ "' is not a vector submodule)"
  | .missingSubmoduleIndex name => "missing submodule index ('" ++ name ++ "' is a vector submodule)"
  | .noSubmoduleGate submodule gate => "submodule '" ++ submodule ++ "' has no gate named '" ++ gate ++ "'"
  | .extraGateIndex gate => "extra gate index or '++' ('" ++ gate ++ "' is not a vector gate)"
  | .missingGateIndex gate => "missing gate index ('" ++ gate ++ "' is a vector gate)"
  | .subgateOfNonInout gate declared =>
    "$i/$o syntax only allowed for inout gates ('" ++ gate ++ "' is an " ++ declared.direction ++ " gate)"
  | .wrongDirection expected gate actual =>
    expected.direction ++ " gate expected but '" ++ gate ++ "' is an " ++ actual.direction ++ " gate"

inductive Problem where
  | packageMismatch (declared expected : String)
  | importNotFound (spec : String)
  | importMatchesNothing (spec : String)
  | noComponent (name : String)
  | wrongKind (name : String) (expected : Tag)
  | inheritedConflict (member base : String)
  | noInterface (name : String)
  | notModuleInterface (name : String)
  | notChannelInterface (name : String)
  | alreadyDefined (name location : String)
  | paramInSubmodule (name : String)
  | paramInChannelSpec (name : String)
  | paramOfUnknownSubmodule
  | paramOfUnknownChannel
  | noParam (name type : String)
  | undefinedParam (name : String)
  | gateInSubmodule (name : String)
  | gateOfUnknownSubmodule
  | noGate (name type : String)
  | undefinedGate (name : String)
  | missingBrackets (gate location : String)
  | extraBrackets (gate location : String)
  | noModuleType (name : String)
  | notModuleType (name : String)
  | noModuleInterfaceType (name : String)
  | notModuleInterfaceType (name : String)
  | noChannelType (name : String)
  | notChannelType (name : String)
  | noChannelLikeType (name : String)
  | notChannelInterfaceType (name : String)
  | badEndpoint (endpoint : Endpoint) (problem : EndpointProblem)
  /-- A problem found by a check of the caller. -/
  | other (message : String)
deriving DecidableEq, Repr

namespace Problem

/-- Every problem is an error, but an import may do nothing. -/
def severity : Problem → Severity
  | .importMatchesNothing _ => .warning
  | _ => .error

def message : Problem → String
  | .packageMismatch declared expected =>
    "declared package \"" ++ declared ++ "\" does not match expected package \"" ++ expected ++ "\""
  | .importNotFound spec => "imported NED type not found: '" ++ spec ++ "'"
  | .importMatchesNothing spec => "import does not match any NED type: '" ++ spec ++ "'"
  | .noComponent name => "no such component: '" ++ name ++ "'"
  | .wrongKind name expected => "'" ++ name ++ "' is not a " ++ expected.readableName
  | .inheritedConflict member base =>
    "'" ++ member ++ "': conflicts with inherited member of '" ++ base ++ "'"
  | .noInterface name => "no such interface: '" ++ name ++ "'"
  | .notModuleInterface name => "'" ++ name ++ "' is not a module interface"
  | .notChannelInterface name => "'" ++ name ++ "' is not a channel interface"
  | .alreadyDefined name location => "'" ++ name ++ "': already defined at " ++ location
  | .paramInSubmodule name =>
    "'" ++ name ++ "': new parameters can only be defined on a module type, but not per submodule"
  | .paramInChannelSpec name =>
    "'" ++ name ++ "': new channel parameters can only be defined on a channel type, but not per connection"
  | .paramOfUnknownSubmodule => "cannot assign parameters of a submodule of unknown type"
  | .paramOfUnknownChannel => "cannot assign parameters of a channel of unknown type"
  | .noParam name type => "'" ++ name ++ "': type '" ++ type ++ "' has no such parameter"
  | .undefinedParam name => "'" ++ name ++ "': undefined parameter"
  | .gateInSubmodule name =>
    "'" ++ name ++ "': new gates can only be defined on a module type, but not per submodule"
  | .gateOfUnknownSubmodule => "cannot configure gates of a submodule of unknown type"
  | .noGate name type => "'" ++ name ++ "': type '" ++ type ++ "' has no such gate"
  | .undefinedGate name => "'" ++ name ++ "': undefined gate"
  | .missingBrackets gate location =>
    "missing []: '" ++ gate ++ "' was declared as a vector gate at " ++ location
  | .extraBrackets gate location => "'" ++ gate ++ "' was declared as a non-vector gate at " ++ location
  | .noModuleType name => "'" ++ name ++ "': no such module type"
  | .notModuleType name => "'" ++ name ++ "' is not a module type"
  | .noModuleInterfaceType name => "'" ++ name ++ "': no such module interface type"
  | .notModuleInterfaceType name => "'" ++ name ++ "' is not a module interface type"
  | .noChannelType name => "'" ++ name ++ "': no such channel type"
  | .notChannelType name => "'" ++ name ++ "' is not a channel type"
  | .noChannelLikeType name => "'" ++ name ++ "': no such channel or channel interface type"
  | .notChannelInterfaceType name => "'" ++ name ++ "' is not a channel interface type"
  | .badEndpoint endpoint problem => endpoint.leadIn ++ problem.message
  | .other message => message

end Problem

/-- A problem with the element it is reported on. -/
structure Report where
  element : Element
  problem : Problem

def Report.diagnostic (report : Report) : Diagnostic :=
  .onElement report.problem.severity report.element report.problem.message

/-- Why a validation cannot go on. -/
inductive ValidationFault where
  | outsideType (tag : Tag)
  | nestedTypeScope (name : String)
  | submoduleWithoutType (name : String)
  | connectionOutsideCompound
  | missingDefaultChannel (name : String)
deriving DecidableEq, Repr

def ValidationFault.message : ValidationFault → String
  | .outsideType tag => "<" ++ tag.name ++ "> found outside of a type declaration"
  | .nestedTypeScope name => "type declaration '" ++ name ++ "' entered while another type is being validated"
  | .submoduleWithoutType name => "submodule '" ++ name ++ "' has neither a type nor a like-type"
  | .connectionOutsideCompound => "connection found outside of a compound module"
  | .missingDefaultChannel name => "default channel type '" ++ name ++ "' cannot be resolved"

end NedCheck
