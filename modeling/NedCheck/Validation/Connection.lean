import NedCheck.Validation.Reference

/-!
# Connections

An end of a connection names a gate, on the compound module itself or on one of its submodules. The gate has to exist, has to be indexed exactly if it is a vector, and has to have the direction that the arrow and the place of the end ask for.
-/

namespace NedCheck

/-- What a connection says about one of its ends. -/
structure EndpointRef where
  endpoint : Endpoint
  /-- The submodule; empty for a gate of the compound module itself. -/
  submodule : String
  submoduleIndex : String
  gate : String
  plusplus : Bool
  gateIndex : String
  subgate : Subgate
deriving DecidableEq, Repr

namespace EndpointRef

/-- What the names of an end's attributes begin with. -/
def attributeLead : Endpoint → String
  | .source => "src-"
  | .destination => "dest-"

/-- Values that are no flag or no subgate count as not given. -/
def read (connection : Element) (endpoint : Endpoint) : EndpointRef :=
  let value := fun name => connection.value (attributeLead endpoint ++ name)
  { endpoint := endpoint
    submodule := value "module"
    submoduleIndex := value "module-index"
    gate := value "gate"
    plusplus := (Flag.parse? (value "gate-plusplus")).getD false
    gateIndex := value "gate-index"
    subgate := (Subgate.parse? (value "gate-subg")).getD default }

def isOnParent (ref : EndpointRef) : Bool := ref.submodule.isEmpty

def usesVector (ref : EndpointRef) : Bool := ref.plusplus || !ref.gateIndex.isEmpty

/-- The gate as it is written in the connection. -/
def gateText (ref : EndpointRef) : String := ref.gate ++ ref.subgate.suffix

/-- The direction a gate has through its subgate, or else by itself. -/
def actualDirection (ref : EndpointRef) (declared : GateType) : GateType :=
  match ref.subgate with
  | .input => .input
  | .output => .output
  | .whole => declared

/-- The direction the end needs: data enters a compound module at its own inputs and leaves a submodule at its outputs. -/
def expectedDirection (ref : EndpointRef) (arrow : Arrow) : GateType :=
  if arrow = .bidirectional then .inout
  else if decide (ref.endpoint = .source) = ref.isOnParent then .input
  else .output

/-- The problems of an end whose gate has been found. -/
def gateProblems (ref : EndpointRef) (arrow : Arrow) (declaration : Element) : List EndpointProblem :=
  let declared := declaration.gateType
  let indexProblems :=
    if ref.usesVector && !declaration.isVector then [.extraGateIndex ref.gate]
    else if !ref.usesVector && declaration.isVector then [.missingGateIndex ref.gate]
    else []
  let directionProblems :=
    if declared ≠ .inout ∧ ref.subgate ≠ .whole then [.subgateOfNonInout ref.gate declared]
    else
      let actual := ref.actualDirection declared
      let expected := ref.expectedDirection arrow
      if actual.direction ≠ expected.direction then [.wrongDirection expected ref.gateText actual] else []
  indexProblems ++ directionProblems

/-- The problems with the index of the submodule. -/
def submoduleIndexProblems (ref : EndpointRef) (submodule : Element) : List EndpointProblem :=
  let isVector := !(submodule.value "vector-size").isEmpty
  let hasIndex := !ref.submoduleIndex.isEmpty
  if hasIndex && !isVector then [.extraSubmoduleIndex ref.submodule]
  else if !hasIndex && isVector then [.missingSubmoduleIndex ref.submodule]
  else []

end EndpointRef

namespace Validator

variable {σ : Type}

/-- The gate an end stands for, or the problem that there is none; the problems with a submodule's index come besides. -/
def endpointGate (v : Validator σ) (ref : EndpointRef) (members : Table String Member) (state : σ) :
    (List EndpointProblem × Except EndpointProblem Element) × σ :=
  if ref.isOnParent then
    match (members.get? ref.gate).filter Member.isGateDeclaration with
    | some member => (([], .ok member.element), state)
    | none => (([], .error (.noParentGate ref.gate)), state)
  else
    match (members.get? ref.submodule).filter Member.isSubmodule with
    | none => (([], .error (.noSubmodule ref.submodule)), state)
    | some member =>
      let (found, state) := v.submoduleType? member.element (.type member.owner) state
      let gate? := (found.bind Except.toOption).bind fun info => info.gateDeclaration? ref.gate
      let gate := match gate? with
        | some declaration => .ok declaration
        | none => .error (.noSubmoduleGate ref.submodule ref.gate)
      ((ref.submoduleIndexProblems member.element, gate), state)

/-- The problems of one end of a connection. -/
def endpointProblems (v : Validator σ) (connection : Element) (endpoint : Endpoint)
    (members : Table String Member) (state : σ) : List EndpointProblem × σ :=
  let ref := EndpointRef.read connection endpoint
  let arrow := (Arrow.parse? (connection.value "arrow-direction")).getD default
  let ((indexProblems, gate), state) := v.endpointGate ref members state
  let gateProblems := match gate with
    | .ok declaration => ref.gateProblems arrow declaration
    | .error problem => [problem]
  (indexProblems ++ gateProblems, state)

end Validator

end NedCheck
