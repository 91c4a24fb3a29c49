import NedCheck.Table

/-!
# Attribute values

The closed sets of values that some attributes take. Each is read with `parse?` and written with `text`, and reading accepts exactly what writing produces. Gates and parameters without a type are uses of a declaration made elsewhere; their type is then `unspecified`.
-/

namespace NedCheck

/-- The direction a gate is declared with. -/
inductive GateType where
  | unspecified
  | input
  | output
  | inout
deriving DecidableEq, Repr

namespace GateType

/-- A gate element without a type uses a gate and declares none. -/
instance : Inhabited GateType := ⟨.unspecified⟩

def text : GateType → String
  | .unspecified => ""
  | .input => "input"
  | .output => "output"
  | .inout => "inout"

def parse? (value : String) : Option GateType :=
  [unspecified, input, output, inout].find? fun type => type.text = value

theorem parse?_eq_some_iff {value : String} {type : GateType} :
    parse? value = some type ↔ type.text = value :=
  find?_eq_some_iff_of_forall_mem (by decide) fun type => by cases type <;> decide

end GateType

/-- The type a parameter is declared with. -/
inductive ParamType where
  | unspecified
  | double
  | int
  | string
  | bool
  | xml
deriving DecidableEq, Repr

namespace ParamType

/-- A parameter element without a type assigns a parameter and declares none. -/
instance : Inhabited ParamType := ⟨.unspecified⟩

def text : ParamType → String
  | .unspecified => ""
  | .double => "double"
  | .int => "int"
  | .string => "string"
  | .bool => "bool"
  | .xml => "xml"

def parse? (value : String) : Option ParamType :=
  [unspecified, double, int, string, bool, xml].find? fun type => type.text = value

theorem parse?_eq_some_iff {value : String} {type : ParamType} :
    parse? value = some type ↔ type.text = value :=
  find?_eq_some_iff_of_forall_mem (by decide) fun type => by cases type <;> decide

end ParamType

/-- The arrow of a connection: `-->`, `<--` or `<-->`. -/
inductive Arrow where
  | leftToRight
  | rightToLeft
  | bidirectional
deriving DecidableEq, Repr

namespace Arrow

instance : Inhabited Arrow := ⟨.leftToRight⟩

def text : Arrow → String
  | .leftToRight => "l2r"
  | .rightToLeft => "r2l"
  | .bidirectional => "bidir"

def parse? (value : String) : Option Arrow :=
  [leftToRight, rightToLeft, bidirectional].find? fun arrow => arrow.text = value

theorem parse?_eq_some_iff {value : String} {arrow : Arrow} :
    parse? value = some arrow ↔ arrow.text = value :=
  find?_eq_some_iff_of_forall_mem (by decide) fun arrow => by cases arrow <;> decide

end Arrow

/-- The half of an inout gate that an endpoint picks. -/
inductive Subgate where
  | whole
  | input
  | output
deriving DecidableEq, Repr

namespace Subgate

instance : Inhabited Subgate := ⟨.whole⟩

def text : Subgate → String
  | .whole => ""
  | .input => "i"
  | .output => "o"

/-- The half as it is written after a gate name in a source file. -/
def suffix : Subgate → String
  | .whole => ""
  | .input => "$i"
  | .output => "$o"

def parse? (value : String) : Option Subgate :=
  [whole, input, output].find? fun subgate => subgate.text = value

theorem parse?_eq_some_iff {value : String} {subgate : Subgate} :
    parse? value = some subgate ↔ subgate.text = value :=
  find?_eq_some_iff_of_forall_mem (by decide) fun subgate => by cases subgate <;> decide

end Subgate

namespace Flag

def text : Bool → String
  | true => "true"
  | false => "false"

def parse? (value : String) : Option Bool := [true, false].find? fun flag => text flag = value

theorem parse?_eq_some_iff {value : String} {flag : Bool} : parse? value = some flag ↔ text flag = value :=
  find?_eq_some_iff_of_forall_mem (by decide) fun flag => by cases flag <;> decide

end Flag

/-- The set of values an attribute takes. -/
inductive ValueKind where
  | text
  | flag
  | gateType
  | paramType
  | arrow
  | subgate
deriving DecidableEq, Repr

/-- The values of each kind; text is free. -/
def ValueKind.accepts : ValueKind → String → Bool
  | .text, _ => true
  | .flag, value => (Flag.parse? value).isSome
  | .gateType, value => (GateType.parse? value).isSome
  | .paramType, value => (ParamType.parse? value).isSome
  | .arrow, value => (Arrow.parse? value).isSome
  | .subgate, value => (Subgate.parse? value).isSome

end NedCheck
