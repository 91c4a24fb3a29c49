import NedCheck.Diagnostic

/-!
# Messages

What parsers and structural checks report while a file is still a parse tree. A message names the node it is about by number, if it is about a node at all, and carries its severity as a number that need not be one of the known codes.
-/

namespace NedCheck

structure Message where
  context : Option Nat
  location : String
  severityCode : Int
  text : String
deriving DecidableEq, Repr

namespace Message

def ofSeverity (context : Option Nat) (location : String) (severity : Severity) (text : String) : Message :=
  ⟨context, location, severity.code, text⟩

/-- The messages whose context is exactly the given one, in order. -/
def concerning (context : Option Nat) (messages : List Message) : List Message :=
  messages.filter fun message => message.context = context

def containsError (messages : List Message) : Bool :=
  messages.any fun message => message.severityCode = Severity.error.code

end Message

end NedCheck
