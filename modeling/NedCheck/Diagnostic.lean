import NedCheck.Element.Basic

/-!
# Diagnostics

A diagnostic is a problem in a source file, reported at a line and, as a rule, on an element. Whoever finds problems hands them to a `Sink`; the `Collector` is the sink that keeps them all, in the order they were reported.
-/

namespace NedCheck

inductive Severity where
  | error
  | warning
  | info
deriving DecidableEq, Repr

namespace Severity

def text : Severity → String
  | .error => "error"
  | .warning => "warning"
  | .info => "info"

/-- The number a parser's message carries for its severity. -/
def code : Severity → Int
  | .error => 1
  | .warning => 2
  | .info => 3

def ofCode? (code : Int) : Option Severity :=
  [error, warning, info].find? fun severity => severity.code = code

theorem ofCode?_eq_some_iff {code : Int} {severity : Severity} :
    ofCode? code = some severity ↔ severity.code = code :=
  find?_eq_some_iff_of_forall_mem (by decide) fun severity => by cases severity <;> decide

end Severity

/-- What a diagnostic keeps of the element it is about. -/
structure Subject where
  id : Nat
  tag : Tag
  location : Option String
deriving DecidableEq, Repr

def Element.subject (e : Element) : Subject := ⟨e.id, e.tag, e.location⟩

structure Diagnostic where
  severity : Severity
  subject : Option Subject
  line : Nat
  message : String
deriving DecidableEq, Repr

namespace Diagnostic

/-- A diagnostic on an element, at the element's line. -/
def onElement (severity : Severity) (e : Element) (message : String) : Diagnostic where
  severity := severity
  subject := some e.subject
  line := e.line
  message := message

/-- The text of a diagnostic: where it is, how bad it is, what it is. -/
def text (diagnostic : Diagnostic) : String :=
  let place := match diagnostic.subject.bind (·.location) with
    | some location => location
    | none => "line " ++ toString diagnostic.line
  place ++ ": " ++ diagnostic.severity.text ++ ": " ++ diagnostic.message

end Diagnostic

/-- A receiver of diagnostics: how it takes one, and how many it says it has taken. -/
structure Sink (σ : Type) where
  add : Diagnostic → σ → σ
  count : σ → Nat

/-- All diagnostics, in the order they were reported. -/
structure Collector where
  diagnostics : List Diagnostic
deriving DecidableEq, Repr, Inhabited

namespace Collector

def empty : Collector := ⟨[]⟩

def add (collector : Collector) (diagnostic : Diagnostic) : Collector :=
  ⟨collector.diagnostics ++ [diagnostic]⟩

def addAll (collector : Collector) (diagnostics : List Diagnostic) : Collector :=
  ⟨collector.diagnostics ++ diagnostics⟩

theorem addAll_cons (collector : Collector) (first : Diagnostic) (rest : List Diagnostic) :
    collector.addAll (first :: rest) = (collector.add first).addAll rest := by
  simp [addAll, add]

def problemCount (collector : Collector) : Nat := collector.diagnostics.length

/-- The number of diagnostics of one severity. -/
def countOf (collector : Collector) (severity : Severity) : Nat :=
  collector.diagnostics.countP fun diagnostic => diagnostic.severity = severity

def hasErrors (collector : Collector) : Bool :=
  collector.diagnostics.any fun diagnostic => diagnostic.severity = .error

/-- The diagnostics on one element. -/
def onElement (collector : Collector) (id : Nat) : List Diagnostic :=
  collector.diagnostics.filter fun diagnostic => diagnostic.subject.any (·.id = id)

def messages (collector : Collector) : List String := collector.diagnostics.map (·.message)

/-- The sink that keeps every diagnostic. -/
def sink : Sink Collector := ⟨fun diagnostic collector => collector.add diagnostic, problemCount⟩

/-- The sink that ignores the given severities. -/
def sinkDropping (dropped : List Severity) : Sink Collector where
  add diagnostic collector :=
    if dropped.contains diagnostic.severity then collector else collector.add diagnostic
  count := problemCount

theorem sinkDropping_nil : sinkDropping [] = sink := by
  simp [sinkDropping, sink]

end Collector

end NedCheck
