import NedCheck.ParseTree.Element
import NedCheck.ParseTree.Repair

/-!
# Parsing a file

How a source file becomes an element. A `Parser` reads the source into a parse tree and reports messages. The tree is repaired if there were messages, checked against the element schema, handed to the parser once more for its own checks, and converted; the messages travel to a sink on the way. A source that gives no tree at all gives an empty file element.

The parser gets back every tree it made, exactly once and after everything else, whichever way the run ends. A run fails only when parser and schema disagree or messages get lost, never because of a problem in the source.
-/

namespace NedCheck

inductive FileKind where
  | ned
  | msg
deriving DecidableEq, Repr

def FileKind.rootTag : FileKind → Tag
  | .ned => .nedFile
  | .msg => .msgFile

/-- What a parser reads from. -/
inductive Source where
  | text (content : String)
  | file (path : String)
deriving DecidableEq, Repr

structure ParseOptions where
  /-- Whether the parser builds trees of expressions in place of their text. -/
  parseExpressions : Bool := false
  /-- Whether a tree that comes with messages is repaired. -/
  repair : Bool := true
deriving DecidableEq, Repr, Inhabited

structure ParseRequest where
  kind : FileKind
  source : Source
  displayName : String
  options : ParseOptions
deriving DecidableEq, Repr

/-- A parser with its state: it reads a source, adds its own checks to the messages about a sound tree, and takes back the trees it made. -/
structure Parser (ε : Type) where
  parse : ParseRequest → ε → (Option ParseTree × List Message) × ε
  checkSyntax : ParseTree → List Message → ε → List Message × ε
  release : ParseTree → ε → ε

/-- What a parser is asked to do. -/
inductive ParserCall where
  | parse (request : ParseRequest)
  | checkSyntax (tree : ParseTree) (messages : List Message)
  | release (tree : ParseTree)
deriving DecidableEq, Repr

/-- The parser that also keeps a record of its calls, in order. -/
def Parser.recorded {ε : Type} (parser : Parser ε) : Parser (ε × List ParserCall) where
  parse request state :=
    let (parsed, next) := parser.parse request state.1
    (parsed, next, state.2 ++ [.parse request])
  checkSyntax tree messages state :=
    let (messages', next) := parser.checkSyntax tree messages state.1
    (messages', next, state.2 ++ [.checkSyntax tree messages])
  release tree state := (parser.release tree state.1, state.2 ++ [.release tree])

/-- The result of a run, with what became of the parser and of the sink. -/
structure ParseRun (ε σ : Type) where
  result : Except ParseFault Element
  parser : ε
  received : σ

namespace ParseRequest

/-- The element that stands for a source without a tree. -/
def emptyFile (request : ParseRequest) : Element :=
  (Element.new request.kind.rootTag).withValue "filename" request.displayName

/-- The tree to check: MSG files get their file name, and a tree that came with messages is repaired. -/
def prepare (request : ParseRequest) (messages : List Message) (tree : ParseTree) : ParseTree :=
  let named :=
    if request.kind = .msg ∧ (tree.node ParseTree.root).tag? = some .msgFile then
      (tree.setValue? ParseTree.root "filename" request.displayName).getD tree
    else tree
  if !messages.isEmpty && request.options.repair then named.repair.1 else named

end ParseRequest

/-- A result stands only if as many diagnostics were received as there were messages. -/
def accountFor {σ : Type} (sink : Sink σ) (before : σ) (messages : List Message)
    (converted : Except ParseFault Element × σ) : Except ParseFault Element × σ :=
  let delivered := sink.count converted.2 - sink.count before
  match converted with
  | (.ok e, after) =>
    if delivered = messages.length then (.ok e, after)
    else (.error (.lostDiagnostics messages.length delivered), after)
  | failed => failed

/-- Checks and converts a prepared tree. A tree with structural problems is given up before anything reaches the sink. -/
def convertChecked {ε σ : Type} (parser : Parser ε) (sink : Sink σ) (messages : List Message)
    (tree : ParseTree) (state : ε) (received : σ) : ParseRun ε σ :=
  match tree.problems with
  | first :: others =>
    ⟨.error (.unsoundTree (others.length + 1) first.2.message), state, received⟩
  | [] =>
    let (messages, state) := parser.checkSyntax tree messages state
    let (result, after) := accountFor sink received messages (tree.convert messages sink received)
    ⟨result, state, after⟩

/-- Parses a source and hands what was reported about it to the sink. -/
def parseSource {ε σ : Type} (parser : Parser ε) (sink : Sink σ) (request : ParseRequest)
    (state : ε) (received : σ) : ParseRun ε σ :=
  match parser.parse request state with
  | ((none, messages), state) =>
    let root := request.emptyFile
    let (delivered, after) := ParseTree.deliver sink (messages.map (root, ·)) received
    let (result, after) := accountFor sink received messages (delivered.map fun _ => root, after)
    ⟨result, state, after⟩
  | ((some tree, messages), state) =>
    let tree := request.prepare messages tree
    let run := convertChecked parser sink messages tree state received
    { run with parser := parser.release tree run.parser }

end NedCheck
