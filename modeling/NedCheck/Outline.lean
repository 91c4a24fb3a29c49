import NedCheck.Parsing

/-!
# Outlines

A plain text form of element trees. Each significant line is one element: its kind, then `name=value` words for its attributes. Two bytes of indentation stand for one level, so an element belongs to the nearest line above that is one level shallower. Blank lines and lines that start with two slashes are skipped.

A line that cannot be placed ends the reading with one error and no tree. An attribute outside the schema is only warned about, on its element.
-/

namespace NedCheck

namespace Outline

/-- A significant line of an outline. -/
structure Line where
  /-- The number of the line in the text, counted from 1. -/
  number : Nat
  /-- The length of the leading blanks in bytes. -/
  indent : Nat
  kind : String
  attributes : List (String × String)
deriving DecidableEq, Repr

/-- A word of the form `name=value`, cut at the first equals sign; without one the value is empty. -/
def splitWord (word : List Char) : String × String :=
  (String.ofList (word.takeWhile (· ≠ '=')), String.ofList ((word.dropWhile (· ≠ '=')).drop 1))

/-- Reads a line, unless it is blank or starts with two slashes. -/
def Line.read? (number : Nat) (text : List Char) : Option Line :=
  match Text.trimStart text with
  | '/' :: '/' :: _ => none
  | content =>
    match Text.words content with
    | [] => none
    | kind :: attributes => some {
        number := number
        indent := (text.takeWhile Text.isBlank).foldr (fun c bytes => c.utf8Size + bytes) 0
        kind := String.ofList kind
        attributes := attributes.map splitWord }

/-- The significant lines of a text. -/
def significantLines (text : String) : List Line :=
  ((Text.lines text.toList).zipIdx 1).filterMap fun (line, number) => Line.read? number line

/-- Why a line has no place in the tree. -/
inductive LineFault where
  | unknownElement (name : String)
  | badIndentation
  | rootExpected (root : Tag)
deriving DecidableEq, Repr

def LineFault.message : LineFault → String
  | .unknownElement name => "syntax error: unknown element '" ++ name ++ "'"
  | .badIndentation => "syntax error: bad indentation"
  | .rootExpected root => "syntax error: expected <" ++ root.name ++ "> first"

/-- The kind and the depth a line stands for. -/
def Line.place (line : Line) : Except LineFault (Tag × Nat) :=
  match Tag.ofName? line.kind with
  | none => .error (.unknownElement line.kind)
  | some tag => if line.indent % 2 = 0 then .ok (tag, line.indent / 2) else .error .badIndentation

/-- A tree under construction. The open nodes lead from the last node up to the root. -/
structure Growth where
  tree : ParseTree
  openNodes : List Nat
  warnings : List Message

/-- Fills in the attributes of a new node, with a warning for each that its kind does not have. -/
def setAttributes (location : String) (id : Nat) : List (String × String) → ParseTree × List Message →
    ParseTree × List Message
  | [], done => done
  | (name, value) :: rest, (tree, warnings) =>
    match tree.setValue? id name value with
    | some tree => setAttributes location id rest (tree, warnings)
    | none =>
      setAttributes location id rest (tree, warnings ++
        [.ofSeverity (some id) location .warning ("unknown attribute '" ++ name ++ "' ignored")])

/-- Fills in a line's new node, which is open from now on under the given open nodes. -/
def Growth.fill (file : String) (line : Line) (tree : ParseTree) (id : Nat) (openNodes : List Nat)
    (warnings : List Message) : Growth :=
  let location := Text.location file line.number
  let (tree, warnings) := setAttributes location id line.attributes (tree.setLocation id location, warnings)
  ⟨tree, id :: openNodes, warnings⟩

/-- The first line, which has to be the root. -/
def start (root : Tag) (file : String) (line : Line) : Except LineFault Growth := do
  let (tag, depth) ← line.place
  if depth = 0 ∧ tag = root then
    return .fill file line (.new tag.code) ParseTree.root [] []
  else
    throw (.rootExpected root)

/-- A line below the first: it is below the root, and at most one level below the line before it. -/
def Growth.add (file : String) (growth : Growth) (line : Line) : Except LineFault Growth := do
  let (tag, depth) ← line.place
  let above := growth.openNodes.drop (growth.openNodes.length - depth)
  match above with
  | parent :: _ =>
    if depth ≤ growth.openNodes.length then
      return .fill file line (growth.tree.appendChild parent tag.code) growth.tree.size above growth.warnings
    else
      throw .badIndentation
  | [] => throw .badIndentation

/-- Adds lines up to the first that has no place, which ends the reading without a tree. -/
def Growth.addAll (file : String) (growth : Growth) : List Line → Option ParseTree × List Message
  | [] => (some growth.tree, growth.warnings)
  | line :: rest =>
    match growth.add file line with
    | .ok growth => growth.addAll file rest
    | .error fault =>
      (none, growth.warnings ++
        [.ofSeverity none (Text.location file line.number) .error fault.message])

/-- The tree of an outline with a root of the given kind, and what there is to say about the text. -/
def parse (root : Tag) (file text : String) : Option ParseTree × List Message :=
  match significantLines text with
  | [] => (none, [.ofSeverity none file .error "syntax error: empty input"])
  | first :: rest =>
    match start root file first with
    | .ok growth => growth.addAll file rest
    | .error fault =>
      (none, [.ofSeverity none (Text.location file first.number) .error fault.message])

/-! ### Outlines as a parser -/

/-- What an outline parser remembers: how many trees it got back. -/
structure ParserState where
  released : Nat
deriving DecidableEq, Repr, Inhabited

/-- The parser of outlines. It reads the file at a path by `readFile`, and may be set to add one warning of its own on the root of every sound tree. -/
def parser (readFile : String → Except String String) (syntaxWarning : Option String) : Parser ParserState where
  parse request state :=
    let text := match request.source with
      | .text content => Except.ok content
      | .file path => readFile path
    let parsed := match text with
      | .ok text => parse request.kind.rootTag request.displayName text
      | .error reason =>
        (none, [.ofSeverity none request.displayName .error ("cannot read file: " ++ reason)])
    (parsed, state)
  checkSyntax tree messages state :=
    let warnings := match syntaxWarning with
      | some warning =>
        [.ofSeverity (some ParseTree.root) (tree.node ParseTree.root).location .warning warning]
      | none => []
    (messages ++ warnings, state)
  release _ state := ⟨state.released + 1⟩

end Outline

end NedCheck
