import NedCheck.Message
import NedCheck.ParseTree.Basic

/-!
# Structural checks

Whether a parse tree fits the element schema: every reachable node is of a known kind, has legal values for its attributes, and stands where its kind may stand. A problem with a kind or an attribute belongs to the node itself, a problem with a place belongs to the child that is out of place; detaching the nodes that have problems therefore mends the tree.
-/

namespace NedCheck

inductive StructureProblem where
  | unknownCode (code : Nat)
  | attributeCount (tag : Tag) (found : Nat)
  | missingValue (tag : Tag) (name : String)
  | invalidValue (tag : Tag) (name value : String)
  | misplaced (child parent : Tag)
  | repeated (child parent : Tag)
deriving DecidableEq, Repr

def StructureProblem.message : StructureProblem → String
  | .unknownCode code => "unknown element code " ++ toString code
  | .attributeCount tag found =>
    "element <" ++ tag.name ++ "> has " ++ toString found ++ " attributes, expected " ++
      toString tag.attributes.length
  | .missingValue tag name => "required attribute '" ++ name ++ "' missing from <" ++ tag.name ++ ">"
  | .invalidValue tag name value =>
    "invalid value '" ++ value ++ "' for attribute '" ++ name ++ "' of <" ++ tag.name ++ ">"
  | .misplaced child parent => "element <" ++ child.name ++ "> not allowed under <" ++ parent.name ++ ">"
  | .repeated child parent => "<" ++ child.name ++ "> may occur only once under <" ++ parent.name ++ ">"

namespace ParseTree

/-- The problem with a value, if any: a required value is not empty, and every value is one its attribute takes. -/
def valueProblem? (tag : Tag) (spec : AttributeSpec) (value : String) : Option StructureProblem :=
  if spec.default.isNone && value.isEmpty then some (.missingValue tag spec.name)
  else if spec.kind.accepts value then none
  else some (.invalidValue tag spec.name value)

/-- The problems with the places of children under a parent of kind `tag`, where `seen` holds the sections met so far. Children of unknown kinds are passed over. -/
def placeProblems (tree : ParseTree) (tag : Tag) : List Tag → List Nat → List (Nat × StructureProblem)
  | _, [] => []
  | seen, child :: rest =>
    match (tree.node child).tag? with
    | none => placeProblems tree tag seen rest
    | some kind =>
      if !tag.allows kind then (child, .misplaced kind tag) :: placeProblems tree tag seen rest
      else if !kind.isSingleton then placeProblems tree tag seen rest
      else if seen.contains kind then (child, .repeated kind tag) :: placeProblems tree tag seen rest
      else placeProblems tree tag (kind :: seen) rest

/-- The problems found at a node, each with the node it belongs to. -/
def problemsAt (tree : ParseTree) (id : Nat) : List (Nat × StructureProblem) :=
  let node := tree.node id
  match node.tag? with
  | none => [(id, .unknownCode node.code)]
  | some tag =>
    if node.attributes.length ≠ tag.attributes.length then
      [(id, .attributeCount tag node.attributes.length)]
    else
      ((tag.attributes.zip node.attributes).filterMap fun (spec, value) =>
        (valueProblem? tag spec value).map (id, ·)) ++
      tree.placeProblems tag [] node.children

/-- The problems of the nodes reachable from the root, in pre-order of the nodes they are found at. -/
def problems (tree : ParseTree) : List (Nat × StructureProblem) :=
  (tree.walk root).flatMap tree.problemsAt

/-- Whether the tree has no structural problem. -/
def isSound (tree : ParseTree) : Bool := tree.problems.isEmpty

/-- The message for a problem, at the location of the node it belongs to. -/
def problemMessage (tree : ParseTree) (found : Nat × StructureProblem) : Message :=
  .ofSeverity (some found.1) (tree.node found.1).location .error found.2.message

/-- The messages for all problems. -/
def problemMessages (tree : ParseTree) : List Message := tree.problems.map tree.problemMessage

/-- Adds the messages for all problems to the messages there are, node by node, and says how many it has added. -/
def check (tree : ParseTree) (messages : List Message) : Nat × List Message :=
  let checked := (tree.walk root).foldl
    (fun messages id => messages ++ (tree.problemsAt id).map tree.problemMessage) messages
  (checked.length - messages.length, checked)

end ParseTree

end NedCheck
