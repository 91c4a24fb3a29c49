import NedCheck.Element.Numbering
import NedCheck.Message
import NedCheck.ParseTree.Basic

/-!
# Elements and parse trees

The two copies between parse trees and elements. An element made from a parse tree is identified by the number of its node; detached nodes are left behind. A parse tree made from an element numbers its nodes in pre-order. Attributes, regions and the order of children are kept both ways, and so are locations, except that an element cannot have an empty one.

Conversion also hands the messages about the tree to a sink, each on the element of the node it is about.
-/

namespace NedCheck

/-- What goes wrong between a parser and its caller. Problems in a source file are not among these: they are diagnostics. -/
inductive ParseFault where
  | unknownTag (code : Nat)
  | unknownSeverity (code : Int) (text : String)
  | unsoundTree (count : Nat) (first : String)
  | lostDiagnostics (reported delivered : Nat)
deriving DecidableEq, Repr

def ParseFault.message : ParseFault → String
  | .unknownTag code => "native tree contains unknown element code " ++ toString code
  | .unknownSeverity code text =>
    "native message has unknown severity code " ++ toString code ++ ": " ++ text
  | .unsoundTree _ first => "tree fails DTD validation even after repairs: " ++ first
  | .lostDiagnostics reported delivered =>
    "problems lost in translation: " ++ toString reported ++ " native messages, " ++
      toString delivered ++ " delivered"

namespace ParseTree

/-! ### From a parse tree -/

/-- The element of a node, given what became of its children. The kind of the node is looked at first. -/
def assemble (tree : ParseTree) (id : Nat) (children : Except ParseFault (List Element)) :
    Except ParseFault Element :=
  let node := tree.node id
  match node.tag? with
  | none => .error (.unknownTag node.code)
  | some tag => children.map fun children => {
      id := id
      tag := tag
      attributes := .fill tag node.attributes
      children := children
      location := if node.location.isEmpty then none else some node.location
      region := node.region }

/-- The element of a node and of what is at most `depth` levels below it. -/
def toElementTo (tree : ParseTree) : Nat → Nat → Except ParseFault Element
  | 0, id => tree.assemble id (.ok [])
  | depth + 1, id => tree.assemble id ((tree.node id).children.mapM (toElementTo tree depth))

/-- The element at the root, unless some reachable node is of no known kind; the first such node in pre-order is then the one reported. -/
def toElement (tree : ParseTree) : Except ParseFault Element := tree.toElementTo tree.size root

/-- The messages with the elements they go to: first those about a node of the tree, in pre-order of the nodes, then all others, on the root. -/
def addressed (rootElement : Element) (messages : List Message) : List (Element × Message) :=
  let elements := rootElement.descendants
  let placed := elements.flatMap fun e => (Message.concerning (some e.id) messages).map (e, ·)
  let others := messages.filter fun message => !elements.any fun e => message.context = some e.id
  placed ++ others.map (rootElement, ·)

/-- Hands messages to a sink, as diagnostics on their elements, up to the first of unknown severity. -/
def deliver {σ : Type} (sink : Sink σ) : List (Element × Message) → σ → Except ParseFault Unit × σ
  | [], state => (.ok (), state)
  | (e, message) :: rest, state =>
    match Severity.ofCode? message.severityCode with
    | none => (.error (.unknownSeverity message.severityCode message.text), state)
    | some severity =>
      deliver sink rest (sink.add
        { severity := severity
          subject := some e.subject
          line := Text.lineOfLocation message.location
          message := message.text } state)

/-- The element of a tree, with the messages about the tree handed to a sink. -/
def convert {σ : Type} (tree : ParseTree) (messages : List Message) (sink : Sink σ) (state : σ) :
    Except ParseFault Element × σ :=
  match tree.toElement with
  | .error fault => (.error fault, state)
  | .ok e =>
    let (delivered, state) := deliver sink (addressed e messages) state
    (delivered.map fun _ => e, state)

/-! ### From an element -/

/-- The numbers of sibling elements that are laid out one after another. -/
def childNumbers (first : Nat) : List Element → List Nat
  | [] => []
  | e :: rest => first :: childNumbers (first + e.size) rest

mutual

/-- The nodes of an element, in pre-order, where the element itself is node `id`. -/
def layout (parent : Option Nat) (id : Nat) : Element → List Node
  | ⟨_, tag, attributes, children, location, region⟩ =>
    { code := tag.code
      attributes := attributes.values
      location := location.getD ""
      region := region
      parent := parent
      children := childNumbers (id + 1) children } :: layoutAll id (id + 1) children

def layoutAll (parent first : Nat) : List Element → List Node
  | [] => []
  | e :: rest => layout (some parent) first e ++ layoutAll parent (first + e.size) rest

end

/-- The parse tree of an element, its nodes numbered in pre-order. -/
def ofElement (e : Element) : ParseTree := ⟨(layout none root e).toArray⟩

end ParseTree

end NedCheck
