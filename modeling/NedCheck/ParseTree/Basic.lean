import NedCheck.Region
import NedCheck.Tag.Schema

/-!
# Parse trees

The tree a parser hands over. Nodes are numbered in the order they were appended, the root is node 0, and a node keeps its number for good: detaching a node only takes it, and what is below it, out of reach of the root. Codes that stand for no kind of element are kept as they are; such nodes have no attributes.

Traversals go down at most as many levels as the tree has nodes. In every tree that is built by the operations below a parent has a smaller number than its children, so no node is that deep and nothing is cut off.
-/

namespace NedCheck

/-- A node of a parse tree; its attributes stand in schema order. -/
structure Node where
  code : Nat
  attributes : List String
  location : String
  region : Region
  parent : Option Nat
  children : List Nat
deriving DecidableEq, Repr, Inhabited

namespace Node

def tag? (node : Node) : Option Tag := Tag.ofCode? node.code

/-- A childless node with every attribute at its default. -/
def new (code : Nat) (parent : Option Nat) : Node where
  code := code
  attributes := ((Tag.ofCode? code).map fun tag => tag.attributes.map AttributeSpec.initial).getD []
  location := ""
  region := {}
  parent := parent
  children := []

/-- The name of the node's kind; an unknown kind is named by its code. -/
def tagName (node : Node) : String :=
  match node.tag? with
  | some tag => tag.name
  | none => "element-" ++ toString node.code

/-- The value at a position; empty outside the node's attributes. -/
def value (node : Node) (index : Nat) : String := node.attributes.getD index ""

/-- The name of the attribute at a position of the node's kind. -/
def attributeName? (node : Node) (index : Nat) : Option String :=
  node.tag?.bind fun tag => tag.attributes[index]?.map (·.name)

end Node

structure ParseTree where
  nodes : Array Node
deriving DecidableEq, Repr

namespace ParseTree

/-- The number of the root. -/
def root : Nat := 0

/-- The tree of a single node. -/
def new (code : Nat) : ParseTree := ⟨#[.new code none]⟩

/-- The number of nodes ever appended, detached ones included. -/
def size (tree : ParseTree) : Nat := tree.nodes.size

/-- The node of the given number; numbers outside the tree stand for a blank node. -/
def node (tree : ParseTree) (id : Nat) : Node := tree.nodes.getD id default

def modify (tree : ParseTree) (id : Nat) (change : Node → Node) : ParseTree :=
  ⟨tree.nodes.modify id change⟩

/-- Appends a node as the last child of `parent`; its number is the size of the tree before. -/
def appendChild (tree : ParseTree) (parent code : Nat) : ParseTree :=
  let id := tree.size
  modify ⟨tree.nodes.push (.new code (some parent))⟩ parent fun node =>
    { node with children := node.children ++ [id] }

/-- Takes a node off its parent; the root and nodes that are off already have none. -/
def detach? (tree : ParseTree) (id : Nat) : Option ParseTree :=
  (tree.node id).parent.map fun parent =>
    (tree.modify id fun node => { node with parent := none }).modify parent fun node =>
      { node with children := node.children.filter (· ≠ id) }

/-- Sets an attribute by position; there is none outside the node's attributes. -/
def setValueAt? (tree : ParseTree) (id index : Nat) (value : String) : Option ParseTree :=
  if index < (tree.node id).attributes.length then
    some (tree.modify id fun node => { node with attributes := node.attributes.set index value })
  else none

/-- Sets an attribute by name; there is none outside the schema of the node's kind. -/
def setValue? (tree : ParseTree) (id : Nat) (name value : String) : Option ParseTree :=
  (tree.node id).tag?.bind fun tag =>
    (tag.attributeIndex? name).bind fun index => tree.setValueAt? id index value

def setLocation (tree : ParseTree) (id : Nat) (location : String) : ParseTree :=
  tree.modify id fun node => { node with location }

def setRegion (tree : ParseTree) (id : Nat) (region : Region) : ParseTree :=
  tree.modify id fun node => { node with region }

/-! ### Traversal -/

/-- The nodes at most `depth` levels below a node, in pre-order. -/
def walkTo (tree : ParseTree) : Nat → Nat → List Nat
  | 0, id => [id]
  | depth + 1, id => id :: (tree.node id).children.flatMap (walkTo tree depth)

/-- The nodes reachable from a node, in pre-order. -/
def walk (tree : ParseTree) (id : Nat) : List Nat := tree.walkTo tree.size id

end ParseTree

end NedCheck
