import NedCheck.ParseTree.Basic
import NedCheck.Text.Markup

/-!
# Markup of parse trees

A parse tree is written in the layout of elements, with its values as they are. Attributes of a node whose kind is unknown have no names and are written with a question mark.
-/

namespace NedCheck

namespace ParseTree

/-- The attributes of a node with their names. -/
def namedAttributes (node : Node) : List (String × String) :=
  node.attributes.zipIdx.map fun (value, index) => ((node.attributeName? index).getD "?", value)

def toMarkupTo (tree : ParseTree) : Nat → Nat → Markup
  | 0, id => ⟨(tree.node id).tagName, namedAttributes (tree.node id), []⟩
  | depth + 1, id =>
    ⟨(tree.node id).tagName, namedAttributes (tree.node id),
      (tree.node id).children.map (toMarkupTo tree depth)⟩

/-- The markup tree of what is below a node, the node included. -/
def toMarkup (tree : ParseTree) (id : Nat) : Markup := tree.toMarkupTo tree.size id

def markup (tree : ParseTree) (id : Nat) : String := (tree.toMarkup id).render fun value => value

end ParseTree

end NedCheck
