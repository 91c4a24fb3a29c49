/-!
# Markup

Indented markup of a tree with named attributes, one element a row. The layout is stated once, for `Markup` trees; how attribute values are written is a parameter of `Markup.render`.
-/

namespace NedCheck

structure Markup where
  name : String
  attributes : List (String × String)
  children : List Markup

namespace Markup

/-- The opening of an element up to, but not with, its closing bracket. -/
def opening (write : String → String) (name : String) (attributes : List (String × String)) : String :=
  "<" ++ name ++ String.join (attributes.map fun (key, value) => " " ++ key ++ "=\"" ++ write value ++ "\"")

mutual

/-- The rows of an element, each with its line feed: one row for a leaf, else an opening and a closing row around the children's rows, which are indented by two more spaces. -/
def rows (write : String → String) (indent : String) : Markup → List String
  | ⟨name, attributes, []⟩ => [indent ++ opening write name attributes ++ "/>\n"]
  | ⟨name, attributes, child :: others⟩ =>
    (indent ++ opening write name attributes ++ ">\n") ::
      (rows write (indent ++ "  ") child ++ rowsAll write (indent ++ "  ") others) ++
      [indent ++ "</" ++ name ++ ">\n"]

def rowsAll (write : String → String) (indent : String) : List Markup → List String
  | [] => []
  | child :: others => rows write indent child ++ rowsAll write indent others

end

theorem rowsAll_eq_flatMap (write : String → String) (indent : String) (trees : List Markup) :
    rowsAll write indent trees = trees.flatMap (rows write indent) := by
  induction trees with
  | nil => simp [rowsAll]
  | cons child others ih => simp [rowsAll, ih]

/-- The text of a tree, with attribute values as `write` gives them. -/
def render (write : String → String) (tree : Markup) : String :=
  String.join (tree.rows write "")

/-! ### Escaped values -/

def escapeChar (c : Char) : List Char :=
  if c = '"' then "&quot;".toList
  else if c = '<' then "&lt;".toList
  else if c = '&' then "&amp;".toList
  else [c]

/-- A value in which quotes, less-than signs and ampersands are written as entities. -/
def escape (value : String) : String := String.ofList (value.toList.flatMap escapeChar)

end Markup

end NedCheck
