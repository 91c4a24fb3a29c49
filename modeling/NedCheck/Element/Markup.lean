import NedCheck.Element.Basic
import NedCheck.Text.Markup

/-!
# Markup of elements

The markup tree of an element holds its name, its attributes in schema order and its children. In the text the values are escaped, so a value cannot end early or be taken for markup.
-/

namespace NedCheck

namespace Element

mutual

def toMarkup : Element → Markup
  | ⟨_, tag, attributes, children, _, _⟩ => ⟨tag.name, attributes.named, toMarkupAll children⟩

def toMarkupAll : List Element → List Markup
  | [] => []
  | e :: rest => e.toMarkup :: toMarkupAll rest

end

theorem toMarkupAll_eq_map (children : List Element) : toMarkupAll children = children.map toMarkup := by
  induction children with
  | nil => simp [toMarkupAll]
  | cons e rest ih => simp [toMarkupAll, ih]

theorem toMarkup_eq (e : Element) :
    e.toMarkup = ⟨e.tag.name, e.attributes.named, e.children.map toMarkup⟩ := by
  cases e
  simp [toMarkup, toMarkupAll_eq_map]

def markup (e : Element) : String := e.toMarkup.render Markup.escape

end Element

end NedCheck
