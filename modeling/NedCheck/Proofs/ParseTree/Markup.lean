import NedCheck.Element.Markup
import NedCheck.ParseTree.Markup
import NedCheck.Proofs.ParseTree.Layout
import NedCheck.Proofs.Text.Markup

/-!
# What markup tells of an element

The names of kinds and of their attributes are names as markup has them, so the markup of an element is that of one markup tree only, and that tree tells the kind, the values and the children of every element. Identities, locations and regions are not written.

The parse tree of an element is written by other rules: children are numbers of nodes, names are looked up by position, and values are not escaped. Its markup tree is that of the element all the same, and so the two texts differ in the escapes and in nothing else.
-/

namespace NedCheck

namespace Element

variable {left right e : Element}

/-- The two trees have the same kinds, the same values and the same children throughout. -/
inductive SameContent : Element → Element → Prop where
  | node {left right : Element} : left.tag = right.tag → left.attributes.values = right.attributes.values →
    List.Forall₂ SameContent left.children right.children → SameContent left right

/-! ### The markup tree of an element -/

theorem isName_schema (tag : Tag) :
    Markup.IsName tag.name ∧ ∀ spec ∈ tag.attributes, Markup.IsName spec.name := by
  have all : ∀ tag ∈ Tag.all, Markup.IsName tag.name ∧ ∀ spec ∈ tag.attributes, Markup.IsName spec.name := by
    decide +kernel
  exact all tag (Tag.mem_all tag)

theorem map_snd_named (e : Element) : e.attributes.named.map Prod.snd = e.attributes.values :=
  List.map_snd_zip (Nat.le_of_eq (by rw [List.length_map, e.attributes.complete]))

theorem isName_of_mem_named {pair : String × String} (h : pair ∈ e.attributes.named) : Markup.IsName pair.1 := by
  obtain ⟨spec, hspec, heq⟩ := List.mem_map.1 (List.of_mem_zip h).1
  exact heq ▸ (isName_schema e.tag).2 spec hspec

theorem named_toMarkup (e : Element) : e.toMarkup.Named := by
  induction e using induction with
  | step e ih =>
    rw [toMarkup_eq]
    refine .node ⟨(isName_schema e.tag).1, fun pair hpair => isName_of_mem_named hpair⟩ fun child hchild => ?_
    obtain ⟨below, hbelow, rfl⟩ := List.mem_map.1 hchild
    exact ih below hbelow

theorem toMarkup_eq_iff : left.toMarkup = right.toMarkup ↔ left.SameContent right := by
  induction left using induction generalizing right with
  | step left ih =>
    have along : ∀ {rest others : List Element}, rest ⊆ left.children →
        (rest.map toMarkup = others.map toMarkup ↔ List.Forall₂ SameContent rest others) := by
      intro rest
      induction rest with
      | nil => simp
      | cons child rest ihRest =>
        intro others hrest
        obtain ⟨hchild, hrest⟩ := List.cons_subset.1 hrest
        cases others with
        | nil => simp
        | cons other others =>
          rw [List.map_cons, List.map_cons, List.cons.injEq, ih child hchild, ihRest hrest, List.forall₂_cons]
    rw [toMarkup_eq, toMarkup_eq, Markup.mk.injEq, along (List.Subset.refl _)]
    constructor
    · rintro ⟨htag, hnamed, hbelow⟩
      refine .node ?_ ?_ hbelow
      · exact Option.some.inj ((Tag.ofName?_eq_some_iff.2 htag).symm.trans (Tag.ofName?_eq_some_iff.2 rfl))
      · rw [← map_snd_named, hnamed, map_snd_named]
    · rintro ⟨htag, hvalues, hbelow⟩
      refine ⟨by rw [htag], ?_, hbelow⟩
      rw [Attributes.named, Attributes.named, hvalues, htag]

/-- Two elements have the same markup if and only if they have the same kinds, values and children throughout, whatever the values hold. -/
theorem markup_eq_iff (left right : Element) : left.markup = right.markup ↔ left.SameContent right := by
  rw [← toMarkup_eq_iff]
  exact ⟨Markup.render_escape_inj left.named_toMarkup right.named_toMarkup, fun h => by rw [markup, markup, h]⟩

theorem plain_toMarkup_iff (e : Element) :
    e.toMarkup.Plain ↔ ∀ below ∈ e.descendants, ∀ value ∈ below.attributes.values, Markup.IsPlain value := by
  induction e using induction with
  | step e ih =>
    rw [descendants_eq, List.forall_mem_cons, ← map_snd_named, List.forall_mem_map, toMarkup_eq]
    constructor
    · rintro ⟨hown, hbelow⟩
      refine ⟨hown, fun below hmem => ?_⟩
      obtain ⟨child, hchild, hmem⟩ := List.mem_flatMap.1 hmem
      exact (ih child hchild).1 (hbelow _ (List.mem_map_of_mem hchild)) below hmem
    · rintro ⟨hown, hbelow⟩
      refine .node hown fun tree htree => ?_
      obtain ⟨child, hchild, rfl⟩ := List.mem_map.1 htree
      exact (ih child hchild).2 fun below hmem => hbelow below (List.mem_flatMap.2 ⟨child, hchild, hmem⟩)

end Element

namespace ParseTree

theorem namedAttributes_eq {node : Node} {tag : Tag} (htag : node.tag? = some tag)
    (hlength : node.attributes.length = tag.attributes.length) :
    namedAttributes node = (tag.attributes.map (·.name)).zip node.attributes := by
  apply List.ext_getElem (by simp [namedAttributes, hlength])
  intro position hposition hzip
  have hspec : position < tag.attributes.length := by
    rw [← hlength]
    simpa [namedAttributes] using hposition
  simp [namedAttributes, Node.attributeName?, htag, hspec]

theorem Laid.toMarkupTo_eq {tree : ParseTree} {parent : Option Nat} {id depth : Nat} {e : Element}
    (h : tree.Laid parent id e) (hdepth : e.size ≤ depth + 1) : tree.toMarkupTo depth id = e.toMarkup := by
  have hrow {parent : Option Nat} {id : Nat} {e : Element} (h : tree.Laid parent id e) :
      (tree.node id).tagName = e.tag.name ∧ namedAttributes (tree.node id) = e.attributes.named := by
    refine ⟨by rw [Node.tagName, h.tag?_eq], ?_⟩
    have hvalues : (tree.node id).attributes = e.attributes.values := by rw [h.node_eq]
    rw [namedAttributes_eq h.tag?_eq (by rw [hvalues, e.attributes.complete]), hvalues, Attributes.named]
  refine h.induction (P := fun depth id e => tree.toMarkupTo depth id = e.toMarkup) ?_ ?_ hdepth
  · intro _ id e h hleaf
    rw [toMarkupTo, Element.toMarkup_eq, (hrow h).1, (hrow h).2, hleaf, List.map_nil]
  · intro _ depth id e h hbelow
    have hchildren : (tree.node id).children.map (tree.toMarkupTo depth) = e.children.map Element.toMarkup := by
      generalize (tree.node id).children = numbers, e.children = children at hbelow
      induction hbelow with
      | nil => rfl
      | cons hchild _ ih => rw [List.map_cons, List.map_cons, hchild, ih]
    rw [toMarkupTo, Element.toMarkup_eq, (hrow h).1, (hrow h).2, hchildren]

theorem toMarkup_ofElement (e : Element) : (ofElement e).toMarkup root = e.toMarkup :=
  (laid_ofElement e).toMarkupTo_eq (by rw [size_ofElement]; omega)

/-- The markup of an element's parse tree is the markup of the element with the escapes in its values undone. The two are equal if and only if no value in the tree holds a quote, a less-than sign or an ampersand. -/
theorem markup_ofElement (e : Element) :
    (ofElement e).markup root = Markup.unescapeValues e.markup ∧
      ((ofElement e).markup root = e.markup ↔
        ∀ below ∈ e.descendants, ∀ value ∈ below.attributes.values, Markup.IsPlain value) := by
  rw [markup, toMarkup_ofElement, Element.markup]
  exact ⟨(Markup.unescapeValues_render e.named_toMarkup).symm,
    Markup.render_eq_render_escape_iff.trans e.plain_toMarkup_iff⟩

end ParseTree

end NedCheck
