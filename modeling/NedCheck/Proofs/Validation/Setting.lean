import NedCheck.Proofs.ParseTree.Layout
import NedCheck.Proofs.Validation.Frames

/-!
# Where elements stand

The element schema decides what a walk has entered when it comes to an element: type declarations stand outside of types, the parts of a declaration inside, connections inside compound modules. `Tag.setting` names the place of each kind, `Setting.Holds` says what it means for a scope, and the lemmas on children carry it one level down.
-/

namespace NedCheck

/-- What a kind of element needs around it. -/
inductive Setting where
  | anywhere
  | outsideTypes
  | insideType
  | insideCompound
deriving DecidableEq, Repr

def Tag.setting : Tag → Setting
  | .files | .nedFile | .simpleModule | .moduleInterface | .compoundModule | .channelInterface | .channel =>
    .outsideTypes
  | .extendsName | .interfaceName | .parameters | .param | .gates | .gate | .types | .submodules | .submodule
  | .channelSpec => .insideType
  | .connections | .connection | .connectionGroup => .insideCompound
  | _ => .anywhere

namespace Setting

def Holds (setting : Setting) (scope : Scope) : Prop :=
  match setting with
  | .anywhere => True
  | .outsideTypes => scope.currentType? = none
  | .insideType => ∃ type, scope.currentType? = some type
  | .insideCompound => ∃ type, scope.currentType? = some type ∧ type.element.tag = .compoundModule

theorem Holds.congr {setting : Setting} {before after : Scope} (h : setting.Holds before)
    (hframes : after.frames = before.frames) : setting.Holds after := by
  have hcurrent := Scope.currentType?_congr hframes
  cases setting with
  | anywhere => trivial
  | outsideTypes => exact hcurrent.trans h
  | insideType =>
    obtain ⟨type, htype⟩ := h
    exact ⟨type, hcurrent.trans htype⟩
  | insideCompound =>
    obtain ⟨type, htype, hcompound⟩ := h
    exact ⟨type, hcurrent.trans htype, hcompound⟩

end Setting

/-! ### Children -/

namespace Tag

variable {tag child : Tag}

/-- Below an element that is no declaration and no section for types, children need no more than it does. -/
theorem holds_of_mem_allowedChildren (hchild : child ∈ tag.allowedChildren) (hknown : tag ≠ .unknown)
    (htype : tag.isTypeDeclaration = false) (htypes : tag ≠ .types) {scope : Scope}
    (h : tag.setting.Holds scope) : child.setting.Holds scope := by
  have all : ∀ tag ∈ Tag.all, tag ≠ .unknown → tag.isTypeDeclaration = false → tag ≠ .types →
      ∀ child ∈ tag.allowedChildren, child.setting = .anywhere ∨ child.setting = tag.setting ∨
        child.setting = .insideType ∧ tag.setting = .insideCompound := by decide
  rcases all tag (mem_all tag) hknown htype htypes child hchild with hplace | hplace | ⟨hplace, habove⟩
  · rw [hplace]
    trivial
  · rwa [hplace]
  · rw [habove] at h
    rw [hplace]
    obtain ⟨type, htype, -⟩ := h
    exact ⟨type, htype⟩

theorem setting_of_mem_declaration (hchild : child ∈ tag.allowedChildren)
    (htype : tag.isTypeDeclaration = true) :
    child.setting = .anywhere ∨ child.setting = .insideType ∨
      child.setting = .insideCompound ∧ tag = .compoundModule := by
  have all : ∀ tag ∈ Tag.all, tag.isTypeDeclaration = true → ∀ child ∈ tag.allowedChildren,
      child.setting = .anywhere ∨ child.setting = .insideType ∨
        child.setting = .insideCompound ∧ tag = .compoundModule := by decide
  exact all tag (mem_all tag) htype child hchild

theorem setting_of_mem_types (hchild : child ∈ Tag.types.allowedChildren) :
    child.isTypeDeclaration = true ∨ child.setting = .anywhere := by
  have all : ∀ child ∈ Tag.types.allowedChildren,
      child.isTypeDeclaration = true ∨ child.setting = .anywhere := by decide
  exact all child hchild

theorem setting_of_isTypeDeclaration (htype : tag.isTypeDeclaration = true) : tag.setting = .outsideTypes := by
  cases tag <;> first | rfl | exact absurd htype (by decide)

theorem setting_of_mem_anywhere (hchild : child ∈ tag.allowedChildren) (hknown : tag ≠ .unknown)
    (hplace : tag.setting = .anywhere) : child.setting = .anywhere := by
  have all : ∀ tag ∈ Tag.all, tag ≠ .unknown → tag.setting = .anywhere →
      ∀ child ∈ tag.allowedChildren, child.setting = .anywhere := by decide
  exact all tag (mem_all tag) hknown hplace child hchild

end Tag

/-! ### Elements -/

namespace Element

theorem mem_descendants_self (e : Element) : e ∈ e.descendants := by
  rw [descendants_eq]
  exact List.mem_cons_self

theorem mem_descendants_trans {e d below : Element} (hd : d ∈ e.descendants) (hbelow : below ∈ d.descendants) :
    below ∈ e.descendants := by
  induction e using Element.induction with
  | step e ih =>
    rw [descendants_eq] at hd ⊢
    rcases List.mem_cons.1 hd with heq | hd
    · rwa [← descendants_eq, ← heq]
    · obtain ⟨child, hchild, hd⟩ := List.mem_flatMap.1 hd
      exact List.mem_cons_of_mem _ (List.mem_flatMap.2 ⟨child, hchild, ih child hchild hd⟩)

theorem mem_descendants_of_mem_children {e child : Element} (h : child ∈ e.children) : child ∈ e.descendants := by
  rw [descendants_eq]
  exact List.mem_cons_of_mem _ (List.mem_flatMap.2 ⟨child, h, child.mem_descendants_self⟩)

/-- All elements of the tree are of known kinds and stand where the schema puts them. -/
def Placed (e : Element) : Prop :=
  ∀ d ∈ e.descendants, d.tag ≠ .unknown ∧ ∀ child ∈ d.children, child.tag ∈ d.tag.allowedChildren

theorem Sound.placed {e : Element} (h : e.Sound) (hknown : ∀ d ∈ e.descendants, d.tag ≠ .unknown) : e.Placed := by
  intro d hd
  refine ⟨hknown d hd, ?_⟩
  intro child hchild
  have hallows := (h d hd).allowed child.tag (List.mem_map_of_mem hchild)
  have hchildKnown := hknown child (mem_descendants_trans hd (mem_descendants_of_mem_children hchild))
  simpa [Tag.allows, hchildKnown] using hallows

namespace Placed

variable {e : Element}

theorem known (h : e.Placed) : e.tag ≠ .unknown := (h e e.mem_descendants_self).1

theorem children (h : e.Placed) : ∀ child ∈ e.children, child.tag ∈ e.tag.allowedChildren :=
  (h e e.mem_descendants_self).2

theorem below (h : e.Placed) {inside : Element} (hinside : inside ∈ e.descendants) : inside.Placed :=
  fun d hd => h d (mem_descendants_trans hinside hd)

theorem child (h : e.Placed) {child : Element} (hchild : child ∈ e.children) : child.Placed :=
  h.below (mem_descendants_of_mem_children hchild)

theorem setting_anywhere (h : e.Placed) (hplace : e.tag.setting = .anywhere) :
    ∀ d ∈ e.descendants, d.tag.setting = .anywhere := by
  induction e using Element.induction with
  | step e ih =>
    intro d hd
    rw [descendants_eq] at hd
    rcases List.mem_cons.1 hd with heq | hd
    · rwa [heq]
    · obtain ⟨child, hchild, hd⟩ := List.mem_flatMap.1 hd
      have hchildPlace := Tag.setting_of_mem_anywhere (h.children child hchild) h.known hplace
      exact ih child hchild (h.child hchild) hchildPlace d hd

end Placed

end Element

end NedCheck
