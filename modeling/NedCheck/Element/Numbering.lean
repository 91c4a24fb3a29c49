import NedCheck.Element.Basic

/-!
# Numbering

Identities for the elements of a tree: consecutive numbers in pre-order. Trees that are numbered one after another, each from where the last one ended, have no identity in common.
-/

namespace NedCheck

namespace Element

mutual

/-- The number of elements in the tree. -/
def size : Element → Nat
  | ⟨_, _, _, children, _, _⟩ => sizeAll children + 1

def sizeAll : List Element → Nat
  | [] => 0
  | e :: rest => e.size + sizeAll rest

end

mutual

/-- The tree with its elements numbered in pre-order from `first`. -/
def numberFrom (first : Nat) : Element → Element
  | ⟨_, tag, attributes, children, location, region⟩ =>
    ⟨first, tag, attributes, numberAllFrom (first + 1) children, location, region⟩

def numberAllFrom (first : Nat) : List Element → List Element
  | [] => []
  | e :: rest => e.numberFrom first :: numberAllFrom (first + e.size) rest

end

theorem size_eq (e : Element) : e.size = sizeAll e.children + 1 := by
  cases e
  rw [size]

theorem size_le_sizeAll {e : Element} {children : List Element} (h : e ∈ children) : e.size ≤ sizeAll children := by
  induction children with
  | nil => exact absurd h List.not_mem_nil
  | cons child rest ih =>
    rw [sizeAll]
    rcases List.mem_cons.1 h with heq | h
    · rw [heq]
      omega
    · have hle := ih h
      omega

theorem length_descendants (e : Element) : e.descendants.length = e.size := by
  induction e using induction with
  | step e ih =>
    have all : ∀ children : List Element, (∀ child ∈ children, child.descendants.length = child.size) →
        (children.flatMap descendants).length = sizeAll children := by
      intro children
      induction children with
      | nil => exact fun _ => rfl
      | cons child rest ihRest =>
        intro h
        rw [List.flatMap_cons, List.length_append, h child (by simp), ihRest fun c hc => h c (by simp [hc]), sizeAll]
    rw [descendants_eq, size_eq, List.length_cons, all e.children ih]

end Element

end NedCheck
