import Mathlib.Data.List.Basic
import NedCheck.Text.Regex

/-!
# A plain engine

What engines are documented to do can be done: the plain engine reads an expression back into items and tries all ways to split a text among them. It reads an escaped text as one item for each character, which matches the same pieces.
-/

namespace NedCheck

namespace Regex

/-! ### Trying all splits -/

/-- The ways to split a text in two. -/
def splits (text : List Char) : List (List Char × List Char) :=
  (List.range (text.length + 1)).map fun count => (text.take count, text.drop count)

theorem mem_splits_iff {text front back : List Char} : (front, back) ∈ splits text ↔ text = front ++ back := by
  simp only [splits, List.mem_map, List.mem_range, Prod.mk.injEq]
  constructor
  · rintro ⟨count, -, rfl, rfl⟩
    exact (List.take_append_drop count text).symm
  · rintro rfl
    exact ⟨front.length, by rw [List.length_append]; omega, by simp, by simp⟩

def Item.test : Item → (before piece after : List Char) → Bool
  | .start, before, piece, _ => before.isEmpty && piece.isEmpty
  | .finish, _, piece, after => piece.isEmpty && after.isEmpty
  | .literal text, _, piece, _ => piece = text.toList
  | .many cls, _, piece, _ => piece.all cls.contains

theorem Item.test_iff {item : Item} {before piece after : List Char} :
    item.test before piece after = true ↔ item.Matches before piece after := by
  cases item with
  | start =>
    simp only [test, Bool.and_eq_true, List.isEmpty_iff]
    exact ⟨by rintro ⟨rfl, rfl⟩; exact .start, by rintro ⟨⟩; exact ⟨rfl, rfl⟩⟩
  | finish =>
    simp only [test, Bool.and_eq_true, List.isEmpty_iff]
    exact ⟨by rintro ⟨rfl, rfl⟩; exact .finish, by rintro ⟨⟩; exact ⟨rfl, rfl⟩⟩
  | literal text =>
    simp only [test, decide_eq_true_eq]
    exact ⟨by rintro rfl; exact .literal, by rintro ⟨⟩; rfl⟩
  | many cls =>
    simp only [test, List.all_eq_true]
    exact ⟨.many, by rintro (_ | _ | _ | hpiece); exact hpiece⟩

/-- Whether the items match a piece at the front of a text. -/
def matchesFront : List Item → (before text : List Char) → Bool
  | [], _, _ => true
  | item :: items, before, text =>
    (splits text).any fun split => item.test before split.1 split.2 && matchesFront items (before ++ split.1) split.2

theorem matchesFront_iff {items : List Item} {before text : List Char} :
    matchesFront items before text = true ↔ ∃ piece after, text = piece ++ after ∧ Matches items before piece after := by
  induction items generalizing before text with
  | nil => exact ⟨fun _ => ⟨[], text, rfl, .nil⟩, fun _ => rfl⟩
  | cons item items ih =>
    simp only [matchesFront, List.any_eq_true, Prod.exists, mem_splits_iff, Bool.and_eq_true, ih, Item.test_iff]
    constructor
    · rintro ⟨piece, _, rfl, hitem, rest, after, rfl, hrest⟩
      exact ⟨piece ++ rest, after, (List.append_assoc ..).symm, .cons hitem hrest⟩
    · rintro ⟨_, after, rfl, hitem | ⟨hitem, hrest⟩⟩
      exact ⟨_, _, List.append_assoc .., hitem, _, _, rfl, hrest⟩

/-! ### Reading expressions -/

/-- The characters that an expression does not take for themselves. -/
def special : List Char := "\\.+*?()|[]\x7b\x7d^$#&-~".toList

def escapeChar (c : Char) : List Char := if c ∈ special then ['\\', c] else [c]

def read? : List Char → Option (List Item)
  | [] => some []
  | '^' :: rest => (read? rest).map (.start :: ·)
  | '$' :: rest => (read? rest).map (.finish :: ·)
  | '.' :: '*' :: rest => (read? rest).map (.many .any :: ·)
  | '[' :: '^' :: '.' :: ']' :: '*' :: rest => (read? rest).map (.many .notDot :: ·)
  | '\\' :: c :: rest => (read? rest).map (.literal (.singleton c) :: ·)
  | c :: rest => if c ∈ special then none else (read? rest).map (.literal (.singleton c) :: ·)

/-- The engine that reads an expression and tries all splits. -/
def plain : Engine where
  escape text := String.ofList (text.toList.flatMap escapeChar)
  compile? expression := (read? expression.toList).map fun items text =>
    (splits text.toList).any fun split => matchesFront items split.1 split.2

/-- The items that the item is read back as. -/
def Item.singles : Item → List Item
  | .literal text => text.toList.map fun c => .literal (.singleton c)
  | item => [item]

theorem read?_escapeChar (c : Char) (rest : List Char) :
    read? (escapeChar c ++ rest) = (read? rest).map (.literal (.singleton c) :: ·) := by
  unfold escapeChar
  split_ifs with hspecial
  · simp [read?]
  · have hne (other : Char) (hother : other ∈ special) : c ≠ other := fun heq => hspecial (heq ▸ hother)
    rw [List.singleton_append, read?.eq_7, if_neg hspecial]
    · exact hne '^' (by decide)
    · exact hne '$' (by decide)
    · exact fun _ hc _ => hne '.' (by decide) hc
    · exact fun _ hc _ => hne '[' (by decide) hc
    · exact fun _ _ hc _ => hne '\\' (by decide) hc

theorem read?_itemText (item : Item) (rest : List Char) :
    read? ((plain.itemText item).toList ++ rest) = (read? rest).map (item.singles ++ ·) := by
  cases item with
  | start => rfl
  | finish => rfl
  | many cls => cases cls <;> rfl
  | literal text =>
    simp only [Engine.itemText, plain, String.toList_ofList, Item.singles]
    induction text.toList with
    | nil => simp
    | cons c text ih => simp [read?_escapeChar, ih, Function.comp_def]

theorem read?_text (items : List Item) :
    read? (plain.text items).toList = some (items.flatMap Item.singles) := by
  induction items with
  | nil => rfl
  | cons item items ih =>
    have htext : (plain.text (item :: items)).toList = (plain.itemText item).toList ++ (plain.text items).toList :=
      String.toList_append
    rw [htext, read?_itemText, ih, List.flatMap_cons, Option.map_some]

/-! ### Matching what was read -/

theorem matches_append_iff {front back : List Item} {before piece after : List Char} :
    Matches (front ++ back) before piece after ↔ ∃ first rest, piece = first ++ rest ∧
      Matches front before first (rest ++ after) ∧ Matches back (before ++ first) rest after := by
  induction front generalizing before piece with
  | nil =>
    constructor
    · exact fun h => ⟨[], piece, rfl, .nil, by rwa [List.append_nil]⟩
    · rintro ⟨_, rest, rfl, ⟨⟩, hback⟩
      rwa [List.append_nil] at hback
  | cons item front ih =>
    rw [List.cons_append]
    constructor
    · rintro (_ | ⟨hitem, hrest⟩)
      obtain ⟨first, rest, rfl, hfront, hback⟩ := ih.1 hrest
      rw [List.append_assoc] at hitem hback
      exact ⟨_, rest, (List.append_assoc ..).symm, .cons hitem hfront, hback⟩
    · rintro ⟨_, rest, rfl, _ | ⟨hitem, hfront⟩, hback⟩
      rw [List.append_assoc]
      refine .cons (by rwa [List.append_assoc]) (ih.2 ⟨_, rest, rfl, hfront, ?_⟩)
      rwa [List.append_assoc]

theorem matches_characters_iff {text before piece after : List Char} :
    Matches (text.map fun c => .literal (.singleton c)) before piece after ↔ piece = text := by
  induction text generalizing before piece with
  | nil => exact ⟨by rintro ⟨⟩; rfl, by rintro rfl; exact .nil⟩
  | cons c text ih =>
    rw [List.map_cons]
    constructor
    · rintro (_ | ⟨⟨⟩, hrest⟩)
      rw [ih.1 hrest, String.toList_singleton, List.singleton_append]
    · rintro rfl
      have hchar : (Item.literal (.singleton c)).Matches before [c] (text ++ after) :=
        String.toList_singleton (c := c) ▸ .literal
      exact .cons hchar (ih.2 rfl)

theorem matches_singles_iff {item : Item} {before piece after : List Char} :
    Matches item.singles before piece after ↔ item.Matches before piece after := by
  have hsingle (item : Item) : Matches [item] before piece after ↔ item.Matches before piece after := by
    constructor
    · rintro (_ | ⟨hitem, ⟨⟩⟩)
      rwa [List.append_nil]
    · intro hitem
      exact List.append_nil piece ▸ .cons hitem .nil
  cases item with
  | start => exact hsingle _
  | finish => exact hsingle _
  | many cls => exact hsingle _
  | literal text => exact matches_characters_iff.trans ⟨by rintro rfl; exact .literal, by rintro ⟨⟩; rfl⟩

theorem matches_flatMap_singles_iff {items : List Item} {before piece after : List Char} :
    Matches (items.flatMap Item.singles) before piece after ↔ Matches items before piece after := by
  induction items generalizing before piece with
  | nil => exact Iff.rfl
  | cons item items ih =>
    rw [List.flatMap_cons, matches_append_iff]
    simp only [ih, matches_singles_iff]
    constructor
    · rintro ⟨first, rest, rfl, hitem, hrest⟩
      exact .cons hitem hrest
    · rintro (_ | ⟨hitem, hrest⟩)
      exact ⟨_, _, rfl, hitem, hrest⟩

theorem plain_documented : plain.Documented where
  finds_iff {items finds} hfinds text := by
    obtain ⟨read, hread, rfl⟩ := Option.map_eq_some_iff.1 hfinds
    obtain rfl := Option.some.inj (hread.symm.trans (read?_text items))
    simp only [List.any_eq_true, Prod.exists, mem_splits_iff, matchesFront_iff, matches_flatMap_singles_iff]
    constructor
    · rintro ⟨before, _, htext, piece, after, rfl, hmatches⟩
      exact ⟨before, piece, after, by rw [htext, List.append_assoc], hmatches⟩
    · rintro ⟨before, piece, after, htext, hmatches⟩
      exact ⟨before, piece ++ after, by rw [htext, List.append_assoc], piece, after, rfl, hmatches⟩

end Regex

end NedCheck
