/-!
# Regular expressions

As much of regular expressions as is needed to match import specifications: text that stands for itself, repeated characters of a class, and anchors. An expression is a text that is put together from the texts of its items, and an engine compiles it to a test. What engines are `Documented` to do is said of the items: each matches a piece of the text between what is before it and what is after it.
-/

namespace NedCheck

namespace Regex

/-- A class of characters. -/
inductive CharClass where
  /-- Any character but a line feed. -/
  | any
  /-- Any character but a dot. -/
  | notDot
deriving DecidableEq, Repr

namespace CharClass

def text : CharClass → String
  | .any => "."
  | .notDot => "[^.]"

def contains : CharClass → Char → Bool
  | .any, c => c ≠ '\n'
  | .notDot, c => c ≠ '.'

end CharClass

inductive Item where
  /-- Nothing, at the start of the text. -/
  | start
  /-- Nothing, at the end of the text. -/
  | finish
  /-- Exactly this text. -/
  | literal (text : String)
  /-- Any number of characters of a class. -/
  | many (cls : CharClass)
deriving DecidableEq, Repr

/-- The item matches the piece that stands between the two other texts. -/
inductive Item.Matches : Item → (before piece after : List Char) → Prop where
  | start {after : List Char} : Matches .start [] [] after
  | finish {before : List Char} : Matches .finish before [] []
  | literal {text : String} {before after : List Char} : Matches (.literal text) before text.toList after
  | many {cls : CharClass} {before piece after : List Char} :
    (∀ c ∈ piece, cls.contains c = true) → Matches (.many cls) before piece after

/-- The items match the piece one after another. -/
inductive Matches : List Item → (before piece after : List Char) → Prop where
  | nil {before after : List Char} : Matches [] before [] after
  | cons {item : Item} {items : List Item} {before piece rest after : List Char} :
    item.Matches before piece (rest ++ after) → Matches items (before ++ piece) rest after →
    Matches (item :: items) before (piece ++ rest) after

structure Engine where
  /-- The expression of a text that stands for itself. -/
  escape : String → String
  /-- The test whether an expression matches anywhere in a text, unless the expression is refused. -/
  compile? : String → Option (String → Bool)

namespace Engine

def itemText (engine : Engine) : Item → String
  | .start => "^"
  | .finish => "$"
  | .literal text => engine.escape text
  | .many cls => cls.text ++ "*"

/-- The expression that the items make. -/
def text (engine : Engine) (items : List Item) : String :=
  items.foldr (fun item rest => engine.itemText item ++ rest) ""

/-- What is compiled finds the expression wherever its items match. -/
structure Documented (engine : Engine) : Prop where
  finds_iff {items : List Item} {finds : String → Bool} : engine.compile? (engine.text items) = some finds →
    ∀ text, finds text = true ↔ ∃ before piece after, text.toList = before ++ piece ++ after ∧
      Matches items before piece after

end Engine

end Regex

end NedCheck
