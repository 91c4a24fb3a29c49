/-!
# Blank characters

The characters that separate words: the twenty-five code points with the Unicode property White_Space. The module cuts text at them: trimming, words, and the lines they are spread over. Everything works on lists of characters, so each cut is a recursion on the text.
-/

namespace NedCheck

namespace Text

/-- The ranges of code points, ends included, that carry the White_Space property. -/
def blankRanges : List (Nat × Nat) :=
  [(0x09, 0x0D), (0x20, 0x20), (0x85, 0x85), (0xA0, 0xA0), (0x1680, 0x1680), (0x2000, 0x200A),
    (0x2028, 0x2029), (0x202F, 0x202F), (0x205F, 0x205F), (0x3000, 0x3000)]

def isBlank (c : Char) : Bool :=
  blankRanges.any fun range => range.1 ≤ c.toNat && c.toNat ≤ range.2

theorem isBlank_of_isWhitespace {c : Char} (h : c.isWhitespace = true) : isBlank c = true := by
  simp only [Char.isWhitespace, Bool.or_eq_true, decide_eq_true_eq] at h
  rcases h with ((rfl | rfl) | rfl) | rfl <;> decide

/-- Text without its leading blanks. -/
def trimStart (text : List Char) : List Char := text.dropWhile isBlank

/-- Text without the blanks at its two ends. -/
def trim (text : List Char) : List Char := (trimStart (trimStart text).reverse).reverse

/-- The maximal runs of characters that are not blank. -/
def words : List Char → List (List Char)
  | [] => []
  | c :: rest =>
    if isBlank c then words rest
    else match rest, words rest with
      | next :: _, word :: others => if isBlank next then [c] :: word :: others else (c :: word) :: others
      | _, others => [c] :: others

/-- The pieces between line feeds; text that ends in a line feed has an empty last piece. -/
def lines : List Char → List (List Char)
  | [] => [[]]
  | c :: rest =>
    if c = '\n' then [] :: lines rest
    else match lines rest with
      | line :: others => (c :: line) :: others
      | [] => [[c]]

theorem lines_ne_nil (text : List Char) : lines text ≠ [] := by
  cases text with
  | nil => simp [lines]
  | cons c rest =>
    simp only [lines]
    split
    · simp
    · split <;> simp

end Text

end NedCheck
