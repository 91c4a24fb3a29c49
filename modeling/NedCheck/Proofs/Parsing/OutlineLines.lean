import Mathlib.Data.List.Basic
import NedCheck.Outline

/-!
# The lines of an outline

A line of an outline is read from a line of the text, unless that one is blank or a comment. `Line.Spells` says what the text of a line is: blanks, whose bytes are the indentation, and then words, of which the first is the kind and the others are attributes. The significant lines of a text are exactly the lines that some line of the text spells, in the order of their numbers.
-/

namespace NedCheck

namespace Outline

/-- The text is that of the line: what stands after the leading blanks is no comment and has at least one word. -/
def Line.Spells (line : Line) (text : List Char) : Prop :=
  ∃ blanks c rest kind attributes, text = blanks ++ c :: rest ∧
    (∀ blank ∈ blanks, Text.isBlank blank = true) ∧ Text.isBlank c = false ∧ ¬ ['/', '/'] <+: c :: rest ∧
    Text.words (c :: rest) = kind :: attributes ∧
    line.indent = (String.ofList blanks).utf8ByteSize ∧ line.kind = String.ofList kind ∧
    line.attributes = attributes.map splitWord

theorem words_ne_nil {c : Char} (hc : Text.isBlank c = false) (rest : List Char) : Text.words (c :: rest) ≠ [] := by
  unfold Text.words
  rw [hc, if_neg Bool.false_ne_true]
  split
  · split_ifs <;> exact List.cons_ne_nil _ _
  · exact List.cons_ne_nil _ _

theorem foldr_utf8Size (text : List Char) :
    text.foldr (fun c bytes => c.utf8Size + bytes) 0 = (String.ofList text).utf8ByteSize := by
  induction text with
  | nil => rfl
  | cons c rest ih =>
    rw [List.foldr_cons, ih, ← List.singleton_append, String.ofList_append, String.utf8ByteSize_append,
      ← String.singleton_eq_ofList, String.utf8ByteSize_singleton]

theorem forall_isBlank_or_exists (text : List Char) : (∀ c ∈ text, Text.isBlank c = true) ∨
    ∃ blanks c rest, text = blanks ++ c :: rest ∧ (∀ blank ∈ blanks, Text.isBlank blank = true) ∧
      Text.isBlank c = false := by
  induction text with
  | nil => exact .inl (by simp)
  | cons first others ih =>
    cases hfirst : Text.isBlank first with
    | false => exact .inr ⟨[], first, others, rfl, by simp, hfirst⟩
    | true =>
      rcases ih with hblank | ⟨blanks, c, rest, rfl, hblanks, hc⟩
      · exact .inl (List.forall_mem_cons.2 ⟨hfirst, hblank⟩)
      · exact .inr ⟨first :: blanks, c, rest, rfl, List.forall_mem_cons.2 ⟨hfirst, hblanks⟩, hc⟩

theorem read?_of_blank (number : Nat) {text : List Char} (h : ∀ c ∈ text, Text.isBlank c = true) :
    Line.read? number text = none := by
  have htrim : Text.trimStart (text ++ []) = [] := List.dropWhile_append_of_pos h
  rw [List.append_nil] at htrim
  rw [Line.read?, htrim]
  rfl

theorem read?_of_comment (number : Nat) {blanks content : List Char}
    (hblanks : ∀ blank ∈ blanks, Text.isBlank blank = true) (hcomment : ['/', '/'] <+: content) :
    Line.read? number (blanks ++ content) = none := by
  obtain ⟨rest, rfl⟩ := hcomment
  have htrim : Text.trimStart (blanks ++ (['/', '/'] ++ rest)) = '/' :: '/' :: rest := by
    rw [Text.trimStart, List.dropWhile_append_of_pos hblanks]
    rfl
  rw [Line.read?, htrim]
  rfl

theorem read?_of_words (number : Nat) {blanks rest kind : List Char} {c : Char} {attributes : List (List Char)}
    (hblanks : ∀ blank ∈ blanks, Text.isBlank blank = true) (hc : Text.isBlank c = false)
    (hcomment : ¬ ['/', '/'] <+: c :: rest) (hwords : Text.words (c :: rest) = kind :: attributes) :
    Line.read? number (blanks ++ c :: rest) = some
      ⟨number, (String.ofList blanks).utf8ByteSize, String.ofList kind, attributes.map splitWord⟩ := by
  have hlead : (blanks ++ c :: rest).takeWhile Text.isBlank = blanks := by
    rw [List.takeWhile_append_of_pos hblanks, List.takeWhile_cons_of_neg (by simp [hc]), List.append_nil]
  have htrim : Text.trimStart (blanks ++ c :: rest) = c :: rest := by
    rw [Text.trimStart, List.dropWhile_append_of_pos hblanks, List.dropWhile_cons_of_neg (by simp [hc])]
  rw [Line.read?, htrim, hlead, foldr_utf8Size]
  split
  · rename_i others heq
    exact absurd ⟨others, heq.symm⟩ hcomment
  · rw [hwords]

theorem read?_eq_some_iff {number : Nat} {text : List Char} {line : Line} :
    Line.read? number text = some line ↔ line.number = number ∧ line.Spells text := by
  constructor
  · intro hread
    rcases forall_isBlank_or_exists text with hblank | ⟨blanks, c, rest, rfl, hblanks, hc⟩
    · rw [read?_of_blank number hblank] at hread
      cases hread
    · by_cases hcomment : ['/', '/'] <+: c :: rest
      · rw [read?_of_comment number hblanks hcomment] at hread
        cases hread
      · obtain ⟨kind, attributes, hwords⟩ := List.exists_cons_of_ne_nil (words_ne_nil hc rest)
        rw [read?_of_words number hblanks hc hcomment hwords] at hread
        cases hread
        exact ⟨rfl, blanks, c, rest, kind, attributes, rfl, hblanks, hc, hcomment, hwords, rfl, rfl, rfl⟩
  · rintro ⟨rfl, blanks, c, rest, kind, attributes, rfl, hblanks, hc, hcomment, hwords, hindent, hkind, hattributes⟩
    rw [read?_of_words line.number hblanks hc hcomment hwords, ← hindent, ← hkind, ← hattributes]

/-! ### Texts -/

/-- The significant lines are the lines that some line of the text spells, under its number from 1 on. -/
theorem mem_significantLines_iff {text : String} {line : Line} : line ∈ significantLines text ↔
    1 ≤ line.number ∧ ∃ content, (Text.lines text.toList)[line.number - 1]? = some content ∧ line.Spells content := by
  simp only [significantLines, List.mem_filterMap, Prod.exists, List.mk_mem_zipIdx_iff_le_and_getElem?_sub,
    read?_eq_some_iff]
  constructor
  · rintro ⟨content, number, ⟨hnumber, hcontent⟩, rfl, hspells⟩
    exact ⟨hnumber, content, hcontent, hspells⟩
  · rintro ⟨hnumber, content, hcontent, hspells⟩
    exact ⟨content, line.number, ⟨hnumber, hcontent⟩, rfl, hspells⟩

theorem sorted_significantLines (text : String) : (significantLines text).Pairwise (·.number < ·.number) := by
  have hnumbers : ((Text.lines text.toList).zipIdx 1).Pairwise (·.2 < ·.2) := by
    rw [← List.pairwise_map (f := Prod.snd) (R := (· < ·)), List.zipIdx_map_snd]
    exact List.pairwise_lt_range'
  refine hnumbers.filterMap _ fun earlier later hlt first hfirst second hsecond => ?_
  rw [(read?_eq_some_iff.1 hfirst).1, (read?_eq_some_iff.1 hsecond).1]
  exact hlt

end Outline

end NedCheck
