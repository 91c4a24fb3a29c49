import Mathlib.Data.List.TakeWhile
import Mathlib.Data.Nat.Digits.Defs
import Mathlib.Tactic.Ring
import NedCheck.Text.Location

/-!
# Line numbers in locations

`NamesLine` says which line a location names: after its last colon stands, between blanks, a decimal number that fits 32 bits, perhaps with a plus sign and with zeros in front. There is at most one such line, and it is the one that is read; a location that names none is read as the first line. What is written before the last colon does not matter, so a line number that is put behind a colon is read back whatever the file is called.
-/

namespace NedCheck

namespace Text

/-! ### After the last mark -/

theorem afterLast_eq_none {mark : Char} {text : List Char} (h : mark ∉ text) : afterLast mark text = none := by
  induction text with
  | nil => rfl
  | cons c rest ih =>
    obtain ⟨hc, hrest⟩ : mark ≠ c ∧ mark ∉ rest := by simpa using h
    rw [afterLast, ih hrest, if_neg hc.symm, Option.none_or]

theorem afterLast_append {mark : Char} (before : List Char) {after : List Char} (h : mark ∉ after) :
    afterLast mark (before ++ mark :: after) = some after := by
  induction before with
  | nil => rw [List.nil_append, afterLast, afterLast_eq_none h, if_pos rfl, Option.none_or]
  | cons c rest ih => rw [List.cons_append, afterLast, ih, Option.some_or]

theorem exists_of_afterLast {mark : Char} {text after : List Char} (h : afterLast mark text = some after) :
    ∃ before, text = before ++ mark :: after := by
  induction text with
  | nil => cases h
  | cons c rest ih =>
    rw [afterLast] at h
    cases hrest : afterLast mark rest with
    | some found =>
      rw [hrest, Option.some_or] at h
      obtain ⟨before, hbefore⟩ := ih (hrest.trans h)
      exact ⟨c :: before, congrArg (c :: ·) hbefore⟩
    | none =>
      rw [hrest, Option.none_or] at h
      split_ifs at h with hc
      exact ⟨[], by rw [← Option.some.inj h, hc, List.nil_append]⟩

/-! ### Trimming -/

theorem trim_append {before core after : List Char} (hbefore : ∀ c ∈ before, isBlank c = true)
    (hafter : ∀ c ∈ after, isBlank c = true) (hcore : ∀ c ∈ core, isBlank c = false) :
    trim (before ++ core ++ after) = core := by
  have hstart {core : List Char} (hcore : ∀ c ∈ core, isBlank c = false) : trimStart core = core := by
    cases core with
    | nil => rfl
    | cons c rest => exact List.dropWhile_cons_of_neg (by simp [hcore c List.mem_cons_self])
  have hreverse {text : List Char} (h : ∀ c ∈ text, isBlank c = true) : ∀ c ∈ text.reverse, isBlank c = true :=
    fun c hc => h c (List.mem_reverse.1 hc)
  have hend : trimStart (after.reverse ++ core.reverse) = core.reverse := by
    rw [trimStart, List.dropWhile_append_of_pos (hreverse hafter)]
    exact hstart fun c hc => hcore c (List.mem_reverse.1 hc)
  have hfront : trimStart (before ++ core ++ after) = trimStart (core ++ after) := by
    rw [List.append_assoc]
    exact List.dropWhile_append_of_pos hbefore
  rw [trim, hfront]
  cases core with
  | nil =>
    have hnone : trimStart ([] ++ after) = [] := List.dropWhile_eq_nil_iff.2 hafter
    rw [hnone]
    rfl
  | cons c rest =>
    have hkept : trimStart (c :: rest ++ after) = c :: rest ++ after :=
      List.dropWhile_cons_of_neg (by simp [hcore c List.mem_cons_self])
    rw [hkept, List.reverse_append, hend, List.reverse_reverse]

theorem exists_eq_append_trim (text : List Char) : ∃ before after, text = before ++ trim text ++ after ∧
    (∀ c ∈ before, isBlank c = true) ∧ ∀ c ∈ after, isBlank c = true := by
  refine ⟨text.takeWhile isBlank, ((trimStart text).reverse.takeWhile isBlank).reverse, ?_, ?_, ?_⟩
  · have hcut (text : List Char) : text.takeWhile isBlank ++ trimStart text = text := List.takeWhile_append_dropWhile
    have hend : trim text ++ ((trimStart text).reverse.takeWhile isBlank).reverse = trimStart text := by
      rw [trim, ← List.reverse_append, hcut, List.reverse_reverse]
    rw [List.append_assoc, hend, hcut]
  · exact fun c hc => List.mem_takeWhile_imp hc
  · exact fun c hc => List.mem_takeWhile_imp (List.mem_reverse.1 hc)

/-! ### Decimal numbers -/

/-- The digits are those of a number that has the value, with or without zeros in front. -/
structure IsDecimal (digits : List Char) (value : Nat) : Prop where
  ne_nil : digits ≠ []
  isDigit : ∀ c ∈ digits, c.isDigit = true
  value_eq : Nat.ofDigits 10 (digits.reverse.map fun c => c.toNat - '0'.toNat) = value

theorem isBlank_of_isDigit {c : Char} (h : c.isDigit = true) : isBlank c = false := by
  have hrange : 48 ≤ c.toNat ∧ c.toNat ≤ 57 := by
    rw [Char.isDigit, Bool.and_eq_true, decide_eq_true_eq, decide_eq_true_eq] at h
    exact ⟨UInt32.le_iff_toNat_le.1 h.1, UInt32.le_iff_toNat_le.1 h.2⟩
  simp only [isBlank, blankRanges, List.any_cons, List.any_nil, Bool.or_false, Bool.or_eq_false_iff,
    Bool.and_eq_false_iff, decide_eq_false_iff_not]
  omega

/-- Reading digits from the front comes to what they are worth by their places. -/
theorem ofDigitChars_eq (digits : List Char) (high : Nat) : Nat.ofDigitChars 10 digits high =
    Nat.ofDigits 10 (digits.reverse.map fun c => c.toNat - '0'.toNat) + 10 ^ digits.length * high := by
  induction digits generalizing high with
  | nil => simp [Nat.ofDigitChars]
  | cons c rest ih =>
    rw [Nat.ofDigitChars_cons, ih, List.reverse_cons, List.map_append, Nat.ofDigits_append, List.length_map,
      List.length_reverse, List.length_cons, List.map_singleton, Nat.ofDigits_singleton]
    ring

theorem decimalFrom_eq_some_iff {digits : List Char} {high value : Nat} : decimalFrom high digits = some value ↔
    (∀ c ∈ digits, c.isDigit = true) ∧ Nat.ofDigitChars 10 digits high = value := by
  induction digits generalizing high with
  | nil => simp [decimalFrom, Nat.ofDigitChars]
  | cons c rest ih =>
    rw [decimalFrom, Nat.ofDigitChars_cons, List.forall_mem_cons]
    split_ifs with hc
    · rw [ih]
      simp [hc]
    · simp [hc]

theorem decimal?_eq_some_iff {digits : List Char} {value : Nat} :
    decimal? digits = some value ↔ IsDecimal digits value := by
  have hvalue : Nat.ofDigitChars 10 digits 0 = Nat.ofDigits 10 (digits.reverse.map fun c => c.toNat - '0'.toNat) := by
    rw [ofDigitChars_eq, Nat.mul_zero, Nat.add_zero]
  cases digits with
  | nil =>
    constructor
    · intro h
      cases h
    · exact fun h => absurd rfl h.ne_nil
  | cons c rest =>
    rw [decimal?, decimalFrom_eq_some_iff, hvalue]
    · exact ⟨fun h => ⟨List.cons_ne_nil _ _, h.1, h.2⟩, fun h => ⟨h.isDigit, h.value_eq⟩⟩
    · simp

theorem isDecimal_toDigits (number : Nat) : IsDecimal (Nat.toDigits 10 number) number where
  ne_nil := Nat.toDigits_ne_nil
  isDigit _ hc := Nat.isDigit_of_mem_toDigits (by omega) (Nat.le_refl 10) hc
  value_eq := by
    have hread := ofDigitChars_eq (Nat.toDigits 10 number) 0
    rw [Nat.ofDigitChars_ten_toDigits] at hread
    simpa using hread.symm

theorem lineNumber?_eq_some_iff {text : List Char} {line : Nat} : lineNumber? text = some line ↔
    ∃ sign digits, text = sign ++ digits ∧ (sign = [] ∨ sign = ['+']) ∧ IsDecimal digits line ∧ line < 2 ^ 32 := by
  have hfilter (digits : List Char) : (decimal? digits).filter (· < UInt32.size) = some line ↔
      IsDecimal digits line ∧ line < 2 ^ 32 := by
    rw [Option.filter_eq_some_iff, decimal?_eq_some_iff, decide_eq_true_eq]
    rfl
  unfold lineNumber?
  dsimp only
  split
  · rename_i rest
    rw [hfilter]
    constructor
    · exact fun h => ⟨['+'], rest, rfl, .inr rfl, h⟩
    · rintro ⟨sign, digits, htext, rfl | rfl, hdecimal, hline⟩
      · -- a plus sign is no digit
        rw [List.nil_append] at htext
        exact absurd (hdecimal.isDigit '+' (htext ▸ List.mem_cons_self)) (by decide)
      · obtain rfl : rest = digits := by simpa using htext
        exact ⟨hdecimal, hline⟩
  · rename_i hplus
    rw [hfilter]
    constructor
    · exact fun h => ⟨[], text, rfl, .inl rfl, h⟩
    · rintro ⟨sign, digits, rfl, rfl | rfl, h⟩
      · exact h
      · exact absurd rfl (hplus digits)

/-! ### Locations -/

theorem toList_location (file : String) (line : Nat) :
    (location file line).toList = file.toList ++ ':' :: Nat.toDigits 10 line := by
  simp only [location, Nat.toString_eq_ofList_toDigits, String.toList_append, String.toList_ofList, List.append_assoc]
  rfl

theorem location_ne_empty (file : String) (line : Nat) : (location file line).isEmpty = false := by
  rw [String.isEmpty_eq_false_iff]
  intro hempty
  have hlist := toList_location file line
  rw [hempty] at hlist
  simp at hlist

/-- The location names the line: between blanks, with or without a plus sign, its number is all that stands after the last colon. That no colon comes after it goes without saying. -/
def NamesLine (location : String) (line : Nat) : Prop :=
  ∃ file before sign digits after : List Char,
    location.toList = file ++ ':' :: (before ++ (sign ++ digits) ++ after) ∧
    (∀ c ∈ before, isBlank c = true) ∧ (∀ c ∈ after, isBlank c = true) ∧ (sign = [] ∨ sign = ['+']) ∧
    IsDecimal digits line ∧ line < 2 ^ 32

theorem namesLine_iff {location : String} {line : Nat} : NamesLine location line ↔
    ((afterLast ':' location.toList).bind fun rest => lineNumber? (trim rest)) = some line := by
  rw [Option.bind_eq_some_iff]
  constructor
  · rintro ⟨file, before, sign, digits, after, hlocation, hbefore, hafter, hsign, hdecimal, hline⟩
    have hcore : ∀ c ∈ sign ++ digits, c = '+' ∨ c.isDigit = true := by
      intro c hc
      rcases List.mem_append.1 hc with hc | hc
      · rcases hsign with rfl | rfl
        · cases hc
        · exact .inl (List.mem_singleton.1 hc)
      · exact .inr (hdecimal.isDigit c hc)
    have hdense : ∀ c ∈ sign ++ digits, isBlank c = false := by
      intro c hc
      rcases hcore c hc with rfl | hdigit
      · decide
      · exact isBlank_of_isDigit hdigit
    have hcolon : ':' ∉ before ++ (sign ++ digits) ++ after := by
      intro hmem
      rcases List.mem_append.1 hmem with hmem | hmem
      · rcases List.mem_append.1 hmem with hmem | hmem
        · exact absurd (hbefore ':' hmem) (by decide)
        · exact absurd (hcore ':' hmem) (by decide)
      · exact absurd (hafter ':' hmem) (by decide)
    refine ⟨_, hlocation ▸ afterLast_append file hcolon, ?_⟩
    rw [trim_append hbefore hafter hdense]
    exact lineNumber?_eq_some_iff.2 ⟨sign, digits, rfl, hsign, hdecimal, hline⟩
  · rintro ⟨rest, hrest, hline⟩
    obtain ⟨file, hlocation⟩ := exists_of_afterLast hrest
    obtain ⟨before, after, htrim, hbefore, hafter⟩ := exists_eq_append_trim rest
    obtain ⟨sign, digits, hcore, hsign, hdecimal, hline⟩ := lineNumber?_eq_some_iff.1 hline
    exact ⟨file, before, sign, digits, after, by rw [hlocation, ← hcore, ← htrim], hbefore, hafter, hsign, hdecimal, hline⟩

theorem lineOfLocation_location (file : String) {line : Nat} (h : line < UInt32.size) :
    lineOfLocation (location file line) = line := by
  have hnames : NamesLine (location file line) line :=
    ⟨file.toList, [], [], Nat.toDigits 10 line, [], by simp [toList_location], by simp, by simp, .inl rfl,
      isDecimal_toDigits line, h⟩
  rw [lineOfLocation, namesLine_iff.1 hnames, Option.getD_some]

/-- The line that a location names is read from it, and the first line from a location that names none. The number of a line that is written behind a colon is read back, whatever comes before the colon. -/
theorem lineOfLocation_eq_iff :
    (∀ location line, lineOfLocation location = line ↔
      NamesLine location line ∨ line = 1 ∧ ∀ other, ¬NamesLine location other) ∧
    ∀ (file : String) (number : Nat), number < 2 ^ 32 → lineOfLocation (file ++ ":" ++ toString number) = number := by
  refine ⟨fun location line => ?_, fun file number hnumber => lineOfLocation_location file hnumber⟩
  simp only [namesLine_iff]
  unfold lineOfLocation
  cases (afterLast ':' location.toList).bind fun rest => lineNumber? (trim rest) with
  | none => simp [eq_comm]
  | some named => simp

/-- A sign, zeros in front and blanks of several kinds, behind a name with a colon, and a number that no longer fits. -/
theorem lineOfLocation_eq_iff_signed :
    lineOfLocation "C:/net.ned:\u2003+007\t" = 7 ∧ lineOfLocation "net.ned:4294967296" = 1 ∧
      lineOfLocation ("C:/net.ned" ++ ":" ++ toString 4294967295) = 4294967295 ∧
      NamesLine "C:/net.ned:\u2003+007\t" 7 ∧ ∀ line, ¬NamesLine "net.ned:4294967296" line := by
  obtain ⟨hread, hback⟩ := lineOfLocation_eq_iff
  have hsigned : lineOfLocation "C:/net.ned:\u2003+007\t" = 7 := by decide +kernel
  have hlarge : lineOfLocation "net.ned:4294967296" = 1 := by decide +kernel
  refine ⟨hsigned, hlarge, hback _ _ (by decide), ?_, ?_⟩
  · exact ((hread _ 7).1 hsigned).resolve_right fun hnone => absurd hnone.1 (by decide)
  · rcases (hread _ 1).1 hlarge with hnamed | ⟨-, hnone⟩
    · rw [namesLine_iff] at hnamed
      have hunread : ((afterLast ':' "net.ned:4294967296".toList).bind fun rest => lineNumber? (trim rest)) = none := by
        decide +kernel
      rw [hunread] at hnamed
      cases hnamed
    · exact hnone

end Text

end NedCheck
