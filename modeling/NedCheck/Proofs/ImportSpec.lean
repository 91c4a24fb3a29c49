import Mathlib.Data.List.DropRight
import Mathlib.Data.List.Forall2
import NedCheck.ImportSpec
import NedCheck.Proofs.Text.Regex

/-!
# What import specifications match

A specification has one `Cut` into tokens, and it stands for the names that the cut `Splits` into pieces, whichever pieces they are. Both ways of matching find that out: the rows hold for each suffix of the name whether the tokens from some point on split it, and in an expression with both anchors the items have to match one after another from the start of the name to its end.
-/

namespace NedCheck

namespace ImportSpec

variable {spec name : List Char} {cut : List Token}

/-! ### Cuts -/

/-- The specification is cut from left to right: into two stars that come together, a star that no other star follows, and the characters before the next star. -/
inductive Cut : List Char → List Token → Prop where
  | nil : Cut [] []
  | across {rest : List Char} {tokens : List Token} : Cut rest tokens → Cut ('*' :: '*' :: rest) (.across :: tokens)
  | within {rest : List Char} {tokens : List Token} : rest.head? ≠ some '*' → Cut rest tokens →
    Cut ('*' :: rest) (.within :: tokens)
  | literal {text rest : List Char} {tokens : List Token} : text ≠ [] → '*' ∉ text →
    (rest = [] ∨ rest.head? = some '*') → Cut rest tokens → Cut (text ++ rest) (.literal text :: tokens)

theorem Cut.head? (h : Cut spec cut) (hcut : ∀ text others, cut ≠ .literal text :: others) :
    spec = [] ∨ spec.head? = some '*' := by
  cases h with
  | nil => exact .inl rfl
  | across => exact .inr rfl
  | within => exact .inr rfl
  | literal => exact absurd rfl (hcut _ _)

theorem cut_tokens (spec : List Char) : Cut spec (tokens spec) := by
  fun_induction tokens spec with
  | case1 => exact .nil
  | case2 rest ih => exact .across ih
  | case3 rest hnext ih =>
    refine .within ?_ ih
    cases rest with
    | nil => simp
    | cons c rest => simpa using fun hstar => hnext rest (by rw [hstar])
  | case4 c rest _ hstar text others htokens ih =>
    -- the run goes on into the literal that follows
    rw [htokens] at ih
    cases ih with
    | literal _ hnot hrest htail =>
      have hrun : '*' ∉ c :: text := by simpa [hnot] using Ne.symm hstar
      exact .literal (List.cons_ne_nil c text) hrun hrest htail
  | case5 c rest _ hstar hothers ih =>
    have hrun : '*' ∉ [c] := by simpa using Ne.symm hstar
    exact .literal (List.cons_ne_nil c []) hrun (ih.head? hothers) ih

theorem tokens_append {text rest : List Char} (hne : text ≠ []) (hnot : '*' ∉ text)
    (hrest : rest = [] ∨ rest.head? = some '*') : tokens (text ++ rest) = .literal text :: tokens rest := by
  have hothers : ∀ text others, tokens rest ≠ .literal text :: others := by
    intro text others htokens
    have hcut := cut_tokens rest
    rw [htokens] at hcut
    cases hcut with
    | @literal _ tail _ hne hnot =>
      obtain ⟨c, text, rfl⟩ := List.exists_cons_of_ne_nil hne
      simp [Ne.symm (List.ne_of_not_mem_cons hnot)] at hrest
  induction text with
  | nil => exact absurd rfl hne
  | cons c text ih =>
    have hc : c ≠ '*' := Ne.symm (List.ne_of_not_mem_cons hnot)
    rw [List.cons_append, tokens.eq_4 _ _ (fun _ h _ => hc h) hc]
    cases text with
    | nil =>
      rw [List.nil_append]
      split
      · exact absurd ‹_› (hothers _ _)
      · rfl
    | cons next text => rw [ih (by simp) (List.not_mem_of_not_mem_cons hnot)]

/-- Nothing can be cut in two ways. -/
theorem Cut.eq_tokens (h : Cut spec cut) : cut = tokens spec := by
  induction h with
  | nil => rfl
  | across _ ih => rw [tokens, ih]
  | @within rest tail hnext _ ih =>
    rw [tokens.eq_3 _ fun next heq => hnext (by rw [heq]; rfl), ih]
  | literal hne hnot hrest _ ih => rw [tokens_append hne hnot hrest, ih]

/-! ### Splitting names -/

/-- The texts that a token stands for. -/
def Token.StandsFor : Token → List Char → Prop
  | .across, piece => '\n' ∉ piece
  | .within, piece => '.' ∉ piece
  | .literal text, piece => piece = text

/-- The name is made of pieces that the tokens stand for, one for each. -/
def Splits (cut : List Token) (name : List Char) : Prop :=
  ∃ pieces : List (List Char), name = pieces.flatten ∧ List.Forall₂ Token.StandsFor cut pieces

theorem splits_nil_iff : Splits [] name ↔ name = [] := by
  constructor
  · rintro ⟨pieces, rfl, hpieces⟩
    cases hpieces
    rfl
  · rintro rfl
    exact ⟨[], rfl, .nil⟩

theorem splits_cons_iff {token : Token} : Splits (token :: cut) name ↔
    ∃ piece rest, name = piece ++ rest ∧ token.StandsFor piece ∧ Splits cut rest := by
  constructor
  · rintro ⟨pieces, rfl, hpieces⟩
    cases hpieces with
    | cons hpiece hrest => exact ⟨_, _, List.flatten_cons, hpiece, _, rfl, hrest⟩
  · rintro ⟨piece, _, rfl, hpiece, pieces, rfl, hpieces⟩
    exact ⟨piece :: pieces, List.flatten_cons.symm, .cons hpiece hpieces⟩

/-! ### Rows -/

/-- The row holds of each suffix of the name whether it has the property. -/
inductive Tells (P : List Char → Prop) : List Char → List Bool → Prop where
  | nil {value : Bool} : (value = true ↔ P []) → Tells P [] [value]
  | cons {c : Char} {name : List Char} {value : Bool} {row : List Bool} : (value = true ↔ P (c :: name)) →
    Tells P name row → Tells P (c :: name) (value :: row)

variable {P Q : List Char → Prop} {values : List Bool}

theorem Tells.headD_iff (h : Tells P name values) : values.headD false = true ↔ P name := by
  cases h with
  | nil hvalue => exact hvalue
  | cons hvalue => exact hvalue

theorem Tells.congr (h : Tells P name values) (hiff : ∀ suffix, P suffix ↔ Q suffix) : Tells Q name values := by
  induction h with
  | nil hvalue => exact .nil (hvalue.trans (hiff _))
  | cons hvalue _ ih => exact .cons (hvalue.trans (hiff _)) ih

theorem tells_endRow (name : List Char) : Tells (· = []) name (endRow name) := by
  induction name with
  | nil => exact .nil (by simp)
  | cons c name ih => exact .cons (by simp) ih

theorem Tells.charRow (h : Tells P name values) (wanted : Char) :
    Tells (fun suffix => ∃ rest, suffix = wanted :: rest ∧ P rest) name (charRow wanted name values) := by
  induction h with
  | nil => exact .nil (by simp)
  | @cons c name value row _ hrow ih =>
    refine .cons ?_ ih
    simp only [Bool.and_eq_true, decide_eq_true_eq, hrow.headD_iff, List.cons.injEq]
    constructor
    · rintro ⟨rfl, hrest⟩
      exact ⟨name, ⟨rfl, rfl⟩, hrest⟩
    · rintro ⟨_, ⟨rfl, rfl⟩, hrest⟩
      exact ⟨rfl, hrest⟩

theorem Tells.starRow (h : Tells P name values) (allowed : Char → Bool) :
    Tells (fun suffix => ∃ piece rest, suffix = piece ++ rest ∧ (∀ c ∈ piece, allowed c = true) ∧ P rest) name
      (starRow allowed name values) := by
  induction h with
  | nil hvalue =>
    refine .nil (hvalue.trans ⟨fun hrest => ⟨[], [], rfl, by simp, hrest⟩, ?_⟩)
    rintro ⟨piece, rest, heq, -, hrest⟩
    obtain ⟨rfl, rfl⟩ := List.append_eq_nil_iff.1 heq.symm
    exact hrest
  | @cons c name value row hvalue _ ih =>
    refine .cons ?_ ih
    simp only [Bool.or_eq_true, Bool.and_eq_true, hvalue, ih.headD_iff]
    constructor
    · rintro (hrest | ⟨hc, piece, rest, rfl, hpiece, hrest⟩)
      · exact ⟨[], _, rfl, by simp, hrest⟩
      · exact ⟨c :: piece, rest, rfl, by simpa [hc] using hpiece, hrest⟩
    · rintro ⟨piece, rest, heq, hpiece, hrest⟩
      cases piece with
      | nil => exact .inl (heq ▸ hrest)
      | cons first piece =>
        obtain ⟨rfl, rfl⟩ := List.cons.inj heq
        exact .inr ⟨hpiece _ List.mem_cons_self, piece, rest, rfl,
          fun c hc => hpiece c (List.mem_cons_of_mem _ hc), hrest⟩

theorem Tells.tokenRow (h : Tells P name values) (token : Token) :
    Tells (fun suffix => ∃ piece rest, suffix = piece ++ rest ∧ token.StandsFor piece ∧ P rest) name
      (token.row name values) := by
  cases token with
  | across => exact (h.starRow _).congr fun suffix => by simp [Token.StandsFor, List.forall_mem_ne']
  | within => exact (h.starRow _).congr fun suffix => by simp [Token.StandsFor, List.forall_mem_ne']
  | literal text =>
    suffices hrow : Tells (fun suffix => ∃ rest, suffix = text ++ rest ∧ P rest) name
        (text.foldr (fun c row => ImportSpec.charRow c name row) values) from
      hrow.congr fun suffix => by simp [Token.StandsFor]
    induction text with
    | nil => exact h.congr fun suffix => by simp
    | cons c text ih =>
      refine (ih.charRow c).congr fun suffix => ⟨?_, ?_⟩
      · rintro ⟨_, rfl, rest, rfl, hrest⟩
        exact ⟨rest, rfl, hrest⟩
      · rintro ⟨rest, rfl, hrest⟩
        exact ⟨_, rfl, rest, rfl, hrest⟩

theorem tells_row (cut : List Token) (name : List Char) : Tells (Splits cut) name (row name cut) := by
  induction cut with
  | nil => exact (tells_endRow name).congr fun suffix => splits_nil_iff.symm
  | cons token cut ih => exact (ih.tokenRow token).congr fun suffix => splits_cons_iff.symm

/-! ### Explicit specifications -/

theorem splits_tokens_of_notMem (hspec : '*' ∉ spec) : Splits (tokens spec) name ↔ name = spec := by
  by_cases hne : spec = []
  · rw [hne]
    exact splits_nil_iff
  · have htokens : tokens spec = [.literal spec] := by
      have hcut : Cut (spec ++ []) [.literal spec] := .literal hne hspec (.inl rfl) .nil
      rw [hcut.eq_tokens, List.append_nil]
    rw [htokens, splits_cons_iff]
    constructor
    · rintro ⟨piece, rest, rfl, rfl, hrest⟩
      rw [splits_nil_iff.1 hrest, List.append_nil]
    · rintro rfl
      exact ⟨_, [], (List.append_nil _).symm, rfl, splits_nil_iff.2 rfl⟩

/-! ### Expressions -/

theorem Token.matches_item_iff {token : Token} {before piece after : List Char} :
    token.item.Matches before piece after ↔ token.StandsFor piece := by
  constructor
  · intro h
    cases token <;> cases h
    · rename_i hpiece
      exact List.forall_mem_ne'.1 fun c hc => of_decide_eq_true (hpiece c hc)
    · rename_i hpiece
      exact List.forall_mem_ne'.1 fun c hc => of_decide_eq_true (hpiece c hc)
    · exact String.toList_ofList
  · intro h
    cases token with
    | across => exact .many fun c hc => decide_eq_true (List.forall_mem_ne'.2 h c hc)
    | within => exact .many fun c hc => decide_eq_true (List.forall_mem_ne'.2 h c hc)
    | literal text =>
      obtain rfl : piece = text := h
      have hmatches : (Regex.Item.literal (String.ofList piece)).Matches before (String.ofList piece).toList after :=
        .literal
      rwa [String.toList_ofList] at hmatches

/-- In front of the anchor at the end, the items of a cut match just what the cut splits, up to the end. -/
theorem matches_items_iff {before piece after : List Char} :
    Regex.Matches (cut.map Token.item ++ [.finish]) before piece after ↔ Splits cut piece ∧ after = [] := by
  induction cut generalizing before piece with
  | nil =>
    constructor
    · rintro (_ | ⟨hitem, ⟨⟩⟩)
      cases hitem
      exact ⟨splits_nil_iff.2 rfl, rfl⟩
    · rintro ⟨hpiece, rfl⟩
      obtain rfl := splits_nil_iff.1 hpiece
      have hend : Regex.Item.finish.Matches before [] [] := .finish
      exact .cons hend .nil
  | cons token cut ih =>
    rw [splits_cons_iff]
    constructor
    · rintro (_ | ⟨hitem, hrest⟩)
      obtain ⟨hsplits, rfl⟩ := ih.1 hrest
      exact ⟨⟨_, _, rfl, Token.matches_item_iff.1 hitem, hsplits⟩, rfl⟩
    · rintro ⟨⟨piece, rest, rfl, hpiece, hsplits⟩, rfl⟩
      exact .cons (Token.matches_item_iff.2 hpiece) (ih.2 ⟨hsplits, rfl⟩)

end ImportSpec

open ImportSpec

/-- What follows the last dot of a specification, all of it if there is none. -/
def lastSegment (spec : String) : String := String.ofList (spec.toList.rtakeWhile (· ≠ '.'))

theorem importsName_iff {spec name : String} (hname : '.' ∉ name.toList) :
    importsName spec name = true ↔ lastSegment spec = name := by
  have hletters : ∀ c ∈ name.toList.reverse, decide (c ≠ '.') = true := by
    simpa using fun c hc => ne_of_mem_of_not_mem hc hname
  have hsegment : lastSegment spec = name ↔ spec.toList.rtakeWhile (· ≠ '.') = name.toList := by
    rw [lastSegment, ← String.toList_inj, String.toList_ofList]
  rw [hsegment, importsName, Bool.or_eq_true, decide_eq_true_eq, List.isSuffixOf_iff_suffix, String.toList_append]
  constructor
  · rintro (rfl | ⟨before, hspec⟩)
    · exact List.rtakeWhile_eq_self_iff.2 fun c hc => hletters c (List.mem_reverse.2 hc)
    · have hreverse : spec.toList.reverse = name.toList.reverse ++ '.' :: before.reverse := by
        rw [← hspec]
        simp
      rw [List.rtakeWhile, hreverse, List.takeWhile_append_of_pos hletters, List.takeWhile_cons_of_neg (by simp),
        List.append_nil, List.reverse_reverse]
  · intro hlast
    have hcut : spec.toList.rdropWhile (· ≠ '.') ++ name.toList = spec.toList := by
      rw [← hlast]
      exact List.rdropWhile_append_rtakeWhile
    by_cases hnone : spec.toList.rdropWhile (· ≠ '.') = []
    · rw [hnone, List.nil_append] at hcut
      exact .inl (String.toList_inj.1 hcut.symm)
    · have hdot : (spec.toList.rdropWhile (· ≠ '.')).getLast hnone = '.' := by
        simpa using List.rdropWhile_last_not (· ≠ '.') spec.toList hnone
      have hbefore := List.dropLast_append_getLast hnone
      rw [hdot] at hbefore
      refine .inr ⟨(spec.toList.rdropWhile (· ≠ '.')).dropLast, ?_⟩
      rw [← List.append_assoc, show ".".toList = ['.'] from rfl, hbefore, hcut]

theorem splits_iff_of_explicit {spec name : String} (hexplicit : isWildcardImport spec = false) :
    Splits (tokens spec.toList) name.toList ↔ name = spec := by
  have hspec : '*' ∉ spec.toList := by simpa [isWildcardImport] using hexplicit
  rw [splits_tokens_of_notMem hspec, String.toList_inj]

theorem importMatches_iff {spec name : String} :
    importMatches spec name = true ↔ Splits (tokens spec.toList) name.toList :=
  (tells_row _ _).headD_iff

theorem finds_importPattern_iff {engine : Regex.Engine} (hengine : engine.Documented) {spec name : String}
    {finds : String → Bool} (hfinds : engine.compile? (importPattern engine spec) = some finds) :
    finds name = true ↔ Splits (tokens spec.toList) name.toList := by
  rw [hengine.finds_iff hfinds]
  constructor
  · rintro ⟨before, piece, after, hname, hmatches⟩
    rcases hmatches with _ | ⟨⟨⟩, hrest⟩
    obtain ⟨hsplits, rfl⟩ := matches_items_iff.1 hrest
    rw [hname]
    simpa using hsplits
  · intro hsplits
    have hstart : Regex.Item.start.Matches [] [] (name.toList ++ []) := .start
    exact ⟨[], name.toList, [], by simp, .cons hstart (matches_items_iff.2 ⟨hsplits, rfl⟩)⟩

/-- There is one way to cut a specification from left to right into double stars, stars and the texts between them. What an engine makes of its pattern finds a name if and only if the whole name is made of pieces for the tokens, in their order: each text stands for itself, a star for any text without dots, and a double star for any text without line feeds. The rows of suffixes come to the same result. A specification without stars finds itself only. -/
theorem finds_importPattern {engine : Regex.Engine} (hengine : engine.Documented) (spec : String) :
    ∃ cut, Cut spec.toList cut ∧ (∀ other, Cut spec.toList other → other = cut) ∧
      (∀ finds, engine.compile? (importPattern engine spec) = some finds →
        ∀ name, finds name = true ↔ Splits cut name.toList) ∧
      (∀ name, importMatches spec name = true ↔ Splits cut name.toList) ∧
      (isWildcardImport spec = false → ∀ name : String, Splits cut name.toList ↔ name = spec) := by
  exact ⟨tokens spec.toList, cut_tokens _, fun other hother => hother.eq_tokens,
    fun finds hfinds name => finds_importPattern_iff hengine hfinds, fun name => importMatches_iff,
    fun hexplicit name => splits_iff_of_explicit hexplicit⟩

/-- The plain engine on a specification with both kinds of stars: the first name has a segment for the double star, the second one has none. -/
theorem finds_importPattern_hosts :
    importPattern Regex.plain "inet.**.*Host" = "^inet\\..*\\.[^.]*Host$" ∧
      ∃ finds, Regex.plain.compile? (importPattern Regex.plain "inet.**.*Host") = some finds ∧
        finds "inet.node.lan.StandardHost" = true ∧ finds "inet.Host" = false := by
  refine ⟨by decide +kernel, ?_⟩
  obtain ⟨finds, hfinds⟩ := Option.isSome_iff_exists.1
    (show (Regex.plain.compile? (importPattern Regex.plain "inet.**.*Host")).isSome = true by decide +kernel)
  obtain ⟨cut, -, -, hfound, hmatches, -⟩ := finds_importPattern Regex.plain_documented "inet.**.*Host"
  have hsame (name : String) : finds name = importMatches "inet.**.*Host" name :=
    Bool.eq_iff_iff.2 ((hfound finds hfinds name).trans (hmatches name).symm)
  exact ⟨finds, hfinds, (hsame _).trans (by decide +kernel), (hsame _).trans (by decide +kernel)⟩

end NedCheck
