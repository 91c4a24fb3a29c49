import Mathlib.Data.List.Basic
import NedCheck.Text.Markup

/-!
# Reading markup

The text of a markup tree can be read in one way only. Everything in it ends in front of a character that it cannot hold itself: a name in front of the first character that is in no name, a value in front of the first quote, since its own quotes are escaped, a row of attributes where no blank follows, and a row of children where the indentation gets less. So what is read can be told from what follows it, piece by piece, whatever it is that follows. `text_append_inj` says so of a tree with its indentation.

Escapes stand in values only, and values are what stands between quotes. `unescapeValues` undoes them there, and what it makes of the text is the same layout with the values as they are. No value gets shorter by being escaped, so the two texts differ as soon as one value does.
-/

namespace NedCheck

/-! ### Rows of pieces -/

section Pieces

variable {α β : Type}

/-- What holds no stop can be told from what begins with one. -/
theorem append_inj_of_stops (stops : Char → Bool) {left right restLeft restRight : List Char} {stopLeft stopRight : Char}
    (hleft : ∀ c ∈ left, stops c = false) (hright : ∀ c ∈ right, stops c = false)
    (hstopLeft : stops stopLeft = true) (hstopRight : stops stopRight = true)
    (h : left ++ stopLeft :: restLeft = right ++ stopRight :: restRight) :
    left = right ∧ stopLeft :: restLeft = stopRight :: restRight := by
  induction left generalizing right with
  | nil =>
    cases right with
    | nil => exact ⟨rfl, h⟩
    | cons c right =>
      obtain ⟨rfl, -⟩ := List.cons.inj h
      rw [hright _ List.mem_cons_self] at hstopLeft
      cases hstopLeft
  | cons c left ih =>
    cases right with
    | nil =>
      obtain ⟨rfl, -⟩ := List.cons.inj h
      rw [hleft _ List.mem_cons_self] at hstopRight
      cases hstopRight
    | cons d right =>
      obtain ⟨rfl, hbehind⟩ := List.cons.inj h
      obtain ⟨rfl, hrest⟩ := ih (fun c hc => hleft c (List.mem_cons_of_mem _ hc))
        (fun c hc => hright c (List.mem_cons_of_mem _ hc)) hbehind
      exact ⟨rfl, hrest⟩

/-- Items that can each be told from what follows can be told so in a row, if no item begins what follows the row. -/
theorem flatMap_append_inj {code : α → List β} {left right : List α} {restLeft restRight : List β}
    (hinj : ∀ x ∈ left, ∀ y ∈ right, ∀ s t, code x ++ s = code y ++ t → x = y ∧ s = t)
    (hstopLeft : ∀ y ∈ right, ∀ t, restLeft ≠ code y ++ t) (hstopRight : ∀ x ∈ left, ∀ s, restRight ≠ code x ++ s)
    (h : left.flatMap code ++ restLeft = right.flatMap code ++ restRight) : left = right ∧ restLeft = restRight := by
  induction left generalizing right with
  | nil =>
    cases right with
    | nil => exact ⟨rfl, h⟩
    | cons y right =>
      rw [List.flatMap_cons, List.append_assoc] at h
      exact absurd h (hstopLeft y List.mem_cons_self _)
  | cons x left ih =>
    cases right with
    | nil =>
      rw [List.flatMap_cons, List.append_assoc] at h
      exact absurd h.symm (hstopRight x List.mem_cons_self _)
    | cons y right =>
      rw [List.flatMap_cons, List.flatMap_cons, List.append_assoc, List.append_assoc] at h
      obtain ⟨rfl, hbehind⟩ := hinj x List.mem_cons_self y List.mem_cons_self _ _ h
      obtain ⟨rfl, hrest⟩ := ih
        (fun x hx y hy => hinj x (List.mem_cons_of_mem _ hx) y (List.mem_cons_of_mem _ hy))
        (fun y hy => hstopLeft y (List.mem_cons_of_mem _ hy))
        (fun x hx => hstopRight x (List.mem_cons_of_mem _ hx)) hbehind
      exact ⟨rfl, hrest⟩

theorem length_flatMap_le {f g : α → List β} {xs : List α} (h : ∀ x ∈ xs, (f x).length ≤ (g x).length) :
    (xs.flatMap f).length ≤ (xs.flatMap g).length ∧
      ((xs.flatMap f).length = (xs.flatMap g).length → ∀ x ∈ xs, (f x).length = (g x).length) := by
  induction xs with
  | nil => exact ⟨Nat.le_refl _, fun _ x hx => absurd hx List.not_mem_nil⟩
  | cons x rest ih =>
    obtain ⟨hx, hrest⟩ := List.forall_mem_cons.1 h
    obtain ⟨hle, heq⟩ := ih hrest
    rw [List.flatMap_cons, List.flatMap_cons, List.length_append, List.length_append]
    refine ⟨by omega, fun hlength => List.forall_mem_cons.2 ⟨by omega, heq (by omega)⟩⟩

end Pieces

namespace Markup

/-! ### The text of a tree -/

/-- A property of the rows of a tree, of its own row and of those below. -/
inductive Everywhere (P : Markup → Prop) : Markup → Prop where
  | node {tree : Markup} : P tree → (∀ child ∈ tree.children, Everywhere P child) → Everywhere P tree

/-- The text of a tree whose rows are indented. -/
def text (write : String → String) (indent : String) (tree : Markup) : List Char :=
  (String.join (tree.rows write indent)).toList

def attributeText (write : String → String) (pair : String × String) : List Char :=
  ' ' :: (pair.1.toList ++ '=' :: '"' :: ((write pair.2).toList ++ ['"']))

/-- What follows the attributes of an element: its end, or its children and the row that closes it. -/
def ending (write : String → String) (indent name : String) (children : List Markup) : List Char :=
  if children.isEmpty then ['/', '>', '\n']
  else '>' :: '\n' :: (children.flatMap (text write (indent ++ "  ")) ++
    (indent.toList ++ '<' :: '/' :: (name.toList ++ ['>', '\n'])))

variable {write : String → String} {indent name : String} {attributes : List (String × String)}
  {children : List Markup} {left right tree : Markup}

theorem toList_opening : (opening write name attributes).toList =
    '<' :: (name.toList ++ attributes.flatMap (attributeText write)) := by
  rw [opening, String.toList_append, String.toList_append, String.toList_join, List.flatMap_map]
  have hattribute : ∀ pair ∈ attributes, (" " ++ pair.1 ++ "=\"" ++ write pair.2 ++ "\"").toList =
      attributeText write pair := fun pair _ => by simp [attributeText, String.toList_append]
  exact congrArg (fun text => '<' :: (name.toList ++ text)) (List.flatMap_congr hattribute)

theorem text_eq : text write indent tree = indent.toList ++ '<' :: (tree.name.toList ++
    (tree.attributes.flatMap (attributeText write) ++ ending write indent tree.name tree.children)) := by
  obtain ⟨name, attributes, _ | ⟨child, others⟩⟩ := tree
  · rw [text, rows, ending, String.toList_join]
    simp [String.toList_append, toList_opening]
  · have hrows (trees : List Markup) : (rowsAll write (indent ++ "  ") trees).flatMap String.toList =
        trees.flatMap (text write (indent ++ "  ")) := by
      rw [rowsAll_eq_flatMap, List.flatMap_assoc]
      exact List.flatMap_congr fun tree _ => String.toList_join.symm
    have hchild := hrows [child]
    rw [rowsAll, rowsAll, List.append_nil, List.flatMap_singleton] at hchild
    rw [text, rows, ending, String.toList_join]
    simp [String.toList_append, toList_opening, hrows, hchild]

theorem render_eq_iff_text_eq {other : String → String} :
    left.render write = right.render other ↔ text write "" left = text other "" right :=
  String.toList_inj.symm

/-! ### Names and values -/

/-- Names are made of small letters and hyphens. -/
def isNameChar (c : Char) : Bool := c.isLower || c = '-'

def IsName (name : String) : Prop := name.toList.all isNameChar = true

instance (name : String) : Decidable (IsName name) := inferInstanceAs (Decidable (_ = true))

/-- All names in the tree are names of the language. -/
def Named (tree : Markup) : Prop :=
  tree.Everywhere fun row => IsName row.name ∧ ∀ pair ∈ row.attributes, IsName pair.1

theorem IsName.isNameChar {c : Char} (h : IsName name) (hc : c ∈ name.toList) : isNameChar c = true :=
  List.all_eq_true.1 h c hc

theorem IsName.notMem {c : Char} (h : IsName name) (hc : Markup.isNameChar c = false) : c ∉ name.toList := by
  intro hmem
  rw [h.isNameChar hmem] at hc
  cases hc

theorem IsName.append_inj {other : String} (h : IsName name) (hother : IsName other) {restLeft restRight : List Char}
    {stopLeft stopRight : Char} (hstopLeft : Markup.isNameChar stopLeft = false)
    (hstopRight : Markup.isNameChar stopRight = false)
    (heq : name.toList ++ stopLeft :: restLeft = other.toList ++ stopRight :: restRight) :
    name = other ∧ stopLeft :: restLeft = stopRight :: restRight := by
  obtain ⟨hname, hrest⟩ := append_inj_of_stops (fun c => !Markup.isNameChar c)
    (fun c hc => by rw [h.isNameChar hc]; rfl) (fun c hc => by rw [hother.isNameChar hc]; rfl)
    (by rw [hstopLeft]; rfl) (by rw [hstopRight]; rfl) heq
  exact ⟨String.toList_inj.1 hname, hrest⟩

/-- The text with the entities in its quoted parts undone, from the left to the right; `quoted` says whether it begins in one. -/
def unescapeFrom : (quoted : Bool) → List Char → List Char
  | _, [] => []
  | false, c :: rest => c :: unescapeFrom (c = '"') rest
  | true, '&' :: 'q' :: 'u' :: 'o' :: 't' :: ';' :: rest => '"' :: unescapeFrom true rest
  | true, '&' :: 'l' :: 't' :: ';' :: rest => '<' :: unescapeFrom true rest
  | true, '&' :: 'a' :: 'm' :: 'p' :: ';' :: rest => '&' :: unescapeFrom true rest
  | true, c :: rest => c :: unescapeFrom (c ≠ '"') rest

/-- The markup with the entities in its values undone. -/
def unescapeValues (markup : String) : String := String.ofList (unescapeFrom false markup.toList)

theorem unescapeFrom_escapeChar (c : Char) (rest : List Char) :
    unescapeFrom true (escapeChar c ++ rest) = c :: unescapeFrom true rest := by
  unfold escapeChar
  split_ifs with hquote hless hand
  · rw [hquote]
    rfl
  · rw [hless]
    rfl
  · rw [hand]
    rfl
  · rw [List.singleton_append, unescapeFrom.eq_6]
    · simp [hquote]
    · exact fun _ heq _ => hand heq
    · exact fun _ heq _ => hand heq
    · exact fun _ heq _ => hand heq

theorem unescapeFrom_escape (value : String) (rest : List Char) :
    unescapeFrom true ((escape value).toList ++ '"' :: rest) = value.toList ++ '"' :: unescapeFrom false rest := by
  rw [escape, String.toList_ofList]
  induction value.toList with
  | nil => rfl
  | cons c value ih => rw [List.flatMap_cons, List.append_assoc, unescapeFrom_escapeChar, ih, List.cons_append]

theorem quote_notMem_escape (value : String) : '"' ∉ (escape value).toList := by
  rw [escape, String.toList_ofList, List.mem_flatMap]
  rintro ⟨c, -, hc⟩
  unfold escapeChar at hc
  split_ifs at hc with hquote hless hand
  · exact absurd hc (by decide)
  · exact absurd hc (by decide)
  · exact absurd hc (by decide)
  · exact hquote (List.mem_singleton.1 hc).symm

theorem escape_append_inj {value other : String} {restLeft restRight : List Char}
    (h : (escape value).toList ++ '"' :: restLeft = (escape other).toList ++ '"' :: restRight) :
    value = other ∧ restLeft = restRight := by
  obtain ⟨hescape, hrest⟩ := append_inj_of_stops (fun c => c = '"')
    (fun c hc => decide_eq_false fun heq => quote_notMem_escape value (heq ▸ hc))
    (fun c hc => decide_eq_false fun heq => quote_notMem_escape other (heq ▸ hc)) rfl rfl h
  have hvalue := unescapeFrom_escape value []
  rw [hescape, unescapeFrom_escape] at hvalue
  exact ⟨String.toList_inj.1 (List.append_cancel_right hvalue).symm, (List.cons.inj hrest).2⟩

/-! ### One way to read -/

theorem attributeText_append_inj {left right : String × String} (hleft : IsName left.1) (hright : IsName right.1)
    {restLeft restRight : List Char}
    (h : attributeText escape left ++ restLeft = attributeText escape right ++ restRight) :
    left = right ∧ restLeft = restRight := by
  simp only [attributeText, List.cons_append, List.append_assoc, List.nil_append, List.cons.injEq, true_and] at h
  obtain ⟨hkey, hvalue⟩ := hleft.append_inj hright rfl rfl h
  simp only [List.cons.injEq, true_and] at hvalue
  obtain ⟨hvalue, hrest⟩ := escape_append_inj hvalue
  exact ⟨Prod.ext hkey hvalue, hrest⟩

theorem exists_ending_eq_cons (write : String → String) (indent name : String) (children : List Markup) :
    ∃ stop rest, ending write indent name children = stop :: rest ∧ isNameChar stop = false ∧ stop ≠ ' ' := by
  unfold ending
  split_ifs
  · exact ⟨_, _, rfl, rfl, by decide⟩
  · exact ⟨_, _, rfl, rfl, by decide⟩

theorem exists_afterName_eq_cons (write : String → String) (indent name : String) (attributes : List (String × String))
    (children : List Markup) (rest : List Char) :
    ∃ stop behind, attributes.flatMap (attributeText write) ++ (ending write indent name children ++ rest) =
      stop :: behind ∧ isNameChar stop = false := by
  cases attributes with
  | nil =>
    obtain ⟨stop, behind, hending, hstop, -⟩ := exists_ending_eq_cons write indent name children
    exact ⟨stop, behind ++ rest, by rw [hending]; rfl, hstop⟩
  | cons pair attributes => exact ⟨' ', _, rfl, rfl⟩

theorem ending_append_ne (write : String → String) (indent name : String) (children : List Markup)
    (pair : String × String) (rest behind : List Char) :
    ending write indent name children ++ rest ≠ attributeText write pair ++ behind := by
  obtain ⟨stop, _, hending, -, hstop⟩ := exists_ending_eq_cons write indent name children
  rw [hending]
  exact fun heq => hstop (List.cons.inj heq).1

/-- The row that closes an element is no row of a child, which is indented by more. -/
theorem closing_ne_text (write : String → String) (indent : String) (child : Markup) (rest behind : List Char) :
    indent.toList ++ '<' :: rest ≠ text write (indent ++ "  ") child ++ behind := by
  rw [text_eq, String.toList_append, List.append_assoc, List.append_assoc]
  intro heq
  exact absurd (List.cons.inj (List.append_cancel_left heq)).1 (by decide)

theorem ending_append_inj {others : List Markup} {restLeft restRight : List Char}
    (hinj : ∀ x ∈ children, ∀ y ∈ others, ∀ s t,
      text escape (indent ++ "  ") x ++ s = text escape (indent ++ "  ") y ++ t → x = y ∧ s = t)
    (h : ending escape indent name children ++ restLeft = ending escape indent name others ++ restRight) :
    children = others ∧ restLeft = restRight := by
  unfold ending at h
  split_ifs at h with hleft hright hright
  · rw [List.isEmpty_iff.1 hleft, List.isEmpty_iff.1 hright]
    exact ⟨rfl, List.append_cancel_left h⟩
  · exact absurd (List.cons.inj h).1 (by decide)
  · exact absurd (List.cons.inj h).1 (by decide)
  · simp only [List.cons_append, List.append_assoc, List.cons.injEq, true_and] at h
    obtain ⟨hchildren, hclosing⟩ := flatMap_append_inj hinj
      (fun child _ behind => closing_ne_text escape indent child _ behind)
      (fun child _ behind => closing_ne_text escape indent child _ behind) h
    have hrest := List.append_cancel_left hclosing
    simp only [List.cons.injEq, true_and, List.append_cancel_left_eq] at hrest
    exact ⟨hchildren, hrest⟩

/-- A tree can be told from the text that follows its own. -/
theorem text_append_inj (hleft : left.Named) (hright : right.Named) {restLeft restRight : List Char}
    (h : text escape indent left ++ restLeft = text escape indent right ++ restRight) :
    left = right ∧ restLeft = restRight := by
  induction hleft generalizing right indent restLeft restRight with
  | @node left hown _ ih =>
    obtain ⟨hother, hbelow⟩ := hright
    rw [text_eq, text_eq] at h
    simp only [List.append_assoc, List.cons_append, List.append_cancel_left_eq, List.cons.injEq, true_and] at h
    -- the name, up to the first character that is in no name
    obtain ⟨stopLeft, behindLeft, hconsLeft, hstopLeft⟩ :=
      exists_afterName_eq_cons escape indent left.name left.attributes left.children restLeft
    obtain ⟨stopRight, behindRight, hconsRight, hstopRight⟩ :=
      exists_afterName_eq_cons escape indent right.name right.attributes right.children restRight
    rw [hconsLeft, hconsRight] at h
    obtain ⟨hname, hafter⟩ := hown.1.append_inj hother.1 hstopLeft hstopRight h
    rw [← hconsLeft, ← hconsRight, hname] at hafter
    -- the attributes, as long as there is a blank
    obtain ⟨hattributes, hending⟩ := flatMap_append_inj
      (fun x hx y hy s t heq => attributeText_append_inj (hown.2 x hx) (hother.2 y hy) heq)
      (fun pair _ => ending_append_ne _ _ _ _ pair restLeft)
      (fun pair _ => ending_append_ne _ _ _ _ pair restRight) hafter
    obtain ⟨hchildren, hrest⟩ := ending_append_inj (fun x hx y hy s t heq => ih x hx (hbelow y hy) heq) hending
    obtain ⟨_, _, _⟩ := left
    obtain ⟨_, _, _⟩ := right
    exact ⟨by rw [Markup.mk.injEq]; exact ⟨hname, hattributes, hchildren⟩, hrest⟩

theorem render_escape_inj (hleft : left.Named) (hright : right.Named)
    (h : left.render escape = right.render escape) : left = right := by
  have htext := congrArg (· ++ []) (render_eq_iff_text_eq.1 h)
  exact (text_append_inj hleft hright htext).1

/-! ### Escapes undone -/

theorem unescapeFrom_append {front : List Char} (h : '"' ∉ front) (rest : List Char) :
    unescapeFrom false (front ++ rest) = front ++ unescapeFrom false rest := by
  induction front with
  | nil => rfl
  | cons c front ih =>
    obtain ⟨hc, hfront⟩ : '"' ≠ c ∧ '"' ∉ front := by simpa using h
    rw [List.cons_append, unescapeFrom, decide_eq_false hc.symm, ih hfront, List.cons_append]

theorem unescapeFrom_flatMap {α : Type} {code plain : α → List Char} {xs : List α}
    (h : ∀ x ∈ xs, ∀ rest, unescapeFrom false (code x ++ rest) = plain x ++ unescapeFrom false rest)
    (rest : List Char) :
    unescapeFrom false (xs.flatMap code ++ rest) = xs.flatMap plain ++ unescapeFrom false rest := by
  induction xs with
  | nil => rfl
  | cons x xs ih =>
    obtain ⟨hx, hxs⟩ := List.forall_mem_cons.1 h
    rw [List.flatMap_cons, List.append_assoc, hx, ih hxs, List.flatMap_cons, List.append_assoc]

theorem unescapeFrom_attributeText {pair : String × String} (h : IsName pair.1) (rest : List Char) :
    unescapeFrom false (attributeText escape pair ++ rest) =
      attributeText (fun value => value) pair ++ unescapeFrom false rest := by
  have hkey : '"' ∉ ' ' :: (pair.1.toList ++ ['=']) := by simp [h.notMem (c := '"') rfl]
  have hopen := unescapeFrom_append hkey ('"' :: ((escape pair.2).toList ++ '"' :: rest))
  rw [unescapeFrom, decide_eq_true rfl, unescapeFrom_escape] at hopen
  simpa [attributeText] using hopen

theorem unescapeFrom_ending (hname : IsName name) (hindent : '"' ∉ indent.toList)
    (hchildren : ∀ child ∈ children, ∀ rest, unescapeFrom false (text escape (indent ++ "  ") child ++ rest) =
      text (fun value => value) (indent ++ "  ") child ++ unescapeFrom false rest) (rest : List Char) :
    unescapeFrom false (ending escape indent name children ++ rest) =
      ending (fun value => value) indent name children ++ unescapeFrom false rest := by
  unfold ending
  split_ifs
  · exact unescapeFrom_append (by decide) rest
  · have hbreak : '"' ∉ ['>', '\n'] := by decide
    have hclosing : '"' ∉ indent.toList ++ '<' :: '/' :: (name.toList ++ ['>', '\n']) := by
      simp [hindent, hname.notMem (c := '"') rfl]
    have hrows := unescapeFrom_flatMap hchildren (indent.toList ++ '<' :: '/' :: (name.toList ++ ['>', '\n']) ++ rest)
    have hbody := unescapeFrom_append hbreak
      (children.flatMap (text escape (indent ++ "  ")) ++
        (indent.toList ++ '<' :: '/' :: (name.toList ++ ['>', '\n']) ++ rest))
    rw [hrows, unescapeFrom_append hclosing] at hbody
    simpa using hbody

theorem unescapeFrom_text (h : tree.Named) (hindent : '"' ∉ indent.toList) (rest : List Char) :
    unescapeFrom false (text escape indent tree ++ rest) =
      text (fun value => value) indent tree ++ unescapeFrom false rest := by
  induction h generalizing indent rest with
  | @node tree hown _ ih =>
    have hdeeper : '"' ∉ (indent ++ "  ").toList := by simp [hindent]
    have hopening : '"' ∉ indent.toList ++ '<' :: tree.name.toList := by simp [hindent, hown.1.notMem (c := '"') rfl]
    have hattributes := unescapeFrom_flatMap (fun pair hpair => unescapeFrom_attributeText (hown.2 pair hpair))
      (ending escape indent tree.name tree.children ++ rest)
    have hending := unescapeFrom_ending hown.1 hindent (fun child hchild => ih child hchild hdeeper) rest
    have htext := unescapeFrom_append hopening
      (tree.attributes.flatMap (attributeText escape) ++ (ending escape indent tree.name tree.children ++ rest))
    rw [hattributes, hending] at htext
    rw [text_eq, text_eq]
    simpa using htext

theorem unescapeValues_render (h : tree.Named) :
    unescapeValues (tree.render escape) = tree.render fun value => value := by
  have hindent : '"' ∉ "".toList := List.not_mem_nil
  have htext := unescapeFrom_text h hindent []
  rw [List.append_nil, unescapeFrom, List.append_nil] at htext
  exact String.toList_inj.1 (by rw [unescapeValues, String.toList_ofList]; exact htext)

/-- What looks like markup in a value stays as it is, and what looks like an entity is undone once. -/
example : unescapeValues "<a b=\"&lt;c/>&amp;quot;\"/>\n" = "<a b=\"<c/>&quot;\"/>\n" := by decide +kernel

/-! ### Values that need no escape -/

/-- The value holds no quote, no less-than sign and no ampersand. -/
def IsPlain (value : String) : Prop := ∀ c ∈ value.toList, c ≠ '"' ∧ c ≠ '<' ∧ c ≠ '&'

theorem escapeChar_eq_self {c : Char} (h : c ≠ '"' ∧ c ≠ '<' ∧ c ≠ '&') : escapeChar c = [c] := by
  rw [escapeChar, if_neg h.1, if_neg h.2.1, if_neg h.2.2]

theorem length_escapeChar (c : Char) : 1 ≤ (escapeChar c).length ∧
    (1 = (escapeChar c).length → c ≠ '"' ∧ c ≠ '<' ∧ c ≠ '&') := by
  unfold escapeChar
  split_ifs with hquote hless hand
  · exact ⟨by decide, fun h => absurd h (by decide)⟩
  · exact ⟨by decide, fun h => absurd h (by decide)⟩
  · exact ⟨by decide, fun h => absurd h (by decide)⟩
  · exact ⟨Nat.le_refl _, fun _ => ⟨hquote, hless, hand⟩⟩

theorem IsPlain.escape_eq {value : String} (h : IsPlain value) : escape value = value := by
  apply String.toList_inj.1
  rw [escape, String.toList_ofList, List.flatMap_congr fun c hc => escapeChar_eq_self (h c hc), List.flatMap_singleton']

theorem length_escape (value : String) : value.toList.length ≤ (escape value).toList.length ∧
    (value.toList.length = (escape value).toList.length → IsPlain value) := by
  have hlonger : ∀ c ∈ value.toList, [c].length ≤ (escapeChar c).length := fun c _ => (length_escapeChar c).1
  obtain ⟨hle, heq⟩ := length_flatMap_le hlonger
  rw [List.flatMap_singleton'] at hle heq
  rw [escape, String.toList_ofList]
  exact ⟨hle, fun hlength c hc => (length_escapeChar c).2 (heq hlength c hc)⟩

theorem length_attributeText (pair : String × String) :
    (attributeText (fun value => value) pair).length ≤ (attributeText escape pair).length ∧
      ((attributeText (fun value => value) pair).length = (attributeText escape pair).length → IsPlain pair.2) := by
  obtain ⟨hle, heq⟩ := length_escape pair.2
  simp only [attributeText, List.length_cons, List.length_append]
  exact ⟨by omega, fun hlength => heq (by omega)⟩

theorem induction {P : Markup → Prop} (step : ∀ tree : Markup, (∀ child ∈ tree.children, P child) → P tree)
    (tree : Markup) : P tree :=
  tree.rec (motive_2 := fun children => ∀ child ∈ children, P child)
    (fun _ _ _ ih => step _ ih)
    (fun _ h => absurd h List.not_mem_nil)
    (fun _ _ ihHead ihTail _ h => (List.mem_cons.1 h).elim (fun h => h ▸ ihHead) (ihTail _))

/-- No value in the tree needs an escape. -/
def Plain (tree : Markup) : Prop := tree.Everywhere fun row => ∀ pair ∈ row.attributes, IsPlain pair.2

theorem length_ending (write other : String → String) (indent name : String) {children : List Markup}
    (h : ∀ child ∈ children,
      (text write (indent ++ "  ") child).length ≤ (text other (indent ++ "  ") child).length) :
    (ending write indent name children).length ≤ (ending other indent name children).length ∧
      ((ending write indent name children).length = (ending other indent name children).length →
        ∀ child ∈ children, (text write (indent ++ "  ") child).length = (text other (indent ++ "  ") child).length) := by
  unfold ending
  split_ifs with hempty
  · rw [List.isEmpty_iff.1 hempty]
    exact ⟨Nat.le_refl _, fun _ child hchild => absurd hchild List.not_mem_nil⟩
  · obtain ⟨hle, heq⟩ := length_flatMap_le h
    simp only [List.length_cons, List.length_append]
    exact ⟨by omega, fun hlength => heq (by omega)⟩

theorem length_text (indent : String) (tree : Markup) :
    (text (fun value => value) indent tree).length ≤ (text escape indent tree).length ∧
      ((text (fun value => value) indent tree).length = (text escape indent tree).length → tree.Plain) := by
  induction tree using induction generalizing indent with
  | step tree ih =>
    obtain ⟨hattributes, hplain⟩ := length_flatMap_le fun pair (_ : pair ∈ tree.attributes) => (length_attributeText pair).1
    obtain ⟨hending, hbelow⟩ := length_ending (fun value => value) escape indent tree.name
      fun child hchild => (ih child hchild (indent ++ "  ")).1
    rw [text_eq, text_eq]
    simp only [List.length_append, List.length_cons]
    refine ⟨by omega, fun hlength => .node ?_ ?_⟩
    · exact fun pair hpair => (length_attributeText pair).2 (hplain (by omega) pair hpair)
    · exact fun child hchild => (ih child hchild (indent ++ "  ")).2 (hbelow (by omega) child hchild)

theorem Plain.text_eq (h : tree.Plain) (indent : String) : text (fun value => value) indent tree = text escape indent tree := by
  induction h generalizing indent with
  | @node tree hown _ ih =>
    have hattributes : tree.attributes.flatMap (attributeText fun value => value) =
        tree.attributes.flatMap (attributeText escape) := by
      refine List.flatMap_congr fun pair hpair => ?_
      rw [attributeText, attributeText, (hown pair hpair).escape_eq]
    have hchildren : tree.children.flatMap (text (fun value => value) (indent ++ "  ")) =
        tree.children.flatMap (text escape (indent ++ "  ")) :=
      List.flatMap_congr fun child hchild => ih child hchild (indent ++ "  ")
    rw [Markup.text_eq, Markup.text_eq, ending, ending, hattributes, hchildren]

theorem render_eq_render_escape_iff :
    (tree.render fun value => value) = tree.render escape ↔ tree.Plain := by
  rw [render_eq_iff_text_eq]
  exact ⟨fun h => (length_text "" tree).2 (congrArg List.length h), fun h => h.text_eq ""⟩

end Markup

end NedCheck
