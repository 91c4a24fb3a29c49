import NedCheck.Outline
import NedCheck.Proofs.ParseTree.Built

/-!
# Outlines are built

The parser of outlines makes its trees by the operations on trees alone. A new node goes below one of the open nodes, so what carries the proof is that these are nodes of the tree.
-/

namespace NedCheck

/-- The trees that the parser hands over have been built by the operations on trees. -/
def Parser.Builds {ε : Type} (parser : Parser ε) : Prop :=
  ∀ request state tree, (parser.parse request state).1.1 = some tree → tree.Built

namespace Outline

variable {tree : ParseTree}

theorem size_setValue {changed : ParseTree} {id : Nat} {name value : String}
    (h : tree.setValue? id name value = some changed) : changed.size = tree.size := by
  obtain ⟨index, hset⟩ := ParseTree.exists_setValueAt_of_setValue h
  rw [ParseTree.eq_modify_of_setValueAt hset, ParseTree.size_modify]

theorem built_setAttributes (location : String) (id : Nat) (attributes : List (String × String))
    (warnings : List Message) (h : tree.Built) :
    (setAttributes location id attributes (tree, warnings)).1.Built ∧
      (setAttributes location id attributes (tree, warnings)).1.size = tree.size := by
  induction attributes generalizing tree warnings with
  | nil => exact ⟨h, rfl⟩
  | cons word rest ih =>
    rw [setAttributes]
    cases hset : tree.setValue? id word.1 word.2 with
    | none => exact ih _ h
    | some changed =>
      rw [← size_setValue hset]
      exact ih _ (.setValue h hset)

/-- The tree has been built so far, and the open nodes are among its nodes. -/
structure Growth.Grown (growth : Growth) : Prop where
  built : growth.tree.Built
  open_lt : ∀ id ∈ growth.openNodes, id < growth.tree.size

theorem grown_fill (file : String) (line : Line) (h : tree.Built) {id : Nat} (hid : id < tree.size)
    {openNodes : List Nat} (hopen : ∀ other ∈ openNodes, other < tree.size) (warnings : List Message) :
    (Growth.fill file line tree id openNodes warnings).Grown := by
  obtain ⟨hbuilt, hsize⟩ := built_setAttributes (Text.location file line.number) id line.attributes warnings
    (.setLocation id (Text.location file line.number) h)
  rw [ParseTree.setLocation, ParseTree.size_modify] at hsize
  refine ⟨hbuilt, fun other hother => ?_⟩
  have hlt : other < tree.size := by
    rcases List.mem_cons.1 hother with rfl | hother
    · exact hid
    · exact hopen other hother
  exact Nat.lt_of_lt_of_eq hlt hsize.symm

theorem grown_start {root : Tag} {file : String} {line : Line} {growth : Growth}
    (h : start root file line = .ok growth) : growth.Grown := by
  rw [start] at h
  cases hplace : line.place with
  | error fault => simp [hplace, bind, Except.bind] at h
  | ok place =>
    simp only [hplace, bind, Except.bind] at h
    by_cases hroot : place.2 = 0 ∧ place.1 = root
    · obtain rfl : Growth.fill file line (.new place.1.code) ParseTree.root [] [] = growth := by
        simpa [hroot, pure, Except.pure] using h
      exact grown_fill file line (.new _) Nat.one_pos (by simp) []
    · simp [hroot] at h

theorem Growth.Grown.add {growth next : Growth} {file : String} {line : Line} (h : growth.Grown)
    (hadd : growth.add file line = .ok next) : next.Grown := by
  rw [Growth.add] at hadd
  cases hplace : line.place with
  | error fault => simp [hplace, bind, Except.bind] at hadd
  | ok place =>
    simp only [hplace, bind, Except.bind] at hadd
    cases habove : growth.openNodes.drop (growth.openNodes.length - place.2) with
    | nil => simp [habove] at hadd
    | cons parent others =>
      simp only [habove] at hadd
      have hopen : ∀ id ∈ parent :: others, id < growth.tree.size :=
        fun id hid => h.open_lt id (List.mem_of_mem_drop (habove ▸ hid))
      by_cases hdepth : place.2 ≤ growth.openNodes.length
      · obtain rfl : Growth.fill file line (growth.tree.appendChild parent place.1.code) growth.tree.size
            (parent :: others) growth.warnings = next := by
          simpa [hdepth, pure, Except.pure] using hadd
        have hparent := Nat.le_of_lt (hopen parent List.mem_cons_self)
        refine grown_fill file line (.appendChild place.1.code h.built hparent) ?_ ?_ growth.warnings
        · rw [ParseTree.size_appendChild]
          exact Nat.lt_succ_self _
        · intro other hother
          rw [ParseTree.size_appendChild]
          exact Nat.lt_succ_of_lt (hopen other hother)
      · simp [hdepth] at hadd

theorem Growth.Grown.addAll {growth : Growth} (h : growth.Grown) (file : String) (lines : List Line)
    (hread : (growth.addAll file lines).1 = some tree) : tree.Built := by
  induction lines generalizing growth with
  | nil => exact Option.some.inj hread ▸ h.built
  | cons line rest ih =>
    rw [Growth.addAll] at hread
    cases hadd : growth.add file line with
    | error fault => simp [hadd] at hread
    | ok next =>
      rw [hadd] at hread
      exact ih (h.add hadd) hread

theorem built_parse {root : Tag} {file text : String} (h : (parse root file text).1 = some tree) : tree.Built := by
  rw [parse] at h
  cases hlines : significantLines text with
  | nil => simp [hlines] at h
  | cons first rest =>
    cases hstart : start root file first with
    | error fault => simp [hlines, hstart] at h
    | ok growth =>
      simp only [hlines, hstart] at h
      exact (grown_start hstart).addAll file rest h

theorem builds_outlines (readFile : String → Except String String) (syntaxWarning : Option String) :
    (parser readFile syntaxWarning).Builds := by
  rintro ⟨kind, source, displayName, options⟩ state tree h
  cases source with
  | text content => exact built_parse h
  | file path =>
    cases hread : readFile path with
    | error reason => simp [parser, hread] at h
    | ok text =>
      simp only [parser, hread] at h
      exact built_parse h

end Outline

end NedCheck
