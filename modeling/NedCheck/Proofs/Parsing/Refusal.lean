import NedCheck.Proofs.ParseTree.Acceptance
import NedCheck.Proofs.ParseTree.Conversion
import NedCheck.Proofs.Parsing.Calls
import NedCheck.Proofs.Parsing.Outlines
import NedCheck.Proofs.Parsing.Preparation

/-!
# Trees that are given up

A run gives up a tree that has a structural problem when it comes to be checked. A tree that is not repaired is checked as it came, but for the file name of an MSG file, so any problem is one too many. Repair mends all there is to mend below the root, and what it leaves are the problems of the root itself, which were there before: so a repaired tree is given up on account of its root or not at all.

Giving up a tree comes before the parser's own checks and before anything is handed to the sink.
-/

namespace NedCheck

variable {ε σ : Type} {parser : Parser ε} {sink : Sink σ}

/-! ### Other ways to fail -/

theorem deliver_fst (pairs : List (Element × Message)) (received : σ) :
    (ParseTree.deliver sink pairs received).1 =
      (pairs.find? fun pair => (Severity.ofCode? pair.2.severityCode).isNone).elim (.ok ()) fun pair =>
        .error (.unknownSeverity pair.2.severityCode pair.2.text) := by
  induction pairs generalizing received with
  | nil => rfl
  | cons pair rest ih =>
    rw [ParseTree.deliver]
    cases hseverity : Severity.ofCode? pair.2.severityCode with
    | none => rw [List.find?_cons_of_pos (by simp [hseverity])]; rfl
    | some severity =>
      rw [List.find?_cons_of_neg (by simp [hseverity])]
      exact ih _

theorem exists_convert_eq (sink : Sink σ) {tree : ParseTree} (h : tree.problems = []) (messages : List Message)
    (received : σ) : ∃ e, tree.toElement = .ok e ∧ tree.convert messages sink received =
      ((ParseTree.deliver sink (ParseTree.addressed e messages) received).1.map fun _ => e,
        (ParseTree.deliver sink (ParseTree.addressed e messages) received).2) := by
  obtain ⟨e, he, -⟩ := ParseTree.exists_toElement_eq_ok h
  refine ⟨e, he, ?_⟩
  rw [ParseTree.convert, he]

theorem accountFor_ok (before after : σ) (messages : List Message) (e : Element) :
    accountFor sink before messages (.ok e, after) =
      (if sink.count after - sink.count before = messages.length then .ok e
        else .error (.lostDiagnostics messages.length (sink.count after - sink.count before)), after) := by
  rw [accountFor]
  dsimp only
  split_ifs <;> rfl

theorem accountFor_error (before after : σ) (messages : List Message) (fault : ParseFault) :
    accountFor sink before messages (.error fault, after) = (.error fault, after) := rfl

theorem accountFor_ne_unsoundTree (before : σ) (messages : List Message) (pairs : List (Element × Message))
    (e : Element) (received : σ) (count : Nat) (first : String) :
    (accountFor sink before messages ((ParseTree.deliver sink pairs received).1.map fun _ => e,
      (ParseTree.deliver sink pairs received).2)).1 ≠ .error (.unsoundTree count first) := by
  rw [deliver_fst]
  cases pairs.find? fun pair => (Severity.ofCode? pair.2.severityCode).isNone with
  | none =>
    rw [Option.elim_none, Except.map, accountFor_ok]
    split_ifs <;> simp
  | some pair =>
    rw [Option.elim_some, Except.map, accountFor_error]
    simp

theorem convertChecked_ne_unsoundTree {tree : ParseTree} (h : tree.problems = []) (messages : List Message) (state : ε)
    (received : σ) (count : Nat) (first : String) :
    (convertChecked parser sink messages tree state received).result ≠ .error (.unsoundTree count first) := by
  rw [convertChecked_of_sound h]
  obtain ⟨e, -, hconvert⟩ := exists_convert_eq sink h (parser.checkSyntax tree messages state).1 received
  dsimp only
  rw [hconvert]
  exact accountFor_ne_unsoundTree _ _ _ _ _ _ _

/-! ### Giving up -/

variable {request : ParseRequest} {state : ε} {received : σ}

/-- A run gives up the tree that it checks if and only if that has a problem. It has counted the problems, and says what the first of them is. -/
theorem parseSource_eq_unsoundTree_iff {count : Nat} {first : String} :
    (parseSource parser sink request state received).result = .error (.unsoundTree count first) ↔
      ∃ tree messages, (parser.parse request state).1 = (some tree, messages) ∧
        ∃ found others, (request.prepare messages tree).problems = found :: others ∧
          others.length + 1 = count ∧ found.2.message = first := by
  rcases hparse : parser.parse request state with ⟨⟨parsed, messages⟩, next⟩
  cases parsed with
  | none =>
    rw [parseSource_of_none hparse]
    simpa using accountFor_ne_unsoundTree _ _ _ _ _ _ _
  | some tree =>
    rw [parseSource_of_some hparse]
    cases hproblems : (request.prepare messages tree).problems with
    | nil => simpa [hproblems] using convertChecked_ne_unsoundTree hproblems _ _ _ _ _
    | cons found others =>
      rw [convertChecked_of_problems hproblems]
      obtain ⟨id, problem⟩ := found
      simp [hproblems]

theorem untouched_of_unsoundTree {count : Nat} {first : String}
    (h : (parseSource parser sink request state received).result = .error (.unsoundTree count first)) :
    (parseSource parser sink request state received).received = received ∧
      ∀ tree messages, .checkSyntax tree messages ∉
        (parseSource parser.recorded sink request (state, []) received).parser.2 := by
  obtain ⟨tree, messages, hparsed, found, others, hproblems, -, -⟩ := parseSource_eq_unsoundTree_iff.1 h
  have hparse : parser.parse request state = ((some tree, messages), (parser.parse request state).2) :=
    Prod.ext hparsed rfl
  have hrecorded : parser.recorded.parse request (state, []) =
      ((parser.parse request state).1, (parser.parse request state).2, [.parse request]) := rfl
  rw [hparsed] at hrecorded
  rw [parseSource_of_some hparse, parseSource_of_some hrecorded, convertChecked_of_problems hproblems,
    convertChecked_of_problems hproblems]
  refine ⟨rfl, fun tree messages => ?_⟩
  simp [Parser.recorded]

/-- With a parser that builds its trees, a run gives up a tree if and only if the tree, with its file name, has a problem and is not repaired, or is repaired and has a problem at its root. It then says how many problems a check of the tree finds, which is the prepared one, and what the first of them is; the sink is as it was, and the parser has not been asked for checks of its own. -/
theorem parseSource_unsoundTree (hbuilds : parser.Builds) (sink : Sink σ) (request : ParseRequest) (state : ε)
    (received : σ) :
    let run := parseSource parser sink request state received
    ((∃ count first, run.result = .error (.unsoundTree count first)) ↔
      ∃ tree messages, (parser.parse request state).1 = (some tree, messages) ∧
        ((¬request.Repairs messages ∧ (request.named tree).problems ≠ []) ∨
          (request.Repairs messages ∧ (request.named tree).Flagged ParseTree.root))) ∧
    ∀ count first, run.result = .error (.unsoundTree count first) →
      (∃ tree messages, (parser.parse request state).1 = (some tree, messages) ∧
        ∃ report others, (request.prepare messages tree).check messages = (count, messages ++ report :: others) ∧
          report.text = first) ∧
      run.received = received ∧
      ∀ tree messages, .checkSyntax tree messages ∉
        (parseSource parser.recorded sink request (state, []) received).parser.2 := by
  dsimp only
  refine ⟨?_, fun count first h => ⟨?_, untouched_of_unsoundTree h⟩⟩
  · simp only [parseSource_eq_unsoundTree_iff]
    constructor
    · rintro ⟨count, first, tree, messages, hparsed, found, others, hproblems, -, -⟩
      have hbuilt := hbuilds request state tree (congrArg Prod.fst hparsed)
      exact ⟨tree, messages, hparsed, (ParseRequest.problems_prepare_ne_nil_iff hbuilt).1 (by simp [hproblems])⟩
    · rintro ⟨tree, messages, hparsed, hproblems⟩
      have hbuilt := hbuilds request state tree (congrArg Prod.fst hparsed)
      obtain ⟨found, others, heq⟩ :=
        List.exists_cons_of_ne_nil ((ParseRequest.problems_prepare_ne_nil_iff hbuilt).2 hproblems)
      exact ⟨_, _, tree, messages, hparsed, found, others, heq, rfl, rfl⟩
  · obtain ⟨tree, messages, hparsed, found, others, hproblems, hcount, hfirst⟩ := parseSource_eq_unsoundTree_iff.1 h
    refine ⟨tree, messages, hparsed, (request.prepare messages tree).problemMessage found,
      others.map (request.prepare messages tree).problemMessage, ?_, hfirst⟩
    rw [ParseTree.check_eq, ParseTree.problemMessages, hproblems, List.map_cons, List.length_cons, hcount]

/-- An outline with a section twice, which is not to be repaired. -/
def repeatedSection : ParseRequest :=
  ⟨.ned, .text "ned-file\n  simple-module name=A\n    gates\n    gates", "a.ned", ⟨false, false⟩⟩

/-- The second of the sections is out of place, so the tree is given up. -/
theorem parseSource_unsoundTree_repeatedSection :
    let outlines := Outline.parser (fun _ => .error "") none
    let run := parseSource outlines Collector.sink repeatedSection ⟨0⟩ .empty
    outlines.Builds ∧ (∃ count first, run.result = .error (.unsoundTree count first)) ∧ run.received = .empty := by
  have hproblems : ((Outline.parser (fun _ => .error "") none).parse repeatedSection ⟨0⟩).1.1.map ParseTree.isSound =
      some false := by decide +kernel
  obtain ⟨tree, htree, hunsound⟩ := Option.map_eq_some_iff.1 hproblems
  have hkeeps : ∀ messages, ¬repeatedSection.Repairs messages := by simp [ParseRequest.Repairs, repeatedSection]
  have hne : (repeatedSection.named tree).problems ≠ [] := by
    rw [ParseRequest.named, if_neg (by simp [repeatedSection])]
    exact List.isEmpty_eq_false_iff.1 hunsound
  have hbuilds := Outline.builds_outlines (fun _ => .error "") none
  obtain ⟨hgiven, huntouched⟩ := parseSource_unsoundTree hbuilds Collector.sink repeatedSection ⟨0⟩ .empty
  obtain ⟨count, first, hresult⟩ := hgiven.2 ⟨tree, _, Prod.ext htree rfl, .inl ⟨hkeeps _, hne⟩⟩
  exact ⟨hbuilds, ⟨count, first, hresult⟩, (huntouched count first hresult).2.1⟩

end NedCheck
