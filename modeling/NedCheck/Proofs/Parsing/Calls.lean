import NedCheck.Outline

/-!
# What a parser is asked to do

A run asks the parser to read the source. If that gives no tree, nothing more is asked of it. If it does, the tree as it was checked is handed back in the end, and before that the parser gets to see it for checks of its own, but only if the structural checks have found nothing wrong with it. This is so however the run ends, for the tree is handed back outside of everything that can fail.

`Parser.recorded` keeps a record of the calls. It does what the parser does, so the record is that of the run itself: the state the run leaves the parser in is the one that the recorded calls lead to, one after another.
-/

namespace NedCheck

/-- The state of the parser after a call. -/
def ParserCall.stateAfter {ε : Type} (parser : Parser ε) (state : ε) : ParserCall → ε
  | .parse request => (parser.parse request state).2
  | .checkSyntax tree messages => (parser.checkSyntax tree messages state).2
  | .release tree => parser.release tree state

/-- The calls that a request may lead to, by what the parser has read. -/
inductive ParseRequest.Protocol (request : ParseRequest) :
    Option ParseTree × List Message → List ParserCall → Prop where
  | noTree (messages : List Message) : Protocol request (none, messages) [.parse request]
  | unsound {tree : ParseTree} {messages : List Message} : (request.prepare messages tree).problems ≠ [] →
    Protocol request (some tree, messages) [.parse request, .release (request.prepare messages tree)]
  | sound {tree : ParseTree} {messages : List Message} : (request.prepare messages tree).problems = [] →
    Protocol request (some tree, messages) [.parse request, .checkSyntax (request.prepare messages tree) messages,
      .release (request.prepare messages tree)]

variable {ε σ : Type} {parser : Parser ε} {sink : Sink σ} {request : ParseRequest} {messages : List Message}
  {tree : ParseTree} {state next : ε} {calls : List ParserCall} {received : σ}

/-! ### The ways of a run -/

theorem parseSource_of_none (h : parser.parse request state = ((none, messages), next)) :
    parseSource parser sink request state received =
      let delivered := ParseTree.deliver sink (messages.map (request.emptyFile, ·)) received
      let accounted := accountFor sink received messages (delivered.1.map fun _ => request.emptyFile, delivered.2)
      ⟨accounted.1, next, accounted.2⟩ := by
  rw [parseSource, h]

theorem parseSource_of_some (h : parser.parse request state = ((some tree, messages), next)) :
    parseSource parser sink request state received =
      let run := convertChecked parser sink messages (request.prepare messages tree) next received
      { run with parser := parser.release (request.prepare messages tree) run.parser } := by
  rw [parseSource, h]

theorem convertChecked_of_problems {found : Nat × StructureProblem} {others : List (Nat × StructureProblem)}
    (h : tree.problems = found :: others) : convertChecked parser sink messages tree state received =
      ⟨.error (.unsoundTree (others.length + 1) found.2.message), state, received⟩ := by
  rw [convertChecked, h]

theorem convertChecked_of_sound (h : tree.problems = []) : convertChecked parser sink messages tree state received =
    let checked := parser.checkSyntax tree messages state
    let accounted := accountFor sink received checked.1 (tree.convert checked.1 sink received)
    ⟨accounted.1, checked.2, accounted.2⟩ := by
  rw [convertChecked, h]

/-! ### The record -/

/-- What is asked of the parser while a tree is checked and converted. -/
def callsOn (tree : ParseTree) (messages : List Message) : List ParserCall :=
  if tree.problems = [] then [.checkSyntax tree messages] else []

theorem convertChecked_recorded : convertChecked parser.recorded sink messages tree (state, calls) received =
    let run := convertChecked parser sink messages tree state received
    ⟨run.result, (run.parser, calls ++ callsOn tree messages), run.received⟩ := by
  cases hproblems : tree.problems with
  | nil =>
    rw [convertChecked_of_sound hproblems, convertChecked_of_sound hproblems, callsOn, if_pos hproblems]
    rfl
  | cons found others =>
    rw [convertChecked_of_problems hproblems, convertChecked_of_problems hproblems]
    simp [callsOn, hproblems]

theorem parser_convertChecked : (convertChecked parser sink messages tree state received).parser =
    (callsOn tree messages).foldl (ParserCall.stateAfter parser) state := by
  cases hproblems : tree.problems with
  | nil =>
    rw [convertChecked_of_sound hproblems, callsOn, if_pos hproblems]
    rfl
  | cons found others =>
    rw [convertChecked_of_problems hproblems]
    simp [callsOn, hproblems]

/-- However a run ends, the parser is called as the protocol says: it is asked to read the source once and first, sees the checked tree at most once and only if that has no problem, and gets the same tree back once and last, if it made one. The record is made by a parser that does the same, and the calls on it lead to the state the parser is left in. -/
theorem parseSource_protocol (parser : Parser ε) (sink : Sink σ) (request : ParseRequest) (state : ε) (received : σ) :
    let run := parseSource parser sink request state received
    ∃ calls, request.Protocol (parser.parse request state).1 calls ∧
      parseSource parser.recorded sink request (state, []) received = ⟨run.result, (run.parser, calls), run.received⟩ ∧
      run.parser = calls.foldl (ParserCall.stateAfter parser) state := by
  rcases hparse : parser.parse request state with ⟨⟨parsed, messages⟩, next⟩
  have hrecorded : parser.recorded.parse request (state, []) =
      ((parser.parse request state).1, (parser.parse request state).2, [.parse request]) := rfl
  rw [hparse] at hrecorded
  have hfirst : ParserCall.stateAfter parser state (.parse request) = next := by
    rw [ParserCall.stateAfter, hparse]
  cases parsed with
  | none =>
    rw [parseSource_of_none hparse, parseSource_of_none hrecorded]
    exact ⟨[.parse request], .noTree messages, rfl, hfirst.symm⟩
  | some tree =>
    have hprotocol : request.Protocol (some tree, messages) ([.parse request] ++
        callsOn (request.prepare messages tree) messages ++ [.release (request.prepare messages tree)]) := by
      by_cases hproblems : (request.prepare messages tree).problems = []
      · rw [callsOn, if_pos hproblems]
        exact .sound hproblems
      · rw [callsOn, if_neg hproblems]
        exact .unsound hproblems
    rw [parseSource_of_some hparse, parseSource_of_some hrecorded, convertChecked_recorded]
    refine ⟨_, hprotocol, rfl, ?_⟩
    dsimp only
    rw [parser_convertChecked]
    simp only [List.foldl_append, List.foldl_cons, List.foldl_nil, hfirst]
    rfl

end NedCheck
