import NedCheck.Proofs.ParseTree.RoundTrip
import NedCheck.Proofs.Parsing.Accounting
import NedCheck.Proofs.Parsing.OutlineTrees
import NedCheck.Proofs.Parsing.Soundness
import NedCheck.Proofs.Text.Location

/-!
# Runs over outlines

A run over the text of an outline, with a sink that drops nothing, fails in one way only: it gives up a tree that no message has put up for repair. The severities of all messages are known, repair leaves the problems of the root, and the root of a file has none, for its values are free.

An element that comes out of such a run is that of a significant line, and it knows the number of the line: a node is located by its line, neither the name of the file nor a repair changes where nodes are, and the number is read back from the location.
-/

namespace NedCheck

variable {ε σ : Type} {parser : Parser ε} {sink : Sink σ} {recorded : σ → List Diagnostic} {request : ParseRequest}
  {messages : List Message} {tree : ParseTree} {state next : ε} {received : σ}

/-! ### Ways to end -/

theorem result_of_known (hsink : sink.Records [] recorded) (hbuilds : parser.Builds)
    (hknown : ∀ messages, request.reported parser state = some messages → ∀ message ∈ messages, message.IsKnown)
    (received : σ) :
    (∃ e, (parseSource parser sink request state received).result = .ok e) ∨
      ∃ count first, (parseSource parser sink request state received).result = .error (.unsoundTree count first) := by
  cases hreported : request.reported parser state with
  | none => exact .inr (isUnsound_of_reported_eq_none sink hreported received)
  | some messages =>
    obtain ⟨e, pairs, hperm, hresult⟩ := exists_result_eq sink hbuilds hreported received
    exact .inl ⟨e, hresult.trans (accountFor_deliver_of_known hsink (hknown messages hreported) hperm e received)⟩

theorem accountFor_snd (before : σ) (messages : List Message) (converted : Except ParseFault Element × σ) :
    (accountFor sink before messages converted).2 = converted.2 := by
  obtain ⟨result, after⟩ := converted
  cases result with
  | ok e => rw [accountFor_ok]
  | error fault => rfl

theorem eq_ok_of_accountFor {before : σ} {converted : Except ParseFault Element × σ} {e : Element}
    (h : (accountFor sink before messages converted).1 = .ok e) : converted.1 = .ok e := by
  obtain ⟨result, after⟩ := converted
  cases result with
  | ok other =>
    rw [accountFor_ok] at h
    dsimp only at h
    split_ifs at h
    exact h
  | error fault => cases h

theorem toElement_of_parseSource {e : Element} (hparse : parser.parse request state = ((some tree, messages), next))
    (h : (parseSource parser sink request state received).result = .ok e) :
    (request.prepare messages tree).toElement = .ok e := by
  rw [parseSource_of_some hparse] at h
  cases hproblems : (request.prepare messages tree).problems with
  | nil =>
    rw [convertChecked_of_sound hproblems] at h
    exact ParseTree.toElement_of_convert (eq_ok_of_accountFor h)
  | cons found others =>
    rw [convertChecked_of_problems hproblems] at h
    cases h

theorem parseSource_noTree (hsink : sink.Records [] recorded) (hknown : ∀ message ∈ messages, message.IsKnown)
    (hparse : parser.parse request state = ((none, messages), next)) (received : σ) :
    (parseSource parser sink request state received).result = .ok request.emptyFile ∧
      ∃ delivered, messages.map (ParseTree.diagnosticOn? request.emptyFile) = delivered.map some ∧
        recorded (parseSource parser sink request state received).received = recorded received ++ delivered := by
  have hperm : ((messages.map (request.emptyFile, ·)).map Prod.snd).Perm messages := by simp [Function.comp_def]
  have hpairs : ∀ pair ∈ messages.map (request.emptyFile, ·), pair.2.IsKnown :=
    fun pair hpair => hknown pair.2 (hperm.mem_iff.1 (List.mem_map_of_mem hpair))
  rw [parseSource_of_none hparse]
  refine ⟨accountFor_deliver_of_known hsink hknown hperm _ _, ?_⟩
  obtain ⟨delivered, hdelivered, hrecorded⟩ := hsink.recorded_deliver _ hpairs received
  refine ⟨delivered, ?_, ?_⟩
  · rw [← hdelivered, List.map_map]
    rfl
  · dsimp only
    rw [accountFor_snd, hrecorded]

theorem emptyFile_eq (request : ParseRequest) : request.emptyFile.tag = request.kind.rootTag ∧
    request.emptyFile.children = [] ∧ request.emptyFile.value "filename" = request.displayName := by
  obtain ⟨kind, source, displayName, options⟩ := request
  cases kind <;> exact ⟨rfl, rfl, rfl⟩

namespace Outline

/-! ### Messages about outlines -/

theorem isKnown_ofSeverity (context : Option Nat) (location : String) (severity : Severity) (text : String) :
    (Message.ofSeverity context location severity text).IsKnown :=
  Option.isSome_iff_exists.2 ⟨severity, Severity.ofCode?_eq_some_iff.2 rfl⟩

theorem isKnown_of_mem_lineWarnings {file : String} {lines : List Line} {message : Message}
    (h : message ∈ lineWarnings file lines) : message.IsKnown := by
  obtain ⟨⟨line, id⟩, -, hmessage⟩ := List.mem_flatMap.1 h
  obtain ⟨word, -, rfl⟩ := List.mem_map.1 hmessage
  exact isKnown_ofSeverity _ _ _ _

theorem isKnown_of_mem_parse {root : Tag} {file text : String} {message : Message}
    (h : message ∈ (parse root file text).2) : message.IsKnown := by
  rcases parse_significantLines root file text with
    ⟨-, tree, hparse, -⟩ | ⟨-, hparse⟩ | ⟨before, line, after, fault, -, -, -, hparse⟩ <;> rw [hparse] at h
  · exact isKnown_of_mem_lineWarnings h
  · rw [List.mem_singleton.1 h]
    exact isKnown_ofSeverity _ _ _ _
  · rcases List.mem_append.1 h with hwarning | herror
    · exact isKnown_of_mem_lineWarnings hwarning
    · rw [List.mem_singleton.1 herror]
      exact isKnown_ofSeverity _ _ _ _

section Reported

variable {readFile : String → Except String String} {syntaxWarning : Option String} {state : ParserState}

theorem isKnown_of_mem_checkSyntax (h : ∀ message ∈ messages, message.IsKnown) :
    ∀ message ∈ ((Outline.parser readFile syntaxWarning).checkSyntax tree messages state).1, message.IsKnown := by
  intro message hmessage
  rcases List.mem_append.1 hmessage with hbefore | hadded
  · exact h message hbefore
  · cases syntaxWarning with
    | none => cases hadded
    | some warning =>
      rw [List.mem_singleton.1 hadded]
      exact isKnown_ofSeverity _ _ _ _

theorem isKnown_of_reported {kind : FileKind} {text name : String} {options : ParseOptions}
    (h : ParseRequest.reported ⟨kind, .text text, name, options⟩ (Outline.parser readFile syntaxWarning) state =
      some messages) : ∀ message ∈ messages, message.IsKnown := by
  have hparsed : ∀ message ∈ (parse kind.rootTag name text).2, message.IsKnown := fun _ => isKnown_of_mem_parse
  have hparse : (Outline.parser readFile syntaxWarning).parse ⟨kind, .text text, name, options⟩ state =
      (parse kind.rootTag name text, state) := rfl
  rcases hresult : parse kind.rootTag name text with ⟨parsed, first⟩
  rw [hresult] at hparsed hparse
  rw [ParseRequest.reported, hparse] at h
  cases parsed with
  | none =>
    obtain rfl := Option.some.inj h
    exact hparsed
  | some tree =>
    dsimp only at h
    split_ifs at h
    rw [← Option.some.inj h]
    exact isKnown_of_mem_checkSyntax hparsed

end Reported

/-! ### Elements of outlines -/

/-- An outline that is repaired is mended, since its root is that of a file. -/
theorem problems_prepare_eq_nil {request : ParseRequest} {file text : String}
    (hparse : (parse request.kind.rootTag file text).1 = some tree) (hrepairs : request.Repairs messages) :
    (request.prepare messages tree).problems = [] := by
  have hbuilt := built_parse hparse
  obtain ⟨attributes, hroot, -⟩ := request.node_named hbuilt.linked.size_pos ParseTree.root
  have htag : ((request.named tree).node ParseTree.root).tag? = some request.kind.rootTag := by
    rw [hroot]
    exact tag?_root_of_parse hparse
  by_contra hproblems
  rcases (ParseRequest.problems_prepare_ne_nil_iff hbuilt).1 hproblems with ⟨hkeeps, -⟩ | ⟨-, hflagged⟩
  · exact hkeeps hrepairs
  · exact (ParseRequest.built_named hbuilt request).not_flagged_root htag hflagged

/-- The element has what the line says; only the root may have got other values. -/
structure Line.Declares (line : Line) (e : Element) : Prop where
  tag : Tag.ofName? line.kind = some e.tag
  values : e.id ≠ ParseTree.root → e.attributes.values = line.schema.map (Line.lastValue line.attributes)

theorem Line.Describes.declares {line : Line} {file : String} {prepared : ParseTree} {id : Nat} {e : Element}
    (h : line.Describes file (tree.node id))
    (hprepared : ∃ attributes parent children,
      prepared.node id = { tree.node id with attributes, parent, children } ∧
        (id ≠ ParseTree.root → attributes = (tree.node id).attributes))
    (hmirrors : prepared.Mirrors id e) :
    line.Declares e ∧ (line.number < UInt32.size → e.line = line.number) := by
  obtain ⟨attributes, parent, children, hnode, hattributes⟩ := hprepared
  obtain ⟨hid, hcode, hvalues, hlocation, hregion⟩ := hmirrors
  rw [hnode] at hcode hvalues hlocation hregion
  refine ⟨⟨?_, fun hne => ?_⟩, fun hnumber => ?_⟩
  · rw [← h.tag]
    exact ParseTree.tag?_eq_some hcode.symm
  · rw [hvalues]
    exact (hattributes (hid ▸ hne)).trans h.attributes
  · have hplaced : e.location = some (Text.location file line.number) := by
      rw [h.location] at hlocation
      cases hfound : e.location with
      | none =>
        rw [hfound] at hlocation
        have hne := Text.location_ne_empty file line.number
        rw [← hlocation] at hne
        cases hne
      | some location => exact congrArg some (by simpa [hfound] using hlocation)
    have hempty : e.region.isEmpty = true := by
      rw [hregion.trans h.region]
      rfl
    rw [Element.line, if_pos hempty, hplaced, Option.map_some, Option.getD_some,
      Text.lineOfLocation_location file hnumber]

/-- The elements of a prepared tree are declared by significant lines, each by one of its own. -/
theorem declared_descendants {root : Tag} {file text : String} (hparse : (parse root file text).1 = some tree)
    (request : ParseRequest) {e : Element} (he : (request.prepare messages tree).toElement = .ok e) :
    (e.descendants.map Element.id).Nodup ∧ ∀ d ∈ e.descendants, ∃ line, (significantLines text)[d.id]? = some line ∧
      line.Declares d ∧ (line.number < UInt32.size → d.line = line.number) := by
  have hbuilt := built_parse hparse
  obtain ⟨-, hdepicts⟩ := isOutline_of_parse hparse
  have hlinked := ParseRequest.linked_prepare hbuilt request messages
  obtain ⟨rfl, hknown⟩ := ParseTree.eq_copy_of_toElement he
  rw [hlinked.descendants_copy hlinked.grounded_root]
  constructor
  · simp only [List.map_map, Function.comp_def, ParseTree.id_copy, List.map_id']
    exact hlinked.walk_nodup hlinked.grounded_root
  · intro d hd
    obtain ⟨id, hid, rfl⟩ := List.mem_map.1 hd
    have hlt : id < (significantLines text).length := by
      rw [← hdepicts.size, ← ParseRequest.size_prepare hbuilt request messages]
      exact hlinked.lt_size_of_mem_walk hid
    have hline : (significantLines text)[id]? = some (significantLines text)[id] := List.getElem?_eq_getElem hlt
    have hmirrors := ParseTree.mirrors_copy (ParseRequest.complete_prepare hbuilt request messages) (hknown id hid)
    rw [ParseTree.id_copy]
    exact ⟨_, hline, (hdepicts.describes hline).declares (ParseRequest.node_prepare hbuilt request messages id) hmirrors⟩

end Outline

/-! ### Runs -/

/-- A run over the text of an outline, with a sink that drops nothing, gives an element or gives up a tree, and it gives up a tree only if that is not repaired: because no message came with it, or because the options say so. If the text is no outline, the run gives the childless file element of the given name, and all messages are on it. If the text is one, each element that the run gives has a significant line of its own, which declares it, and is at the number of that line in the text, whatever the file is called and whatever repair has taken away. -/
theorem parseSource_outline (hsink : sink.Records [] recorded) (readFile : String → Except String String)
    (syntaxWarning : Option String) (kind : FileKind) (text name : String) (options : ParseOptions)
    (state : Outline.ParserState) (received : σ) :
    let parsed := Outline.parse kind.rootTag name text
    let run := parseSource (Outline.parser readFile syntaxWarning) sink ⟨kind, .text text, name, options⟩ state received
    ((∃ e, run.result = .ok e) ∨ ∃ count first, run.result = .error (.unsoundTree count first)) ∧
    (∀ count first, run.result = .error (.unsoundTree count first) →
      parsed.1.isSome ∧ (parsed.2 = [] ∨ options.repair = false)) ∧
    (parsed.1 = none → ∃ e, run.result = .ok e ∧ e.tag = kind.rootTag ∧ e.children = [] ∧ e.value "filename" = name ∧
      ∃ delivered, parsed.2.map (ParseTree.diagnosticOn? e) = delivered.map some ∧
        recorded run.received = recorded received ++ delivered) ∧
    ∀ tree e, parsed.1 = some tree → run.result = .ok e → (e.descendants.map Element.id).Nodup ∧
      ∀ d ∈ e.descendants, ∃ line content, (Outline.significantLines text)[d.id]? = some line ∧
        1 ≤ line.number ∧ (Text.lines text.toList)[line.number - 1]? = some content ∧ line.Spells content ∧
        line.Declares d ∧ (line.number < UInt32.size → d.line = line.number) := by
  dsimp only
  have hparse : (Outline.parser readFile syntaxWarning).parse ⟨kind, .text text, name, options⟩ state =
      (Outline.parse kind.rootTag name text, state) := rfl
  have hknown : ∀ message ∈ (Outline.parse kind.rootTag name text).2, message.IsKnown :=
    fun _ => Outline.isKnown_of_mem_parse
  refine ⟨?_, fun count first hresult => ?_, fun hnone => ?_, fun tree e hsome hresult => ?_⟩
  · exact result_of_known hsink (Outline.builds_outlines readFile syntaxWarning)
      (fun _ => Outline.isKnown_of_reported) received
  · obtain ⟨tree, messages, hparsed, found, others, hproblems, -, -⟩ := parseSource_eq_unsoundTree_iff.1 hresult
    rw [hparse] at hparsed
    have hsome : (Outline.parse kind.rootTag name text).1 = some tree := congrArg Prod.fst hparsed
    have hkeeps : ¬ ParseRequest.Repairs ⟨kind, .text text, name, options⟩ messages := by
      intro hrepairs
      rw [Outline.problems_prepare_eq_nil hsome hrepairs] at hproblems
      cases hproblems
    have hmessages : (Outline.parse kind.rootTag name text).2 = messages := congrArg Prod.snd hparsed
    refine ⟨Option.isSome_iff_exists.2 ⟨tree, hsome⟩, ?_⟩
    simpa [ParseRequest.Repairs, hmessages, or_iff_not_imp_left] using hkeeps
  · have hnoTree : (Outline.parser readFile syntaxWarning).parse ⟨kind, .text text, name, options⟩ state =
        ((none, (Outline.parse kind.rootTag name text).2), state) := by
      rw [hparse, ← hnone]
    obtain ⟨hresult, hdelivered⟩ := parseSource_noTree hsink hknown hnoTree received
    obtain ⟨htag, hchildren, hname⟩ := emptyFile_eq ⟨kind, .text text, name, options⟩
    exact ⟨_, hresult, htag, hchildren, hname, hdelivered⟩
  · have htree : (Outline.parser readFile syntaxWarning).parse ⟨kind, .text text, name, options⟩ state =
        ((some tree, (Outline.parse kind.rootTag name text).2), state) := by
      rw [hparse, ← hsome]
    obtain ⟨hnodup, hdeclared⟩ := Outline.declared_descendants hsome _ (toElement_of_parseSource htree hresult)
    refine ⟨hnodup, fun d hd => ?_⟩
    obtain ⟨line, hline, hdeclares⟩ := hdeclared d hd
    obtain ⟨hnumber, content, hcontent, hspells⟩ :=
      Outline.mem_significantLines_iff.1 (List.mem_of_getElem? hline)
    exact ⟨line, content, hline, hnumber, hcontent, hspells, hdeclares⟩

/-- An outline with an attribute that is warned about, and which therefore loses its misplaced section. -/
def strayGatesText : String := "ned-file bogus=1\n// gates\n  gates\n\n  package name=p"

/-- The package is at its line, though the line above is taken away and the file has a colon in its name. -/
theorem parseSource_outline_strayGates :
    let run := parseSource (Outline.parser (fun _ => .error "") none) Collector.sink
      ⟨.ned, .text strayGatesText, "a:7", {}⟩ ⟨0⟩ .empty
    Collector.sink.Records [] Collector.diagnostics ∧
      ∃ e, run.result = .ok e ∧ e.descendants.map Element.id = [0, 2] ∧ e.descendants.map Element.line = [1, 5] := by
  intro run
  have hsink : Collector.sink.Records [] Collector.diagnostics :=
    Collector.sinkDropping_nil ▸ Collector.records_sinkDropping []
  obtain ⟨hends, hgiven, -, hdeclared⟩ :=
    parseSource_outline hsink (fun _ => .error "") none .ned strayGatesText "a:7" {} ⟨0⟩ .empty
  have hparsed : (Outline.parse .nedFile "a:7" strayGatesText).1.isSome ∧
      (Outline.parse .nedFile "a:7" strayGatesText).2 ≠ [] := by decide +kernel
  have hids : run.result.toOption.map (fun e => e.descendants.map Element.id) = some [0, 2] := by decide +kernel
  have hnumbers : (Outline.significantLines strayGatesText).map (·.number) = [1, 3, 5] := by decide +kernel
  rcases hends with ⟨e, hresult⟩ | ⟨count, first, hresult⟩
  · obtain ⟨tree, htree⟩ := Option.isSome_iff_exists.1 hparsed.1
    have hdescendants : e.descendants.map Element.id = [0, 2] := by
      rw [show run.result = .ok e from hresult] at hids
      exact Option.some.inj hids
    have hlines : ∀ d ∈ e.descendants, d.line = [1, 3, 5][d.id]?.getD 0 := by
      intro d hd
      obtain ⟨line, -, hline, -, -, -, -, hat⟩ := (hdeclared tree e htree hresult).2 d hd
      have hnumber : [1, 3, 5][d.id]? = some line.number := by
        rw [← hnumbers, List.getElem?_map, hline, Option.map_some]
      have hbounds : ∀ number ∈ [1, 3, 5], number < UInt32.size := by decide
      rw [hnumber, hat (hbounds line.number (List.mem_of_getElem? hnumber)), Option.getD_some]
    refine ⟨hsink, e, hresult, hdescendants, ?_⟩
    rw [List.map_congr_left hlines, ← Function.comp_def (fun id => [1, 3, 5][id]?.getD 0) Element.id, ← List.map_map,
      hdescendants]
    rfl
  · rcases (hgiven count first hresult).2 with hnone | hkeeps
    · exact absurd hnone hparsed.2
    · cases hkeeps

end NedCheck
