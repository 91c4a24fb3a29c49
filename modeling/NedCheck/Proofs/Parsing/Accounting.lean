import NedCheck.Proofs.ParseTree.Delivery
import NedCheck.Proofs.Parsing.Refusal

/-!
# Accounting for messages

A run compares how far the count of the sink has gone up with the number of messages. Delivery goes over the messages node by node and then over what is left, and in all it hands over each of them once: the pairs of `addressed` are the messages in another order, whatever they are about. So the count goes up by the messages whose severity the sink records, and the run stands if these are all of them.
-/

namespace NedCheck

variable {ε σ : Type}

/-! ### Sinks with a record -/

/-- The sink adds diagnostics to the end of its record, but for those of the dropped severities, and counts what is in the record. -/
structure Sink.Records (sink : Sink σ) (dropped : List Severity) (recorded : σ → List Diagnostic) : Prop where
  add (diagnostic : Diagnostic) (state : σ) : recorded (sink.add diagnostic state) =
    if diagnostic.severity ∈ dropped then recorded state else recorded state ++ [diagnostic]
  count (state : σ) : sink.count state = (recorded state).length

theorem Collector.records_sinkDropping (dropped : List Severity) :
    (sinkDropping dropped).Records dropped Collector.diagnostics where
  add diagnostic collector := by
    rw [sinkDropping]
    by_cases hdropped : diagnostic.severity ∈ dropped <;> simp [hdropped, Collector.add]
  count _ := rfl

namespace Message

/-- The number for the severity is one of the known ones. -/
def IsKnown (message : Message) : Prop := (Severity.ofCode? message.severityCode).isSome = true

/-- The message is of a known severity that is not dropped. -/
def isKept (dropped : List Severity) (message : Message) : Bool :=
  (Severity.ofCode? message.severityCode).any fun severity => !dropped.contains severity

theorem isKept_nil {message : Message} (h : message.IsKnown) : message.isKept [] = true := by
  obtain ⟨severity, hseverity⟩ := Option.isSome_iff_exists.1 h
  simp [isKept, hseverity]

end Message

/-! ### What delivery adds -/

variable {sink : Sink σ} {dropped : List Severity} {recorded : σ → List Diagnostic} {messages : List Message}

theorem Sink.Records.deliver (h : sink.Records dropped recorded) (pairs : List (Element × Message))
    (hknown : ∀ pair ∈ pairs, pair.2.IsKnown) (received : σ) :
    (ParseTree.deliver sink pairs received).1 = .ok () ∧
      sink.count (ParseTree.deliver sink pairs received).2 =
        sink.count received + pairs.countP fun pair => pair.2.isKept dropped := by
  induction pairs generalizing received with
  | nil => exact ⟨rfl, rfl⟩
  | cons pair rest ih =>
    obtain ⟨severity, hseverity⟩ := Option.isSome_iff_exists.1 (hknown pair List.mem_cons_self)
    rw [ParseTree.deliver, hseverity]
    obtain ⟨hok, hcount⟩ := ih (fun other hother => hknown other (List.mem_cons_of_mem _ hother))
      (sink.add ⟨severity, some pair.1.subject, Text.lineOfLocation pair.2.location, pair.2.text⟩ received)
    refine ⟨hok, hcount.trans ?_⟩
    rw [h.count, h.count, h.add, List.countP_cons]
    by_cases hdropped : severity ∈ dropped
    · simp [Message.isKept, hseverity, hdropped]
    · simp [Message.isKept, hseverity, hdropped]
      omega

theorem Sink.Records.recorded_deliver (h : sink.Records [] recorded) (pairs : List (Element × Message))
    (hknown : ∀ pair ∈ pairs, pair.2.IsKnown) (received : σ) :
    ∃ delivered, pairs.map (fun pair => ParseTree.diagnosticOn? pair.1 pair.2) = delivered.map some ∧
      recorded (ParseTree.deliver sink pairs received).2 = recorded received ++ delivered := by
  induction pairs generalizing received with
  | nil => exact ⟨[], rfl, (List.append_nil _).symm⟩
  | cons pair rest ih =>
    obtain ⟨severity, hseverity⟩ := Option.isSome_iff_exists.1 (hknown pair List.mem_cons_self)
    let first : Diagnostic := ⟨severity, some pair.1.subject, Text.lineOfLocation pair.2.location, pair.2.text⟩
    have hfirst : ParseTree.diagnosticOn? pair.1 pair.2 = some first := by
      rw [ParseTree.diagnosticOn?, hseverity, Option.map_some]
    obtain ⟨delivered, hdelivered, hrecorded⟩ :=
      ih (fun other hother => hknown other (List.mem_cons_of_mem _ hother)) (sink.add first received)
    refine ⟨first :: delivered, by rw [List.map_cons, List.map_cons, hfirst, hdelivered], ?_⟩
    rw [ParseTree.deliver, hseverity]
    refine hrecorded.trans ?_
    rw [h.add, if_neg List.not_mem_nil, List.append_assoc, List.singleton_append]

theorem ParseTree.Linked.addressed_perm {tree : ParseTree} (h : tree.Linked) {e : Element} (he : tree.toElement = .ok e)
    (messages : List Message) : ((addressed e messages).map Prod.snd).Perm messages := by
  rw [(eq_copy_of_toElement he).1, h.addressed_eq, List.map_map]
  simp only [Function.comp_def, List.map_id']
  exact List.mergeSort_perm _ _

/-- If all severities are known, the result stands or falls with the messages that are kept. -/
theorem accountFor_deliver (h : sink.Records dropped recorded) (hknown : ∀ message ∈ messages, message.IsKnown)
    {pairs : List (Element × Message)} (hperm : (pairs.map Prod.snd).Perm messages) (e : Element) (received : σ) :
    (accountFor sink received messages ((ParseTree.deliver sink pairs received).1.map fun _ => e,
      (ParseTree.deliver sink pairs received).2)).1 =
        if messages.countP (·.isKept dropped) = messages.length then .ok e
        else .error (.lostDiagnostics messages.length (messages.countP (·.isKept dropped))) := by
  obtain ⟨hok, hcount⟩ := h.deliver pairs
    (fun pair hpair => hknown pair.2 (hperm.mem_iff.1 (List.mem_map_of_mem hpair))) received
  have hkept : (pairs.countP fun pair => pair.2.isKept dropped) = messages.countP (·.isKept dropped) := by
    rw [← hperm.countP_eq, List.countP_map]
    rfl
  rw [hok, Except.map, accountFor_ok, hcount, hkept, Nat.add_sub_cancel_left]

theorem accountFor_deliver_of_known (h : sink.Records [] recorded) (hknown : ∀ message ∈ messages, message.IsKnown)
    {pairs : List (Element × Message)} (hperm : (pairs.map Prod.snd).Perm messages) (e : Element) (received : σ) :
    (accountFor sink received messages ((ParseTree.deliver sink pairs received).1.map fun _ => e,
      (ParseTree.deliver sink pairs received).2)).1 = .ok e := by
  rw [accountFor_deliver h hknown hperm, if_pos]
  exact List.countP_eq_length.2 fun message hmessage => Message.isKept_nil (hknown message hmessage)

theorem accountFor_deliver_of_unknown (sink : Sink σ) (hunknown : ¬∀ message ∈ messages, message.IsKnown)
    {pairs : List (Element × Message)} (hperm : (pairs.map Prod.snd).Perm messages) (e : Element) (received : σ) :
    ∃ code text, (accountFor sink received messages ((ParseTree.deliver sink pairs received).1.map fun _ => e,
      (ParseTree.deliver sink pairs received).2)).1 = .error (.unknownSeverity code text) := by
  obtain ⟨message, hmessage, hcode⟩ : ∃ message ∈ messages, ¬message.IsKnown := by simpa using hunknown
  obtain ⟨pair, hpair, rfl⟩ := List.mem_map.1 (hperm.mem_iff.2 hmessage)
  have hfound : (pairs.find? fun pair => (Severity.ofCode? pair.2.severityCode).isNone).isSome = true :=
    List.find?_isSome.2 ⟨pair, hpair, by simpa [Message.IsKnown] using hcode⟩
  obtain ⟨first, hfirst⟩ := Option.isSome_iff_exists.1 hfound
  refine ⟨first.2.severityCode, first.2.text, ?_⟩
  rw [deliver_fst, hfirst, Option.elim_some, Except.map, accountFor_error]

/-! ### Runs -/

variable {parser : Parser ε} {request : ParseRequest} {state : ε} {received : σ}

/-- The messages that a run has to account for, unless it gives up a tree: what was reported on the source, and with a tree also what the parser's own checks have made of that. -/
def ParseRequest.reported (request : ParseRequest) (parser : Parser ε) (state : ε) : Option (List Message) :=
  match parser.parse request state with
  | ((none, messages), _) => some messages
  | ((some tree, messages), next) =>
    if (request.prepare messages tree).problems = [] then
      some (parser.checkSyntax (request.prepare messages tree) messages next).1
    else none

/-- A run that gives up no tree ends with the account of a delivery, in which every message occurs once. -/
theorem exists_result_eq (sink : Sink σ) (hbuilds : parser.Builds) (h : request.reported parser state = some messages)
    (received : σ) :
    ∃ e pairs, (pairs.map Prod.snd).Perm messages ∧ (parseSource parser sink request state received).result =
      (accountFor sink received messages ((ParseTree.deliver sink pairs received).1.map fun _ => e,
        (ParseTree.deliver sink pairs received).2)).1 := by
  rcases hparse : parser.parse request state with ⟨⟨parsed, first⟩, next⟩
  rw [ParseRequest.reported, hparse] at h
  cases parsed with
  | none =>
    obtain rfl := Option.some.inj h
    refine ⟨request.emptyFile, first.map (request.emptyFile, ·), ?_, ?_⟩
    · simp [Function.comp_def]
    · rw [parseSource_of_none hparse]
  | some tree =>
    have hbuilt : tree.Built := hbuilds request state tree (by rw [hparse])
    by_cases hsound : (request.prepare first tree).problems = []
    · obtain rfl : (parser.checkSyntax (request.prepare first tree) first next).1 = messages := by
        simpa [hsound] using h
      obtain ⟨e, he, hconvert⟩ := exists_convert_eq sink hsound
        (parser.checkSyntax (request.prepare first tree) first next).1 received
      refine ⟨e, _, (ParseRequest.linked_prepare hbuilt request first).addressed_perm he _, ?_⟩
      rw [parseSource_of_some hparse, convertChecked_of_sound hsound]
      dsimp only
      rw [hconvert]
    · simp [hsound] at h

theorem isUnsound_of_reported_eq_none (sink : Sink σ) (h : request.reported parser state = none) (received : σ) :
    ∃ count first, (parseSource parser sink request state received).result = .error (.unsoundTree count first) := by
  rcases hparse : parser.parse request state with ⟨⟨parsed, messages⟩, next⟩
  rw [ParseRequest.reported, hparse] at h
  cases parsed with
  | none => simp at h
  | some tree =>
    obtain ⟨found, others, hproblems⟩ :=
      List.exists_cons_of_ne_nil (show (request.prepare messages tree).problems ≠ [] by simpa using h)
    exact ⟨_, _, parseSource_eq_unsoundTree_iff.2 ⟨tree, messages, by rw [hparse], found, others, hproblems, rfl, rfl⟩⟩

/-- With a sink that drops certain severities, a run that gives up no tree and meets no unknown severity gives an element if and only if it meets no dropped severity either. Otherwise diagnostics have been lost, and it says how many messages there were and how many of them were kept, whatever the sink held before. With a sink that drops nothing no run loses diagnostics. -/
theorem parseSource_accounts (hsink : sink.Records dropped recorded) (hbuilds : parser.Builds) (request : ParseRequest)
    (state : ε) (received : σ) :
    let run := parseSource parser sink request state received
    (∀ messages, request.reported parser state = some messages → (∀ message ∈ messages, message.IsKnown) →
      ((∃ e, run.result = .ok e) ↔ ∀ message ∈ messages, message.isKept dropped = true) ∧
      ((∃ message ∈ messages, message.isKept dropped = false) →
        run.result = .error (.lostDiagnostics messages.length (messages.countP (·.isKept dropped))))) ∧
    (dropped = [] → ∀ reported delivered, run.result ≠ .error (.lostDiagnostics reported delivered)) := by
  dsimp only
  constructor
  · intro messages hreported hknown
    obtain ⟨e, pairs, hperm, hresult⟩ := exists_result_eq sink hbuilds hreported received
    rw [hresult, accountFor_deliver hsink hknown hperm]
    constructor
    · rw [← List.countP_eq_length]
      split_ifs with hkept <;> simp [hkept]
    · rintro ⟨message, hmessage, hlost⟩
      rw [if_neg]
      intro hkept
      rw [List.countP_eq_length.1 hkept message hmessage] at hlost
      cases hlost
  · rintro rfl count delivered hlost
    cases hreported : request.reported parser state with
    | none =>
      obtain ⟨_, _, hresult⟩ := isUnsound_of_reported_eq_none sink hreported received
      rw [hresult] at hlost
      cases hlost
    | some messages =>
      obtain ⟨e, pairs, hperm, hresult⟩ := exists_result_eq sink hbuilds hreported received
      rw [hresult] at hlost
      by_cases hknown : ∀ message ∈ messages, message.IsKnown
      · rw [accountFor_deliver_of_known hsink hknown hperm] at hlost
        cases hlost
      · obtain ⟨_, _, hended⟩ := accountFor_deliver_of_unknown sink hknown hperm e received
        rw [hended] at hlost
        cases hlost

/-- An outline with an attribute that is warned about and a line that has no place. -/
def strayLine : ParseRequest := ⟨.ned, .text "ned-file bogus=1\n  nonsense", "a.ned", {}⟩

/-- The warning is lost on a sink that drops warnings, and the error is not; what the sink held before is not counted. -/
theorem parseSource_accounts_strayLine :
    (Collector.sinkDropping [.warning]).Records [.warning] Collector.diagnostics ∧
      (Outline.parser (fun _ => .error "") none).Builds ∧
      (parseSource (Outline.parser (fun _ => .error "") none) (Collector.sinkDropping [.warning]) strayLine ⟨0⟩
        ⟨[⟨.info, none, 1, "read"⟩]⟩).result = .error (.lostDiagnostics 2 1) := by
  have hsink := Collector.records_sinkDropping [.warning]
  have hbuilds := Outline.builds_outlines (fun _ => .error "") none
  have hreported : strayLine.reported (Outline.parser (fun _ => .error "") none) ⟨0⟩ =
      some [⟨some 0, "a.ned:1", 2, "unknown attribute 'bogus' ignored"⟩,
        ⟨none, "a.ned:2", 1, "syntax error: unknown element 'nonsense'"⟩] := by decide +kernel
  have hlost := (parseSource_accounts hsink hbuilds strayLine ⟨0⟩ ⟨[⟨.info, none, 1, "read"⟩]⟩).1 _ hreported
    (by simp only [Message.IsKnown]; decide)
  exact ⟨hsink, hbuilds, hlost.2 ⟨_, List.mem_cons_self, by decide⟩⟩

end NedCheck
