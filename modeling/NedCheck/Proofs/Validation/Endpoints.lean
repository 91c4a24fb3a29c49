import NedCheck.Proofs.Validation.SubmoduleTypes

/-!
# The ends of connections

An end of a connection stands for a gate, of the compound module around it or of the type of a submodule. `GateAt` says which one, and `Fits` says when it is used as it should be. There are three things to check of a gate that has been found: the index of the submodule, that of the gate, and the direction, with the form of the subgate before it. Each of them finds at most one problem, whatever the others find, and an end without problems is one that has a gate and fits it.
-/

namespace NedCheck

variable {σ : Type}

/-! ### Gates -/

/-- The arrow of a connection; a value that is no arrow counts as none given. -/
def Element.arrow (connection : Element) : Arrow := (Arrow.parse? (connection.value "arrow-direction")).getD default

namespace Validator

variable {v : Validator σ} {e : Element} {context : LookupContext} {state : σ} {info : TypeInfo}
  {members : Table String Member} {ref : EndpointRef} {submodule : Option Element} {gate : Element}

/-- The submodule is of the type: it asks for it as a type or, if it asks for none, as a like-type, and the type is of the kind that is asked for. -/
inductive HasType (v : Validator σ) (state : σ) (e : Element) (context : LookupContext) (info : TypeInfo) : Prop where
  | type : e.value "type" ≠ "" → (v.resolver.lookupType (e.value "type") context state).1 = some info →
    info.tag = .simpleModule ∨ info.tag = .compoundModule → HasType v state e context info
  | like : e.value "type" = "" → e.value "like-type" ≠ "" →
    (v.resolver.lookupType (e.value "like-type") context state).1 = some info → info.tag = .moduleInterface →
    HasType v state e context info

/-- The gate that an end stands for: one that is declared among the members in scope if the end names no submodule, and otherwise one that is declared in the type of the submodule in scope that it names. -/
inductive GateAt (v : Validator σ) (state : σ) (members : Table String Member) (ref : EndpointRef) :
    (submodule : Option Element) → (gate : Element) → Prop where
  | onParent {member : Member} : ref.submodule = "" → members.get? ref.gate = some member →
    member.isGateDeclaration = true → GateAt v state members ref none member.element
  | onSubmodule {owned member : Member} {info : TypeInfo} : ref.submodule ≠ "" →
    members.get? ref.submodule = some owned → owned.isSubmodule = true →
    v.HasType state owned.element (.type owned.owner) info → info.member? ref.gate = some member →
    member.isGateDeclaration = true → GateAt v state members ref (some owned.element) member.element

theorem submoduleInfo?_eq_some_iff :
    v.submoduleInfo? e context state = some info ↔ v.HasType state e context info := by
  rw [submoduleInfo?_eq]
  constructor
  · intro h
    split_ifs at h with htype hlike
    · obtain ⟨hlookup, hkind⟩ := Option.filter_eq_some_iff.1 h
      refine .type (by simpa using htype) hlookup ?_
      unfold Tag.isModuleType at hkind
      split at hkind <;> simp_all
    · obtain ⟨hlookup, hkind⟩ := Option.filter_eq_some_iff.1 h
      exact .like (by simpa using htype) (by simpa using hlike) hlookup (of_decide_eq_true hkind)
  · rintro (⟨htype, hlookup, hkind⟩ | ⟨htype, hlike, hlookup, hkind⟩)
    · rw [if_pos (by simpa using htype), hlookup, Option.filter_eq_some_iff]
      rcases hkind with hkind | hkind <;> exact ⟨rfl, by simp [hkind, Tag.isModuleType]⟩
    · rw [if_neg (by simp [htype]), if_pos (by simpa using hlike), hlookup, Option.filter_eq_some_iff]
      exact ⟨rfl, decide_eq_true hkind⟩

theorem GateAt.endpointGate_eq (h : v.GateAt state members ref submodule gate) :
    (v.endpointGate ref members state).1 = ((submodule.map ref.submoduleIndexProblems).getD [], .ok gate) := by
  cases h with
  | onParent hparent hmember hgate =>
    have hfound := Option.filter_eq_some_iff.2 ⟨hmember, hgate⟩
    unfold endpointGate
    rw [if_pos (by simp [EndpointRef.isOnParent, hparent]), hfound]
    rfl
  | onSubmodule hparent howned hsubmodule htype hmember hgate =>
    have hfound := Option.filter_eq_some_iff.2 ⟨howned, hsubmodule⟩
    have hdeclared := Option.filter_eq_some_iff.2 ⟨hmember, hgate⟩
    have hinfo := submoduleInfo?_eq_some_iff.2 htype
    unfold submoduleInfo? at hinfo
    unfold endpointGate
    rw [if_neg (by simp [EndpointRef.isOnParent, hparent]), hfound]
    dsimp only
    rw [hinfo, Option.bind_some, TypeInfo.gateDeclaration?, hdeclared]
    rfl

theorem exists_gateAt (h : (v.endpointGate ref members state).1.2 = .ok gate) :
    ∃ submodule, v.GateAt state members ref submodule gate := by
  by_cases hparent : ref.isOnParent = true
  · unfold endpointGate at h
    rw [if_pos hparent] at h
    cases hfound : (members.get? ref.gate).filter Member.isGateDeclaration with
    | none => simp [hfound] at h
    | some member =>
      obtain ⟨hmember, hgate⟩ := Option.filter_eq_some_iff.1 hfound
      obtain rfl : member.element = gate := by simpa [hfound] using h
      exact ⟨none, .onParent (by simpa [EndpointRef.isOnParent] using hparent) hmember hgate⟩
  · cases hfound : (members.get? ref.submodule).filter Member.isSubmodule with
    | none =>
      unfold endpointGate at h
      simp [hparent, hfound] at h
    | some owned =>
      obtain ⟨howned, hsubmodule⟩ := Option.filter_eq_some_iff.1 hfound
      rw [(endpointGate_eq v state (by simpa using hparent) hfound).1, EndpointRef.gateOf] at h
      cases hdeclared : (v.submoduleInfo? owned.element (.type owned.owner) state).bind
          (·.gateDeclaration? ref.gate) with
      | none => simp [hdeclared] at h
      | some declaration =>
        obtain rfl : declaration = gate := by simpa [hdeclared] using h
        obtain ⟨info, hinfo, hgate⟩ := Option.bind_eq_some_iff.1 hdeclared
        obtain ⟨member, hmember, rfl⟩ := Option.map_eq_some_iff.1 hgate
        obtain ⟨hmember, hgate⟩ := Option.filter_eq_some_iff.1 hmember
        exact ⟨some owned.element, .onSubmodule (by simpa [EndpointRef.isOnParent] using hparent) howned hsubmodule
          (submoduleInfo?_eq_some_iff.1 hinfo) hmember hgate⟩

theorem GateAt.gateType_ne (h : v.GateAt state members ref submodule gate) : gate.gateType ≠ .unspecified := by
  have hdeclaration : gate.isGateDeclaration = true := by
    cases h with
    | onParent _ _ hgate => exact hgate
    | onSubmodule _ _ _ _ _ hgate => exact hgate
  exact of_decide_eq_true (Bool.and_eq_true_iff.1 hdeclaration).2

end Validator

/-! ### Checks -/

/-- An index is given just where one belongs, or there is a problem: it is extra or missing. -/
inductive IndexCheck (given vector : Prop) (extra missing : EndpointProblem) : List EndpointProblem → Prop where
  | fits : (given ↔ vector) → IndexCheck given vector extra missing []
  | extra : given → ¬vector → IndexCheck given vector extra missing [extra]
  | missing : ¬given → vector → IndexCheck given vector extra missing [missing]

/-- The direction that an end needs: data enters a compound module at its own inputs and leaves a submodule at its outputs. -/
def Endpoint.direction : Endpoint → (onParent : Bool) → Arrow → GateType
  | _, _, .bidirectional => .inout
  | .source, true, _ => .input
  | .destination, false, _ => .input
  | .source, false, _ => .output
  | .destination, true, _ => .output

namespace EndpointRef

variable {ref : EndpointRef} {arrow : Arrow} {submodule : Option Element} {gate : Element}

/-- The index of the submodule, if the end is on one. -/
def SubmoduleCheck (ref : EndpointRef) (submodule : Option Element) (problems : List EndpointProblem) : Prop :=
  match submodule with
  | none => problems = []
  | some e => IndexCheck (ref.submoduleIndex ≠ "") (e.value "vector-size" ≠ "") (.extraSubmoduleIndex ref.submodule)
    (.missingSubmoduleIndex ref.submodule) problems

/-- The index of the gate, for which two plus signs may stand as well. -/
def GateCheck (ref : EndpointRef) (gate : Element) : List EndpointProblem → Prop :=
  IndexCheck (ref.plusplus = true ∨ ref.gateIndex ≠ "") (gate.isVector = true) (.extraGateIndex ref.gate)
    (.missingGateIndex ref.gate)

/-- Halves are those of gates with both directions, and the half, or else the gate, has the direction that the end needs. The direction counts only if the form is right. -/
inductive DirectionCheck (ref : EndpointRef) (arrow : Arrow) (gate : Element) : List EndpointProblem → Prop where
  | fits : (ref.subgate ≠ .whole → gate.gateType = .inout) →
    ref.actualDirection gate.gateType = ref.endpoint.direction (ref.submodule = "") arrow →
    DirectionCheck ref arrow gate []
  | subgate : ref.subgate ≠ .whole → gate.gateType ≠ .inout →
    DirectionCheck ref arrow gate [.subgateOfNonInout ref.gate gate.gateType]
  | direction : (ref.subgate ≠ .whole → gate.gateType = .inout) →
    ref.actualDirection gate.gateType ≠ ref.endpoint.direction (ref.submodule = "") arrow →
    DirectionCheck ref arrow gate [.wrongDirection (ref.endpoint.direction (ref.submodule = "") arrow) ref.gateText
      (ref.actualDirection gate.gateType)]

/-- The gate is used at the end as it should be: indices are given just where they belong, only gates with both directions are halved, and the direction is the one that the end needs. -/
structure Fits (ref : EndpointRef) (arrow : Arrow) (submodule : Option Element) (gate : Element) : Prop where
  submoduleIndex (e : Element) : submodule = some e → (ref.submoduleIndex ≠ "" ↔ e.value "vector-size" ≠ "")
  gateIndex : ref.plusplus = true ∨ ref.gateIndex ≠ "" ↔ gate.isVector = true
  subgate : ref.subgate ≠ .whole → gate.gateType = .inout
  direction : ref.actualDirection gate.gateType = ref.endpoint.direction (ref.submodule = "") arrow

end EndpointRef

theorem indexCheck (given vector : Bool) (extra missing : EndpointProblem) :
    IndexCheck (given = true) (vector = true) extra missing
      (if given && !vector then [extra] else if !given && vector then [missing] else []) := by
  cases given <;> cases vector
  · exact .fits Iff.rfl
  · exact .missing Bool.false_ne_true rfl
  · exact .extra rfl Bool.false_ne_true
  · exact .fits Iff.rfl

theorem IndexCheck.eq_nil_iff {given vector : Prop} {extra missing : EndpointProblem} {problems : List EndpointProblem}
    (h : IndexCheck given vector extra missing problems) : problems = [] ↔ (given ↔ vector) := by
  cases h with
  | fits hfits => exact ⟨fun _ => hfits, fun _ => rfl⟩
  | extra hgiven hvector => exact ⟨fun hnil => absurd hnil (by simp), fun hfits => absurd (hfits.1 hgiven) hvector⟩
  | missing hgiven hvector => exact ⟨fun hnil => absurd hnil (by simp), fun hfits => absurd (hfits.2 hvector) hgiven⟩

theorem GateType.direction_inj {left right : GateType} (hleft : left ≠ .unspecified) (hright : right ≠ .unspecified) :
    left.direction = right.direction ↔ left = right := by
  cases left <;> cases right <;> simp_all [GateType.direction]

namespace EndpointRef

variable {ref : EndpointRef} {arrow : Arrow} {submodule : Option Element} {gate : Element}

theorem submoduleCheck (ref : EndpointRef) (submodule : Option Element) :
    ref.SubmoduleCheck submodule ((submodule.map ref.submoduleIndexProblems).getD []) := by
  cases submodule with
  | none => rfl
  | some e =>
    have hcheck := indexCheck (!ref.submoduleIndex.isEmpty) (!(e.value "vector-size").isEmpty)
      (.extraSubmoduleIndex ref.submodule) (.missingSubmoduleIndex ref.submodule)
    simp only [Bool.not_eq_true', ← Bool.not_eq_true, String.isEmpty_iff] at hcheck
    exact hcheck

theorem expectedDirection_eq (ref : EndpointRef) (arrow : Arrow) :
    ref.expectedDirection arrow = ref.endpoint.direction (ref.submodule = "") arrow := by
  have hparent : ref.isOnParent = decide (ref.submodule = "") := by
    rw [Bool.eq_iff_iff]
    simp [isOnParent]
  unfold expectedDirection
  rw [hparent]
  cases arrow <;> cases ref.endpoint <;> by_cases hplace : ref.submodule = "" <;> simp [hplace, Endpoint.direction]

theorem gateCheck (ref : EndpointRef) (gate : Element) :
    ref.GateCheck gate (if ref.usesVector && !gate.isVector then [.extraGateIndex ref.gate]
      else if !ref.usesVector && gate.isVector then [.missingGateIndex ref.gate] else []) := by
  have huses : (ref.usesVector = true) = (ref.plusplus = true ∨ ref.gateIndex ≠ "") := by simp [usesVector]
  have hcheck := indexCheck ref.usesVector gate.isVector (.extraGateIndex ref.gate) (.missingGateIndex ref.gate)
  rwa [huses] at hcheck

theorem directionCheck (ref : EndpointRef) (arrow : Arrow) (hgate : gate.gateType ≠ .unspecified) :
    ref.DirectionCheck arrow gate (
      if gate.gateType ≠ .inout ∧ ref.subgate ≠ .whole then [.subgateOfNonInout ref.gate gate.gateType]
      else if (ref.actualDirection gate.gateType).direction ≠ (ref.expectedDirection arrow).direction then
        [.wrongDirection (ref.expectedDirection arrow) ref.gateText (ref.actualDirection gate.gateType)]
      else []) := by
  have hactual : ref.actualDirection gate.gateType ≠ .unspecified := by
    unfold actualDirection
    split
    · simp
    · simp
    · exact hgate
  have hexpected : ref.endpoint.direction (ref.submodule = "") arrow ≠ .unspecified := by
    unfold Endpoint.direction
    split <;> simp
  have hsame := GateType.direction_inj hactual hexpected
  rw [expectedDirection_eq]
  split_ifs with hform hdirection
  · exact .subgate hform.2 hform.1
  · exact .direction (fun hhalf => by_contra fun hinout => hform ⟨hinout, hhalf⟩) (mt hsame.2 hdirection)
  · exact .fits (fun hhalf => by_contra fun hinout => hform ⟨hinout, hhalf⟩) (hsame.1 (not_not.1 hdirection))

theorem fits_iff {indices gates directions : List EndpointProblem} (hsubmodule : ref.SubmoduleCheck submodule indices)
    (hgate : ref.GateCheck gate gates) (hdirection : ref.DirectionCheck arrow gate directions) :
    indices ++ gates ++ directions = [] ↔ ref.Fits arrow submodule gate := by
  have hindices : indices = [] ↔
      ∀ e, submodule = some e → (ref.submoduleIndex ≠ "" ↔ e.value "vector-size" ≠ "") := by
    cases submodule with
    | none => simpa [SubmoduleCheck] using hsubmodule
    | some e => simpa using IndexCheck.eq_nil_iff hsubmodule
  have hdirections : directions = [] ↔ (ref.subgate ≠ .whole → gate.gateType = .inout) ∧
      ref.actualDirection gate.gateType = ref.endpoint.direction (ref.submodule = "") arrow := by
    cases hdirection with
    | fits hform hdirection => exact iff_of_true rfl ⟨hform, hdirection⟩
    | subgate hhalf hinout => exact iff_of_false (by simp) fun hfits => hinout (hfits.1 hhalf)
    | direction hform hwrong => exact iff_of_false (by simp) fun hfits => hwrong hfits.2
  rw [List.append_eq_nil_iff, List.append_eq_nil_iff, hindices, IndexCheck.eq_nil_iff hgate, hdirections]
  exact ⟨fun ⟨⟨hindex, hgates⟩, hform, hdirection⟩ => ⟨hindex, hgates, hform, hdirection⟩,
    fun hfits => ⟨⟨hfits.submoduleIndex, hfits.gateIndex⟩, hfits.subgate, hfits.direction⟩⟩

end EndpointRef

namespace Validator

variable {v : Validator σ} {e : Element} {endpoint : Endpoint} {state : σ} {members : Table String Member}
  {submodule : Option Element} {gate : Element}

theorem endpointProblems_fst (v : Validator σ) (e : Element) (endpoint : Endpoint) (members : Table String Member)
    (state : σ) : (v.endpointProblems e endpoint members state).1 =
      (v.endpointGate (.read e endpoint) members state).1.1 ++
        match (v.endpointGate (.read e endpoint) members state).1.2 with
        | .ok declaration => (EndpointRef.read e endpoint).gateProblems e.arrow declaration
        | .error problem => [problem] :=
  rfl

/-- At an end with a gate the checks find all problems there are. -/
theorem GateAt.exists_endpointProblems_eq (h : v.GateAt state members (.read e endpoint) submodule gate) :
    ∃ indices gates directions, (v.endpointProblems e endpoint members state).1 = indices ++ gates ++ directions ∧
      (EndpointRef.read e endpoint).SubmoduleCheck submodule indices ∧ (EndpointRef.read e endpoint).GateCheck gate gates ∧
      (EndpointRef.read e endpoint).DirectionCheck e.arrow gate directions := by
  refine ⟨_, _, _, ?_, EndpointRef.submoduleCheck _ _, EndpointRef.gateCheck _ _,
    EndpointRef.directionCheck _ _ h.gateType_ne⟩
  rw [endpointProblems_fst, h.endpointGate_eq, List.append_assoc]
  rfl

theorem endpointProblems_eq_nil_iff : (v.endpointProblems e endpoint members state).1 = [] ↔
    ∃ submodule gate, v.GateAt state members (.read e endpoint) submodule gate ∧
      (EndpointRef.read e endpoint).Fits e.arrow submodule gate := by
  constructor
  · intro hnone
    cases hfound : (v.endpointGate (.read e endpoint) members state).1.2 with
    | error problem =>
      rw [endpointProblems_fst, hfound] at hnone
      simp at hnone
    | ok gate =>
      obtain ⟨submodule, hgate⟩ := exists_gateAt hfound
      obtain ⟨indices, gates, directions, hproblems, hsubmodule, hindex, hdirection⟩ := hgate.exists_endpointProblems_eq
      exact ⟨submodule, gate, hgate, (EndpointRef.fits_iff hsubmodule hindex hdirection).1 (hproblems ▸ hnone)⟩
  · rintro ⟨submodule, gate, hgate, hfits⟩
    obtain ⟨indices, gates, directions, hproblems, hsubmodule, hindex, hdirection⟩ := hgate.exists_endpointProblems_eq
    rw [hproblems, EndpointRef.fits_iff hsubmodule hindex hdirection]
    exact hfits

/-- The state of the source of types when an end is judged: the destination comes second. -/
def stateAt (v : Validator σ) (e : Element) (members : Table String Member) (state : σ) : Endpoint → σ
  | .source => state
  | .destination => (v.endpointProblems e .source members state).2

theorem enter_connection (v : Validator σ) {session : Session} {type : OpenType} (htag : e.tag = .connection)
    (htype : session.scope.currentType? = some type) (hcompound : type.element.tag = .compoundModule) (state : σ) :
    v.enter e session state =
      ⟨[Endpoint.source, .destination].flatMap fun endpoint =>
          (v.endpointProblems e endpoint session.scope.members
            (v.stateAt e session.scope.members state endpoint)).1.map fun problem => ⟨e, .badEndpoint endpoint problem⟩,
        session,
        (v.endpointProblems e .destination session.scope.members
          (v.stateAt e session.scope.members state .destination)).2, .descend⟩ := by
  simp only [enter, htag, enterConnection, htype, hcompound, ne_eq, not_true_eq_false, if_false, List.flatMap_cons,
    List.flatMap_nil, List.append_nil]
  rfl

/-- The problems of an end as they are reported. -/
def endDiagnostics (e : Element) (endpoint : Endpoint) (problems : List EndpointProblem) : List Diagnostic :=
  problems.map fun problem => .onElement .error e (endpoint.leadIn ++ problem.message)

/-- What validation reports on a connection inside of a compound module, whatever is in scope there and wherever types come from: errors on the connection, those of its source before those of its destination, and nothing that is found keeps it from going on below. An end has no error if and only if it stands for a gate and fits it. Once the gate of an end has been found, there is one error for each of the checks that fail, on the index of the submodule, on that of the gate, and on the direction, and none for the others. Each end is judged on its own: if answers about types do not depend on what has been asked before, an end has the same problems in every connection that says the same of that end and has the same arrow. -/
theorem diagnostics_connection {session : Session} {type : OpenType} (htag : e.tag = .connection)
    (htype : session.scope.currentType? = some type) (hcompound : type.element.tag = .compoundModule) (state : σ) :
    ∃ problems : Endpoint → List EndpointProblem, ∃ asked : Endpoint → σ, ∃ left : σ,
      asked .source = state ∧ v.resolver.Reaches state (asked .destination) ∧
      (v.validate e session state).diagnostics = endDiagnostics e .source (problems .source) ++
        endDiagnostics e .destination (problems .destination) ++ (v.validateAll e.children session left).diagnostics ∧
      (v.validate e session state).fault = (v.validateAll e.children session left).fault ∧
      (v.resolver.Constant → ∀ endpoint other, EndpointRef.read other endpoint = .read e endpoint →
        other.arrow = e.arrow → (v.endpointProblems other endpoint session.scope.members state).1 = problems endpoint) ∧
      ∀ endpoint,
        (problems endpoint = [] ↔ ∃ submodule gate,
          v.GateAt (asked endpoint) session.scope.members (.read e endpoint) submodule gate ∧
            (EndpointRef.read e endpoint).Fits e.arrow submodule gate) ∧
        ∀ submodule gate, v.GateAt (asked endpoint) session.scope.members (.read e endpoint) submodule gate →
          ∃ indices gates directions, problems endpoint = indices ++ gates ++ directions ∧
            (EndpointRef.read e endpoint).SubmoduleCheck submodule indices ∧
            (EndpointRef.read e endpoint).GateCheck gate gates ∧
            (EndpointRef.read e endpoint).DirectionCheck e.arrow gate directions := by
  have hruling := v.enter_connection htag htype hcompound state
  refine ⟨fun endpoint => (v.endpointProblems e endpoint session.scope.members
      (v.stateAt e session.scope.members state endpoint)).1, v.stateAt e session.scope.members state,
    (v.enter e session state).state, rfl, endpointProblems_reaches .., ?_, ?_, ?_,
    fun endpoint => ⟨endpointProblems_eq_nil_iff, fun submodule gate hgate => hgate.exists_endpointProblems_eq⟩⟩
  · rw [validate_eq, hruling]
    simp only [Ruling.follow, Outcome.after, Outcome.diagnostics, List.flatMap_cons, List.flatMap_nil, List.append_nil,
      List.map_append, List.map_map]
    rfl
  · rw [validate_eq, hruling]
    rfl
  · intro hconstant endpoint other hread harrow
    have : Nonempty σ := ⟨state⟩
    have hsame := (v.endpointProblems_asks e endpoint session.scope.members).answer_eq hconstant state
      (v.stateAt e session.scope.members state endpoint)
    refine Eq.trans ?_ hsame
    rw [endpointProblems_fst, endpointProblems_fst, hread, harrow]

/-! ### A connection from a gate of the module to a row of submodules -/

def hubIn : Element := ⟨0, .gate, .fill _ ["in", "input"], [], none, {}⟩

/-- A row of submodules `r`. -/
def hubRow : Element := ⟨0, .submodule, .fill _ ["r", "Relay", "", "", "2"], [], none, {}⟩

/-- The connection gives neither an index of the row nor one of the gates, and picks the outputs. -/
def hubLink : Element :=
  ⟨0, .connection, .fill _ ["", "", "in", "false", "", "", "r", "", "port", "false", "", "o", "l2r"], [], none, {}⟩

/-- The type of the submodules has a row of gates with both directions. -/
def hubFile : Element :=
  let gates : Element :=
    { Element.new .gates with children := [⟨0, .gate, .fill _ ["port", "inout", "true"], [], none, {}⟩] }
  let relay : Element := ⟨0, .simpleModule, .fill _ ["Relay"], [gates], none, {}⟩
  let part (tag : Tag) (e : Element) : Element := { Element.new tag with children := [e] }
  let net : Element := ⟨0, .compoundModule, .fill _ ["Net"],
    [part .gates hubIn, part .submodules hubRow, part .connections hubLink], none, {}⟩
  ⟨0, .nedFile, .fill _ ["n.ned"], [relay, net], none, {}⟩

def hubIndex : TypeIndex := TypeIndex.empty.addFile "p" hubFile

/-- What is in scope at the connection. -/
def hubScope : Scope :=
  let net : OpenType := ⟨hubFile.children.getLastD default, "Net", .file "n.ned"⟩
  ((Scope.empty.push (.type net)).addMember "in" ⟨hubIn, "Net"⟩).addMember "r" ⟨hubRow, "Net"⟩

/-- The gate at the source fits, and so all errors are those of the destination: both indices are missing, and the direction is wrong. -/
theorem diagnostics_connection_hub :
    let v : Validator TypeIndex := .standard TypeIndex.resolver "p"
    let session : Session := ⟨.file "n.ned", "", [], hubScope⟩
    (EndpointRef.read hubLink .source).Fits hubLink.arrow none hubIn ∧
      (∃ problems, (v.validate hubLink session hubIndex).diagnostics = endDiagnostics hubLink .destination problems) ∧
      (v.validate hubLink session hubIndex).diagnostics.map (·.message) =
        ["wrong destination gate: missing submodule index ('r' is a vector submodule)",
          "wrong destination gate: missing gate index ('port' is a vector gate)",
          "wrong destination gate: input gate expected but 'port$o' is an output gate"] := by
  intro v session
  have hin : hubScope.members.get? (EndpointRef.read hubLink .source).gate = some ⟨hubIn, "Net"⟩ := rfl
  have hgate : v.GateAt hubIndex hubScope.members (.read hubLink .source) none hubIn :=
    .onParent (by decide +kernel) hin (by decide +kernel)
  have hfits : (EndpointRef.read hubLink .source).Fits hubLink.arrow none hubIn :=
    ⟨by simp, by decide +kernel, by decide +kernel, by decide +kernel⟩
  have htag : hubLink.tag = .connection := rfl
  have htype : session.scope.currentType? = some ⟨hubFile.children.getLastD default, "Net", .file "n.ned"⟩ := rfl
  obtain ⟨problems, asked, left, hsource, -, hdiagnostics, -, -, hends⟩ :=
    diagnostics_connection (v := v) htag htype rfl hubIndex
  have hnone : problems .source = [] := (hends .source).1.2 ⟨none, hubIn, hsource ▸ hgate, hfits⟩
  refine ⟨hfits, ⟨problems .destination, ?_⟩, by decide +kernel⟩
  rw [hdiagnostics, hnone]
  exact List.append_nil _

end Validator

end NedCheck
