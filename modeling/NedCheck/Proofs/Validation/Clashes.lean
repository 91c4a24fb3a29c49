import NedCheck.Proofs.Validation.SubmoduleTypes
import NedCheck.Proofs.Validation.Uses

/-!
# Names that are taken

The parameters, gates and submodules that a type declares share one set of names. The first declaration of a name keeps it, and every other one is reported with the place of the first, in whatever section either of them stands. `Names` follows a single name through a stretch of a walk: it says which element has the name after it, and what is reported on those that come too late. A declaration adds itself, everything else adds nothing, and stretches are put together one after another. Of a submodule that comes too late nothing but its name is left out: its type is looked up and its body is validated as that of any other.
-/

namespace NedCheck

variable {σ : Type}

/-! ### One name -/

/-- Whether the problem is that the name is already defined. -/
def Problem.isClash (name : String) : Problem → Bool
  | .alreadyDefined defined _ => defined = name
  | _ => false

/-- What there is to report on declarations of a name, one after another, of which the first one keeps it unless another element has it before. -/
def clashes (name : String) : Option Element → List Element → List Report
  | some holder, es => es.map fun e => ⟨e, .alreadyDefined name holder.describeLocation⟩
  | none, [] => []
  | none, first :: others => others.map fun e => ⟨e, .alreadyDefined name first.describeLocation⟩

theorem clashes_nil (name : String) (holder : Option Element) : clashes name holder [] = [] := by
  cases holder <;> rfl

theorem clashes_append (name : String) (holder : Option Element) (left right : List Element) :
    clashes name holder (left ++ right) = clashes name holder left ++ clashes name (holder.or left.head?) right := by
  cases holder with
  | some first => exact List.map_append
  | none =>
    cases left with
    | nil => rfl
    | cons first others => exact List.map_append

/-- The element that has the name in the scope. -/
def Scope.holder? (scope : Scope) (name : String) : Option Element := (scope.members.get? name).map (·.element)

/-- Between the two scopes the elements declare the name, one after another, and the reports are those of this stretch of the walk. -/
structure Names (name : String) (es : List Element) (before after : Scope) (reports : List Report) : Prop where
  holder : after.holder? name = (before.holder? name).or es.head?
  reports : reports.filter (·.problem.isClash name) = clashes name (before.holder? name) es

namespace Names

variable {name : String} {es others : List Element} {before between after : Scope} {reports more : List Report}

theorem quiet (hmembers : after.members = before.members)
    (hreports : ∀ report ∈ reports, report.problem.isClash name = false) : Names name [] before after reports := by
  refine ⟨?_, ?_⟩
  · rw [Scope.holder?, hmembers, List.head?_nil, Option.or_none]
    rfl
  · rw [clashes_nil, List.filter_eq_nil_iff]
    intro report hreport
    simp [hreports report hreport]

theorem trans (hleft : Names name es before between reports) (hright : Names name others between after more) :
    Names name (es ++ others) before after (reports ++ more) := by
  refine ⟨?_, ?_⟩
  · rw [hright.holder, hleft.holder, Option.or_assoc, List.head?_append]
  · rw [List.filter_append, hleft.reports, hright.reports, hleft.holder, clashes_append]

theorem append_quiet (h : Names name es before after reports)
    (hmore : ∀ report ∈ more, report.problem.isClash name = false) : Names name es before after (reports ++ more) := by
  simpa using h.trans (.quiet rfl hmore)

theorem declare (name : String) (scope : Scope) (e : Element) (owner : String) :
    match scope.declare e owner with
    | .ok declared => Names name ([e].filter (·.name = name)) scope declared []
    | .error problem => Names name ([e].filter (·.name = name)) scope scope [⟨e, problem⟩] := by
  by_cases hname : e.name = name
  · subst hname
    rw [List.filter_cons_of_pos (by simp), List.filter_nil]
    unfold Scope.declare
    cases hmember : scope.members.get? e.name with
    | some existing =>
      refine ⟨?_, ?_⟩
      · simp [Scope.holder?, hmember]
      · simp [Scope.holder?, hmember, clashes, Problem.isClash]
    | none =>
      refine ⟨?_, ?_⟩
      · simp [Scope.holder?, hmember, Scope.addMember, Table.get?_insert]
      · simp [Scope.holder?, hmember, clashes]
  · rw [List.filter_cons_of_neg (by simpa using hname), List.filter_nil]
    unfold Scope.declare
    cases scope.members.get? e.name with
    | some existing => exact .quiet rfl (by simp [Problem.isClash, hname])
    | none =>
      refine ⟨?_, ?_⟩
      · simp [Scope.holder?, Scope.addMember, Table.get?_insert, hname]
      · simp [clashes_nil]

end Names

/-! ### Rules that take no names -/

namespace Scope

variable {scope : Scope} {e : Element} {problem : Problem}

theorem isClash_of_assignParam (h : scope.assignParam e = .reject problem) (name : String) :
    problem.isClash name = false := by
  unfold assignParam at h
  grind [Problem.isClash]

theorem isClash_of_useGate (h : scope.useGate e = .reject problem) (name : String) : problem.isClash name = false := by
  unfold useGate gateDeclaration at h
  grind [Problem.isClash]

theorem isClash_of_judgeParam {frame : Frame} {outer : List Frame} (hframes : scope.frames = frame :: outer)
    (hbody : frame.body ≠ .type) (h : scope.judgeParam e = .reject problem) (name : String) :
    problem.isClash name = false := by
  unfold judgeParam at h
  split_ifs at h
  · exact isClash_of_assignParam h name
  · rw [hframes] at h
    cases frame with
    | type opened => exact absurd rfl hbody
    | submodule | channelSpec =>
      obtain rfl := Decision.reject.inj h
      rfl

theorem isClash_of_judgeGate {frame : Frame} {outer : List Frame} (hframes : scope.frames = frame :: outer)
    (hbody : frame.body = .submodule) (h : scope.judgeGate e = .reject problem) (name : String) :
    problem.isClash name = false := by
  unfold judgeGate at h
  split_ifs at h
  · exact isClash_of_useGate h name
  · rw [hframes] at h
    cases frame with
    | submodule =>
      obtain rfl := Decision.reject.inj h
      rfl
    | type | channelSpec => simp [Frame.body] at hbody

end Scope

namespace Validator

variable {v : Validator σ} {e : Element} {session : Session} {state : σ} {frame : Frame} {outer : List Frame}

theorem isClash_of_mem_hookReports {found : Option String} {report : Report} (h : report ∈ hookReports e found)
    (name : String) : report.problem.isClash name = false := by
  obtain ⟨message, -, rfl⟩ := List.mem_map.1 h
  rfl

theorem isClash_of_mem_decided {decision : Decision} {report : Report}
    (h : report ∈ (decided e session state decision).reports) {name : String}
    (hreject : ∀ problem, decision = .reject problem → problem.isClash name = false) :
    report.problem.isClash name = false := by
  cases decision with
  | fault fault => exact absurd h List.not_mem_nil
  | reject problem =>
    rw [List.mem_singleton.1 h]
    exact hreject problem rfl
  | accept scope => exact absurd h List.not_mem_nil

theorem isClash_of_mem_enter (hframes : session.scope.frames = frame :: outer)
    (hcalm : frame.body.isCalm e.tag = true) {report : Report} (h : report ∈ (v.enter e session state).reports)
    (name : String) : report.problem.isClash name = false := by
  have hnever (tag : Tag) (hnot : ∀ body ∈ Body.all, body.isCalm tag = false) : e.tag ≠ tag :=
    Body.ne_of_isCalm hcalm hnot
  unfold enter at h
  split at h <;> rename_i htag
  · exact absurd htag (hnever _ (by decide))
  · unfold enterImport at h
    grind [isClash_of_mem_hookReports, Problem.isClash]
  · exact absurd htag (hnever _ (by decide))
  · unfold enterInterfaceName at h
    grind [isClash_of_mem_hookReports, Problem.isClash]
  iterate 5 exact absurd htag (hnever _ (by decide))
  · have hbody : frame.body ≠ .type := Body.ne_type_of_isCalm_param (htag ▸ hcalm)
    exact isClash_of_mem_decided h fun problem hreject => Scope.isClash_of_judgeParam hframes hbody hreject name
  · have hbody : frame.body = .submodule := Body.eq_submodule_of_isCalm_gate (htag ▸ hcalm)
    exact isClash_of_mem_decided h fun problem hreject => Scope.isClash_of_judgeGate hframes hbody hreject name
  · exact absurd htag (hnever _ (by decide))
  · exact absurd htag (hnever _ (by decide))
  · unfold enterConnection at h
    grind [Problem.isClash]
  · unfold enterChannelSpec channelType at h
    grind [Problem.isClash]
  all_goals exact absurd h List.not_mem_nil

variable {point next start : Point σ}

theorem Step.calm (h : v.Step point next) (hplaced : point.element.Placed)
    (hframes : point.session.scope.frames = frame :: outer) (hcalm : frame.body.isCalm point.element.tag = true) :
    ∃ inside around, next.session.scope.frames = inside :: around ∧ inside.body.isCalm next.element.tag = true := by
  obtain ⟨-, hverdict⟩ := calm_enter (v := v) hframes hplaced.known hcalm point.state
  have hallowed := hplaced.children _ h.mem_children
  rcases h.frames_cases with ⟨hkind, hsame⟩ | ⟨inside, hkind, hinside⟩ | ⟨owner, hkind, -⟩
  · rw [rulingAt] at hkind
    rw [hkind] at hverdict
    exact ⟨frame, outer, hsame.trans hframes, hverdict _ hallowed⟩
  · rw [rulingAt] at hkind
    rw [hkind] at hverdict
    exact ⟨inside, _, hinside, hverdict.2 _ hallowed⟩
  · rw [rulingAt] at hkind
    rw [hkind] at hverdict
    exact absurd hverdict id

theorem Visits.calm (h : v.Visits start point) (hplaced : start.element.Placed)
    (hframes : start.session.scope.frames = frame :: outer) (hcalm : frame.body.isCalm start.element.tag = true) :
    ∃ inside around, point.session.scope.frames = inside :: around ∧ inside.body.isCalm point.element.tag = true := by
  induction h with
  | refl => exact ⟨frame, outer, hframes, hcalm⟩
  | tail hvisits hstep ih =>
    obtain ⟨inside, around, hinside, hstill⟩ := ih
    exact hstep.calm (hplaced.below (Visits.mem_descendants hvisits)) hinside hstill

/-- A walk over such an element takes no name either, and leaves all that have one. -/
theorem names_calm (hplaced : e.Placed) (hframes : session.scope.frames = frame :: outer)
    (hcalm : frame.body.isCalm e.tag = true) (name : String) (state : σ) :
    Names name [] session.scope (v.validate e session state).session.scope (v.validate e session state).reports := by
  refine .quiet (by rw [scope_validate_eq hplaced hframes hcalm]) fun report hreport => ?_
  rw [reports_eq] at hreport
  obtain ⟨point, hpoint, hreport⟩ := List.mem_flatMap.1 hreport
  obtain ⟨inside, around, hinside, hstill⟩ := (mem_trace_iff.1 hpoint).calm hplaced hframes hcalm
  exact isClash_of_mem_enter hinside hstill hreport name

/-! ### Declarations -/

section Declarations

variable {opened : OpenType} {name : String}

theorem names_of_use (hidle : ∀ child ∈ e.children, child.Idle) {decision : Decision}
    (henter : v.enter e session state = decided e session state decision)
    (hreject : ∀ problem, decision = .reject problem → problem.isClash name = false)
    (haccept : ∀ scope, decision = .accept scope → scope = session.scope) :
    Names name [] session.scope (v.validate e session state).session.scope (v.validate e session state).reports := by
  rw [validate_of_decided hidle henter]
  cases decision with
  | fault fault => exact .quiet rfl (by simp [Decision.outcome])
  | reject problem =>
    have hquiet : problem.isClash name = false := hreject problem rfl
    exact .quiet rfl (by simp [Decision.outcome, hquiet])
  | accept scope =>
    obtain rfl := haccept scope rfl
    exact .quiet rfl (by simp [Decision.outcome])

theorem names_of_declare (name : String) (hidle : ∀ child ∈ e.children, child.Idle) {owner : String}
    (henter : v.enter e session state = decided e session state (.ofExcept (session.scope.declare e owner))) :
    Names name ([e].filter (·.name = name)) session.scope (v.validate e session state).session.scope
      (v.validate e session state).reports := by
  have hdeclare := Names.declare name session.scope e owner
  rw [validate_of_decided hidle henter]
  cases hfound : session.scope.declare e owner with
  | error problem =>
    rw [hfound] at hdeclare
    exact hdeclare
  | ok declared =>
    rw [hfound] at hdeclare
    exact hdeclare

theorem names_judged (hplaced : e.Placed) (htag : e.tag = .param ∨ e.tag = .gate)
    (hframes : session.scope.frames = .type opened :: outer) :
    Names name ([e].filter fun d => d.isDeclaration && d.name = name) session.scope
      (v.validate e session state).session.scope (v.validate e session state).reports := by
  have hidle := hplaced.idle_children (.inr htag)
  have hdeclaration : e.isDeclaration = e.isTyped := by
    rcases htag with htag | htag <;> simp [Element.isDeclaration, Element.isTyped, htag]
  cases htyped : e.isTyped with
  | true =>
    have henter : v.enter e session state =
        decided e session state (.ofExcept (session.scope.declare e opened.qualifiedName)) := by
      rcases htag with htag | htag
      · rw [enter, htag, ← Scope.judgeParam_of_typed htag htyped hframes]
      · rw [enter, htag, ← Scope.judgeGate_of_typed htag htyped hframes]
    simpa [List.filter_singleton, hdeclaration, htyped] using names_of_declare name hidle henter
  | false =>
    rw [List.filter_singleton, hdeclaration, htyped]
    rcases htag with htag | htag
    · have huse : e.paramType = .unspecified := by
        simpa [Element.isTyped_of_param htag] using htyped
      have henter : v.enter e session state = decided e session state (session.scope.assignParam e) := by
        have hjudge : session.scope.judgeParam e = session.scope.assignParam e := by
          rw [Scope.judgeParam, if_pos huse]
        rw [enter, htag, ← hjudge]
      have hquiet (problem : Problem) (h : session.scope.assignParam e = .reject problem) : problem.isClash name = false :=
        Scope.isClash_of_assignParam h name
      exact names_of_use hidle henter hquiet fun scope => Scope.eq_of_assignParam
    · have huse : e.gateType = .unspecified := by
        simpa [Element.isTyped_of_gate htag] using htyped
      have henter : v.enter e session state = decided e session state (session.scope.useGate e) := by
        have hjudge : session.scope.judgeGate e = session.scope.useGate e := by
          rw [Scope.judgeGate, if_pos huse]
        rw [enter, htag, ← hjudge]
      have hquiet (problem : Problem) (h : session.scope.useGate e = .reject problem) : problem.isClash name = false :=
        Scope.isClash_of_useGate h name
      exact names_of_use hidle henter hquiet fun scope => Scope.eq_of_useGate

theorem names_validateAll (named : Element → List Element) {frames : List Frame} {children : List Element}
    (h : ∀ child ∈ children, ∀ session state, session.scope.frames = frames →
      (v.validate child session state).fault = none →
      Names name (named child) session.scope (v.validate child session state).session.scope
        (v.validate child session state).reports)
    (hframes : session.scope.frames = frames) (hfault : (v.validateAll children session state).fault = none) :
    Names name (children.flatMap named) session.scope (v.validateAll children session state).session.scope
      (v.validateAll children session state).reports := by
  induction children generalizing session state with
  | nil =>
    rw [validateAll]
    exact .quiet rfl (by simp)
  | cons child rest ih =>
    cases hchild : (v.validate child session state).fault with
    | some fault => simp [validateAll_cons_of_some hchild, hchild] at hfault
    | none =>
      rw [validateAll_cons_of_none hchild] at hfault ⊢
      have hrestores := v.restores_validate child session state
      have hfirst := h child (by simp) session state hframes hchild
      have hlater := ih (fun other hother => h other (by simp [hother])) (hrestores.frames.trans hframes) hfault
      exact hfirst.trans hlater

theorem isClash_of_submoduleType? {context : LookupContext} {problem : Problem}
    (h : (v.submoduleType? e context state).1 = some (.error problem)) (name : String) : problem.isClash name = false := by
  unfold submoduleType? at h
  grind [Problem.isClash]

theorem names_enterSubmodule (hframes : session.scope.frames = .type opened :: outer) (name : String) (state : σ) :
    Names name ([e].filter (·.name = name)) session.scope (v.enterSubmodule e session state).session.scope
      (v.enterSubmodule e session state).reports := by
  have hdeclare := Names.declare name session.scope e opened.qualifiedName
  unfold enterSubmodule
  rw [Scope.currentType?_eq hframes]
  dsimp only
  cases hdeclared : session.scope.declare e opened.qualifiedName
  all_goals
    rw [hdeclared] at hdeclare
    rcases hfound : v.submoduleType? e (.type opened.qualifiedName) state with ⟨_ | problem | info, next⟩
    · exact hdeclare
    · have hquiet : problem.isClash name = false := isClash_of_submoduleType? (by rw [hfound]) name
      exact hdeclare.append_quiet (by simpa using hquiet)
    · exact hdeclare

theorem validate_submodule (htag : e.tag = .submodule) (hframes : session.scope.frames = .type opened :: outer)
    (hfault : (v.validate e session state).fault = none) {ruling : Ruling σ}
    (hruling : v.enterSubmodule e session state = ruling) {frame : Frame}
    (hframe : frame = .submodule e (v.submoduleInfo? e (.type opened.qualifiedName) state)) :
    ruling.verdict = .within frame ∧ v.validate e session state =
      ((v.validateAll e.children (ruling.session.enter frame) ruling.state).leave frame).after ruling.reports := by
  have henter : v.enter e session state = ruling := by rw [enter, htag, ← hruling]
  have hverdict : (∃ fault, ruling.verdict = .fault fault) ∨ ruling.verdict = .within frame := by
    subst hruling hframe
    unfold enterSubmodule submoduleInfo?
    rw [Scope.currentType?_eq hframes]
    dsimp only
    rcases v.submoduleType? e (.type opened.qualifiedName) state with ⟨_ | problem | info, next⟩
    · exact .inl ⟨_, rfl⟩
    · exact .inr rfl
    · exact .inr rfl
  rcases hverdict with ⟨fault, hverdict⟩ | hverdict
  · have hends : (v.validate e session state).fault = some fault :=
      fault_eq_some_iff.2 ⟨_, .refl, by rw [rulingAt, henter, hverdict]⟩
    simp [hends] at hfault
  · refine ⟨hverdict, ?_⟩
    rw [validate_eq, henter, Ruling.follow, hverdict]

/-- The body of a submodule takes no name, whether or not the submodule has come into scope. -/
theorem names_submodule (hplaced : e.Placed) (htag : e.tag = .submodule)
    (hframes : session.scope.frames = .type opened :: outer) (hfault : (v.validate e session state).fault = none) :
    Names name ([e].filter fun d => d.isDeclaration && d.name = name) session.scope
      (v.validate e session state).session.scope (v.validate e session state).reports := by
  have hnamed : [e].filter (fun d => d.isDeclaration && d.name = name) = [e].filter (·.name = name) := by
    simp [Element.isDeclaration, List.filter_singleton, htag]
  have hentered := names_enterSubmodule (v := v) (e := e) hframes name state
  have hkept : (v.enterSubmodule e session state).session.scope.frames = session.scope.frames :=
    (v.keeps_enterSubmodule e session state).frames
  obtain ⟨-, hbody⟩ := validate_submodule htag hframes hfault rfl rfl
  rw [hbody] at hfault ⊢
  -- what stands in the body is calm there
  have hbelow : Names name (e.children.flatMap fun _ => []) _ _ _ := names_validateAll _ ?_ (Session.enter_frames _ _) hfault
  · rw [List.flatMap_eq_nil_iff.2 fun _ _ => rfl] at hbelow
    rw [hnamed, ← List.append_nil ([e].filter _)]
    exact hentered.trans ⟨hbelow.holder, hbelow.reports⟩
  · intro child hchild session state hinside _
    have hallowed := hplaced.children child hchild
    rw [htag] at hallowed
    exact names_calm (hplaced.child hchild) hinside (Body.isCalm_of_mem_submodule hallowed) name state

theorem names_declaration (hplaced : e.Placed) (hframes : session.scope.frames = .type opened :: outer)
    (htag : e.tag = .param ∨ e.tag = .gate ∨ e.tag = .submodule ∨ Body.type.isCalm e.tag = true)
    (hfault : (v.validate e session state).fault = none) :
    Names name ([e].filter fun d => d.isDeclaration && d.name = name) session.scope
      (v.validate e session state).session.scope (v.validate e session state).reports := by
  rcases htag with htag | htag | htag | hcalm
  · exact names_judged hplaced (.inl htag) hframes
  · exact names_judged hplaced (.inr htag) hframes
  · exact names_submodule hplaced htag hframes hfault
  · have hnone := Element.isDeclaration_of_isCalm hcalm
    simpa [List.filter_singleton, hnone] using names_calm hplaced hframes hcalm name state

theorem names_part {type : Tag} (htype : type.isTypeDeclaration = true) (hplaced : e.Placed)
    (hallowed : e.tag ∈ type.allowedChildren) (hown : e.tag ≠ .extendsName ∧ e.tag ≠ .types)
    (hframes : session.scope.frames = .type opened :: outer) (hfault : (v.validate e session state).fault = none) :
    Names name (e.sectionDeclarations.filter (·.name = name)) session.scope (v.validate e session state).session.scope
      (v.validate e session state).reports := by
  rcases Tag.part_cases htype hallowed with htag | htag | htag | hcalm
  · exact absurd htag hown.1
  · exact absurd htag hown.2
  · have hnamed : e.sectionDeclarations.filter (·.name = name) =
        e.children.flatMap fun child => [child].filter fun d => d.isDeclaration && d.name = name := by
      rw [hplaced.sectionDeclarations_eq htag, ← List.filter_flatMap, List.flatMap_singleton', List.filter_filter]
      simp [Bool.and_comm]
    rw [validate_eq, v.enter_section htag] at hfault ⊢
    rw [hnamed]
    refine names_validateAll _ (fun child hchild session state hframes hfault => ?_) hframes hfault
    have hkind := Tag.member_cases htag (hplaced.children child hchild)
    exact names_declaration (hplaced.child hchild) hframes hkind hfault
  · rw [(Element.sectionDeclarations_of_isCalm hcalm).2.2]
    exact names_calm hplaced hframes hcalm name state

end Declarations

/-! ### Types -/

theorem names_body {type : Element} (htype : type.tag.isTypeDeclaration = true) (hplaced : type.Placed)
    (hown : ∀ part ∈ type.children, part.tag ≠ .extendsName ∧ part.tag ≠ .types) {opened : OpenType}
    (hframes : session.scope.frames = .type opened :: outer)
    (hfault : (v.validateAll type.children session state).fault = none) (name : String) :
    Names name ((type.children.flatMap (·.sectionDeclarations)).filter (·.name = name)) session.scope
      (v.validateAll type.children session state).session.scope (v.validateAll type.children session state).reports := by
  rw [List.filter_flatMap]
  refine names_validateAll _ (fun part hpart session state hframes hfault => ?_) hframes hfault
  exact names_part htype (hplaced.child hpart) (hplaced.children part hpart) (hown part hpart) hframes hfault

theorem validate_type (htype : e.tag.isTypeDeclaration = true) (hfault : (v.validate e session state).fault = none)
    {frame : Frame} (hframe : frame = .type ⟨e, session.qualifiedName e.name, session.context⟩) :
    (v.enter e session state).verdict = .within frame ∧
      v.validate e session state = (v.validateAll e.children (session.enter frame) state).leave frame := by
  have henter : v.enter e session state = enterType e session state := enter_eq_enterType htype session state
  rw [validate_eq, henter] at hfault ⊢
  unfold enterType at hfault ⊢
  split_ifs at hfault ⊢
  · simp [Ruling.follow] at hfault
  · subst hframe
    exact ⟨rfl, rfl⟩

/-- The walk comes to the submodule and validates all of its body, against the type that it is found to have inside of the owner, and what it reports there is reported. -/
def ChecksBody (v : Validator σ) (start : Point σ) (owner : String) (submodule : Element) : Prop :=
  ∃ point frame, v.Visits start point ∧ point.element = submodule ∧
    frame = .submodule submodule (v.submoduleInfo? submodule (.type owner) point.state) ∧
    (v.rulingAt point).verdict = .within frame ∧
    (v.outcomeAt point).reports = (v.rulingAt point).reports ++
      (v.validateAll submodule.children ((v.rulingAt point).session.enter frame) (v.rulingAt point).state).reports ∧
    (v.outcomeAt point).reports <:+: (v.outcomeAt start).reports ∧
    ∀ child ∈ submodule.children, ∃ next, v.Step point next ∧ next.element = child

theorem checksBody_of_mem (htype : e.tag.isTypeDeclaration = true) (hfault : (v.validate e session state).fault = none)
    {submodule : Element} (hsubmodule : submodule ∈ e.children.flatMap (·.sectionDeclarations))
    (htag : submodule.tag = .submodule) :
    v.ChecksBody ⟨e, session, state⟩ (session.qualifiedName e.name) submodule := by
  obtain ⟨part, hpart, hmember⟩ := List.mem_flatMap.1 hsubmodule
  have hsection : part.tag = .submodules ∧ submodule ∈ part.children := by
    unfold Element.sectionDeclarations at hmember
    grind [Element.isParamDeclaration, Element.isGateDeclaration, Tag.isTypeDeclaration, Element.childrenWithTag]
  obtain ⟨hverdict, -⟩ := validate_type htype hfault rfl
  have hstart : (v.outcomeAt ⟨e, session, state⟩).fault = none := hfault
  obtain ⟨inside, hinside, rfl⟩ := exists_step hstart (.inr ⟨_, hverdict⟩) hpart
  have hinsideFault : (v.outcomeAt inside).fault = none := hinside.part.fault hfault
  have hdescend : (v.rulingAt inside).verdict = .descend := by rw [rulingAt, enter, hsection.1]
  obtain ⟨point, hpoint, rfl⟩ := exists_step hinsideFault (.inl hdescend) hsection.2
  have hpointFault : (v.outcomeAt point).fault = none := hpoint.part.fault hinsideFault
  have hframes : point.session.scope.frames = .type _ :: session.scope.frames :=
    (hpoint.frames_of_descend hdescend).trans (hinside.frames_of_within hverdict)
  have hruling : v.enterSubmodule point.element point.session point.state = v.rulingAt point := by
    rw [rulingAt, enter, htag]
  obtain ⟨hentered, houtcome⟩ := validate_submodule htag hframes hpointFault hruling rfl
  have hvisits : v.Visits ⟨e, session, state⟩ point := .tail (.single hinside) hpoint
  refine ⟨point, _, hvisits, rfl, rfl, hentered, ?_, hvisits.part.reports, ?_⟩
  · rw [outcomeAt, houtcome]
    rfl
  · exact fun child hchild => exists_step hpointFault (.inr ⟨_, hentered⟩) hchild

/-- In a type that has no bases, no inner types and nothing unknown in it, and is validated without a fault: of the parameters and gates with a type and the submodules that have a name in common, whatever sections they stand in, all but the first are reported, one after another, each once and with the place of the first one, and that is all there is of such reports. The bodies of the submodules are validated all the same. -/
theorem clashes_of_type (v : Validator σ) {type : Element} (htype : type.tag.isTypeDeclaration = true)
    (hsound : (ParseTree.ofElement type).isSound = true) (hknown : ∀ e ∈ type.descendants, e.tag ≠ .unknown)
    (hown : ∀ part ∈ type.children, part.tag ≠ .extendsName ∧ part.tag ≠ .types) (session : Session) (state : σ)
    (hfault : (v.validate type session state).fault = none) :
    let declarations := type.children.flatMap (·.sectionDeclarations)
    let reports := (v.validate type session state).reports
    (∀ name, (reports.filter (·.problem.isClash name)).length = (declarations.filter (·.name = name)).length - 1 ∧
      ∀ first others, declarations.filter (·.name = name) = first :: others →
        reports.filter (·.problem.isClash name) =
          others.map fun e => ⟨e, .alreadyDefined name first.describeLocation⟩) ∧
    ∀ e ∈ declarations, e.tag = .submodule →
      v.ChecksBody ⟨type, session, state⟩ (session.qualifiedName type.name) e := by
  intro declarations reports
  have hplaced : type.Placed := (ParseTree.isSound_ofElement_iff.1 hsound).placed hknown
  obtain ⟨-, houtcome⟩ := validate_type htype hfault rfl
  have hreports (name : String) :
      reports.filter (·.problem.isClash name) = clashes name none (declarations.filter (·.name = name)) := by
    have hbody : (v.validateAll type.children (session.enter _) state).fault = none := houtcome ▸ hfault
    have hnames := names_body htype hplaced hown (Session.enter_frames _ _) hbody name
    rw [show reports = (v.validateAll type.children (session.enter _) state).reports from congrArg (·.reports) houtcome]
    exact hnames.reports
  refine ⟨fun name => ?_, fun e he htag => checksBody_of_mem htype hfault he htag⟩
  rw [hreports name]
  cases declarations.filter (·.name = name) with
  | nil => exact ⟨rfl, fun first others h => by simp at h⟩
  | cons first others =>
    refine ⟨by simp [clashes], ?_⟩
    intro found rest h
    obtain ⟨rfl, rfl⟩ := List.cons.inj h
    rfl

/-! ### Three of a name -/

def tripleSubmodule : Element :=
  let parameters : Element :=
    { Element.new .parameters with children := [⟨3, .param, .fill _ ["", "false", "x"], [], none, {}⟩] }
  ⟨2, .submodule, .fill _ ["a", "Missing"], [parameters], none, {}⟩

/-- A module with a parameter, a gate and a submodule of one name. There is no type of the submodule, and its body assigns a parameter. -/
def tripleModule : Element :=
  let parameters : Element :=
    { Element.new .parameters with children := [⟨0, .param, .fill _ ["int", "false", "a"], [], some "net.ned:2", {}⟩] }
  let gates : Element := { Element.new .gates with children := [⟨1, .gate, .fill _ ["a", "input"], [], none, {}⟩] }
  let submodules : Element := { Element.new .submodules with children := [tripleSubmodule] }
  ⟨4, .compoundModule, .fill _ ["Net"], [parameters, gates, submodules], none, {}⟩

/-- Two of the three are reported, with the place of the parameter, and the body of the submodule is validated as well. -/
theorem clashes_of_type_tripleModule :
    let v := standard TypeIndex.resolver "p"
    let reports := (v.validate tripleModule .initial .empty).reports
    (reports.filter (·.problem.isClash "a")).map (·.diagnostic.message) =
        ["'a': already defined at net.ned:2", "'a': already defined at net.ned:2"] ∧
      v.ChecksBody ⟨tripleModule, .initial, .empty⟩ "Net" tripleSubmodule ∧
      (reports.any (·.problem = .paramOfUnknownSubmodule)) = true := by
  intro v reports
  have htype : tripleModule.tag.isTypeDeclaration = true := rfl
  have hown : ∀ part ∈ tripleModule.children, part.tag ≠ .extendsName ∧ part.tag ≠ .types := by decide
  have hfault : (v.validate tripleModule .initial .empty).fault = none := by decide +kernel
  obtain ⟨hclashes, hbodies⟩ :=
    clashes_of_type v htype (by decide +kernel) (by decide +kernel) hown .initial .empty hfault
  refine ⟨?_, hbodies tripleSubmodule (.tail _ (.tail _ (.head _))) rfl, by decide +kernel⟩
  rw [(hclashes "a").2 _ _ rfl]
  decide +kernel

end Validator

end NedCheck
