import Mathlib.Data.Set.Insert
import NedCheck.Proofs.Table
import NedCheck.Proofs.Validation.Clean
import NedCheck.TypeIndex.Lookup

/-!
# How a type gets its members

The member table of a type that is validated without a finding, told from the children of its declaration. What is inherited, parameters, gates and submodules only ever come in under names that are new, or else there is a report. Inner types are not looked at that way: they take their names over from whatever has them.
-/

namespace NedCheck

/-! ### Tables -/

/-- After is before with the entries of `added` under new names, except that the entries of `inner` have taken over their names. -/
structure Filled (before after : Table String Member) (added inner : Set (String × Member)) : Prop where
  outside (entry : String × Member) : (∀ other ∈ inner, other.1 ≠ entry.1) →
    (entry ∈ after.entries ↔ entry ∈ before.entries ∨ entry ∈ added)
  inside : (∀ entry ∈ inner, ∀ other ∈ inner, entry.1 = other.1 → entry = other) →
    ∀ entry ∈ inner, entry ∈ after.entries

namespace Filled

variable {before between after : Table String Member} {added inner more within : Set (String × Member)}

theorem refl (table : Table String Member) : Filled table table ∅ ∅ :=
  ⟨fun entry _ => by simp, fun _ entry hentry => absurd hentry (Set.notMem_empty entry)⟩

theorem trans (hleft : Filled before between added inner) (hright : Filled between after more within) :
    Filled before after (added ∪ more) (inner ∪ within) := by
  refine ⟨?_, ?_⟩
  · intro entry hother
    rw [hright.outside entry fun other h => hother other (.inr h),
      hleft.outside entry fun other h => hother other (.inl h), Set.mem_union, or_assoc]
  · intro hunique entry hentry
    have hwithin := hright.inside fun entry h other h' => hunique entry (.inr h) other (.inr h')
    rcases hentry with hentry | hentry
    -- an entry of the first step loses its name only to one of the second, which is the same entry
    · have hbetween := hleft.inside (fun entry h other h' => hunique entry (.inl h) other (.inl h')) entry hentry
      by_cases htaken : ∃ other ∈ within, other.1 = entry.1
      · obtain ⟨other, hother, hname⟩ := htaken
        rw [hunique entry (.inl hentry) other (.inr hother) hname.symm]
        exact hwithin other hother
      · push Not at htaken
        exact (hright.outside entry htaken).2 (.inl hbetween)
    · exact hwithin entry hentry

theorem congr (h : Filled before after added inner) (hadded : ∀ entry, entry ∈ more ↔ entry ∈ added)
    (hinner : ∀ entry, entry ∈ within ↔ entry ∈ inner) : Filled before after more within := by
  rwa [Set.ext hadded, Set.ext hinner]

theorem insert_new {table : Table String Member} {name : String} (hnew : table.get? name = none) (member : Member) :
    Filled table (table.insert name member) {(name, member)} ∅ := by
  refine ⟨?_, fun _ entry hentry => absurd hentry (Set.notMem_empty entry)⟩
  intro entry _
  rw [Table.mem_entries_insert, Set.mem_singleton_iff, or_comm]
  refine or_congr_left ⟨And.right, fun hentry => ⟨?_, hentry⟩⟩
  rintro rfl
  exact Table.get?_eq_none_iff.1 hnew (List.mem_map_of_mem hentry)

theorem insert_inner (table : Table String Member) (name : String) (member : Member) :
    Filled table (table.insert name member) ∅ {(name, member)} := by
  refine ⟨?_, ?_⟩
  · intro entry hother
    have hname : name ≠ entry.1 := hother (name, member) rfl
    rw [Table.mem_entries_insert]
    refine ⟨?_, ?_⟩
    · rintro (rfl | ⟨-, hentry⟩)
      · exact absurd rfl hname
      · exact .inl hentry
    · rintro (hentry | hentry)
      · exact .inr ⟨hname, hentry⟩
      · exact absurd hentry (Set.notMem_empty entry)
  · rintro - entry rfl
    exact Table.mem_entries_insert.2 (.inl rfl)

theorem insertAll {table base : Table String Member} (hnew : ∀ name ∈ base.keys, name ∉ table.keys) :
    Filled table (table.insertAll base.entries) {entry | entry ∈ base.entries} ∅ := by
  refine ⟨?_, fun _ entry hentry => absurd hentry (Set.notMem_empty entry)⟩
  intro entry _
  have hfirsts : firsts base.entries = base.entries := firsts_eq_self base.nodup
  rw [Table.entries_insertAll, hfirsts, List.mem_append, List.mem_filter]
  refine or_congr_right ⟨And.left, fun hentry => ⟨hentry, ?_⟩⟩
  exact decide_eq_true (hnew _ (List.mem_map_of_mem hentry))

end Filled

variable {σ : Type}

/-! ### Declarations in a tree -/

/-- Parameters and gates that are declared and not used, and submodules. -/
def Element.isDeclaration (e : Element) : Bool := e.isParamDeclaration || e.isGateDeclaration || e.tag = .submodule

namespace Element

variable {e : Element}

theorem isDeclaration_of_isCalm (hcalm : Body.type.isCalm e.tag = true) : e.isDeclaration = false := by
  have hnot : e.tag ≠ .param ∧ e.tag ≠ .gate ∧ e.tag ≠ .submodule := by
    refine ⟨?_, ?_, ?_⟩ <;> intro htag <;> rw [htag] at hcalm <;> exact absurd hcalm (by decide)
  simp [isDeclaration, isParamDeclaration, isGateDeclaration, hnot]

theorem Placed.sectionDeclarations_eq (h : e.Placed) (htag : e.tag = .parameters ∨ e.tag = .gates ∨ e.tag = .submodules) :
    e.sectionDeclarations = e.children.filter (·.isDeclaration) := by
  have hparameters : ∀ tag ∈ Tag.parameters.allowedChildren, tag ≠ .gate ∧ tag ≠ .submodule := by decide
  have hgates : ∀ tag ∈ Tag.gates.allowedChildren, tag ≠ .param ∧ tag ≠ .submodule := by decide
  have hsubmodules : ∀ tag ∈ Tag.submodules.allowedChildren, tag ≠ .param ∧ tag ≠ .gate := by decide
  have hkind := h.children
  rcases htag with htag | htag | htag <;> rw [htag] at hkind <;>
    simp only [sectionDeclarations, htag, childrenWithTag] <;>
    refine List.filter_congr fun d hd => ?_
  · simp [isDeclaration, isGateDeclaration, hparameters _ (hkind d hd)]
  · simp [isDeclaration, isParamDeclaration, hgates _ (hkind d hd)]
  · simp [isDeclaration, isParamDeclaration, isGateDeclaration, hsubmodules _ (hkind d hd)]

theorem sectionDeclarations_of_isCalm (hcalm : Body.type.isCalm e.tag = true) :
    e.tag ≠ .extendsName ∧ e.tag ≠ .types ∧ e.sectionDeclarations = [] := by
  have all : ∀ tag ∈ [Tag.extendsName, .types, .parameters, .gates, .submodules], Body.type.isCalm tag = false := by
    decide
  have hnot : ∀ tag ∈ [Tag.extendsName, .types, .parameters, .gates, .submodules], e.tag ≠ tag := by
    intro tag htag heq
    rw [heq, all tag htag] at hcalm
    exact Bool.false_ne_true hcalm
  refine ⟨hnot _ (by simp), hnot _ (by simp), ?_⟩
  unfold sectionDeclarations
  split
  iterate 4 exact absurd ‹_› (hnot _ (by simp))
  rfl

end Element

namespace Tag

/-- Directly inside of a type there are its header, inner types, the sections that have members, and what declares nothing. -/
theorem part_cases {type part : Tag} (htype : type.isTypeDeclaration = true) (hpart : part ∈ type.allowedChildren) :
    part = .extendsName ∨ part = .types ∨ (part = .parameters ∨ part = .gates ∨ part = .submodules) ∨
      Body.type.isCalm part = true := by
  have all : ∀ type ∈ Tag.all, type.isTypeDeclaration = true → ∀ part ∈ type.allowedChildren,
      part = .extendsName ∨ part = .types ∨ (part = .parameters ∨ part = .gates ∨ part = .submodules) ∨
        Body.type.isCalm part = true := by decide
  exact all type (mem_all type) htype part hpart

theorem member_cases {part tag : Tag} (hpart : part = .parameters ∨ part = .gates ∨ part = .submodules)
    (htag : tag ∈ part.allowedChildren) :
    tag = .param ∨ tag = .gate ∨ tag = .submodule ∨ Body.type.isCalm tag = true := by
  have all : ∀ part ∈ [Tag.parameters, .gates, .submodules], ∀ tag ∈ part.allowedChildren,
      tag = .param ∨ tag = .gate ∨ tag = .submodule ∨ Body.type.isCalm tag = true := by decide
  exact all part (by simpa using hpart) tag htag

end Tag

namespace Scope

theorem eq_of_declare {scope declared : Scope} {e : Element} {owner : String}
    (h : scope.declare e owner = .ok declared) :
    scope.members.get? e.name = none ∧ declared = scope.addMember e.name ⟨e, owner⟩ := by
  unfold declare at h
  cases hmember : scope.members.get? e.name with
  | some existing => simp [hmember] at h
  | none =>
    rw [hmember] at h
    exact ⟨rfl, (Except.ok.inj h).symm⟩

theorem filled_of_declare {scope declared : Scope} {e : Element} {owner : String}
    (h : scope.declare e owner = .ok declared) :
    Filled scope.members declared.members {(e.name, ⟨e, owner⟩)} ∅ := by
  obtain ⟨hnew, rfl⟩ := eq_of_declare h
  exact .insert_new hnew _

theorem filled_of_use {scope judged : Scope} {e : Element} {owner : String} {use : Scope → Decision}
    (huse : ∀ {scope used}, use scope = .accept used → used = scope)
    (h : (match scope.declare e owner with
      | .error problem => .reject problem
      | .ok scope => use scope) = Decision.accept judged) :
    Filled scope.members judged.members {(e.name, ⟨e, owner⟩)} ∅ := by
  cases hdeclare : scope.declare e owner with
  | error problem => simp [hdeclare] at h
  | ok declared =>
    rw [hdeclare] at h
    rw [huse h]
    exact filled_of_declare hdeclare

variable {scope judged : Scope} {opened : OpenType} {outer : List Frame} (hframes : scope.frames = .type opened :: outer)

include hframes

theorem filled_of_judgeParam {param : Element} (htag : param.tag = .param)
    (h : scope.judgeParam param = .accept judged) :
    Filled scope.members judged.members
      {entry | param.isParamDeclaration = true ∧ entry = (param.name, ⟨param, opened.qualifiedName⟩)} ∅ := by
  unfold judgeParam at h
  by_cases huse : param.paramType = .unspecified
  · rw [if_pos huse] at h
    rw [eq_of_assignParam h]
    exact (Filled.refl _).congr (by simp [Element.isParamDeclaration, huse]) fun _ => Iff.rfl
  · simp only [if_neg huse, hframes, currentType?_eq hframes] at h
    exact (filled_of_use eq_of_assignParam h).congr (by simp [Element.isParamDeclaration, huse, htag]) fun _ => Iff.rfl

theorem filled_of_judgeGate {gate : Element} (htag : gate.tag = .gate) (h : scope.judgeGate gate = .accept judged) :
    Filled scope.members judged.members
      {entry | gate.isGateDeclaration = true ∧ entry = (gate.name, ⟨gate, opened.qualifiedName⟩)} ∅ := by
  unfold judgeGate at h
  by_cases huse : gate.gateType = .unspecified
  · rw [if_pos huse] at h
    rw [eq_of_useGate h]
    exact (Filled.refl _).congr (by simp [Element.isGateDeclaration, huse]) fun _ => Iff.rfl
  · simp only [if_neg huse, hframes, currentType?_eq hframes] at h
    exact (filled_of_use eq_of_useGate h).congr (by simp [Element.isGateDeclaration, huse, htag]) fun _ => Iff.rfl

end Scope

namespace Validator

variable {v : Validator σ} {e : Element} {session : Session} {state : σ} {opened : OpenType} {outer : List Frame}
  {added inner : Set (String × Member)}

/-! ### Declarations -/

section Declarations

theorem filled_calm (hplaced : e.Placed) (hframes : session.scope.frames = .type opened :: outer)
    (hcalm : Body.type.isCalm e.tag = true) :
    Filled session.scope.members (v.validate e session state).session.scope.members ∅ ∅ := by
  rw [scope_validate_eq hplaced hframes hcalm]
  exact .refl _

variable (hplaced : e.Placed) (hframes : session.scope.frames = .type opened :: outer)
  (hclean : (v.validate e session state).Clean)

include hplaced hframes hclean

theorem filled_decided (decision : Decision) (henter : v.enter e session state = decided e session state decision)
    (hcalm : ∀ child ∈ e.tag.allowedChildren, Body.type.isCalm child = true)
    (hjudge : ∀ scope, decision = .accept scope →
      scope.frames = session.scope.frames ∧ Filled session.scope.members scope.members added inner) :
    Filled session.scope.members (v.validate e session state).session.scope.members added inner := by
  rw [validate_eq, henter] at hclean ⊢
  obtain ⟨hreports, hbelow, heq⟩ := hclean.follow
  rw [heq]
  cases decision with
  | fault fault => exact absurd hbelow.fault (by simp [Ruling.below, decided])
  | reject problem => exact absurd hreports (by simp [decided])
  | accept scope =>
    obtain ⟨hscope, hfilled⟩ := hjudge scope rfl
    have hjudged : (session.withScope scope).scope.frames = .type opened :: outer := hscope.trans hframes
    dsimp only [decided, Ruling.below] at hbelow ⊢
    rw [scope_validateAll_children_eq hplaced hjudged hcalm]
    exact hfilled

theorem filled_param (htag : e.tag = .param) :
    Filled session.scope.members (v.validate e session state).session.scope.members
      {entry | e.isParamDeclaration = true ∧ entry = (e.name, ⟨e, opened.qualifiedName⟩)} ∅ := by
  refine filled_decided hplaced hframes hclean (session.scope.judgeParam e) ?_ ?_ ?_
  · rw [enter, htag]
  · rw [htag]
    decide
  · exact fun scope h => ⟨Scope.judgeParam_frames h, Scope.filled_of_judgeParam hframes htag h⟩

theorem filled_gate (htag : e.tag = .gate) :
    Filled session.scope.members (v.validate e session state).session.scope.members
      {entry | e.isGateDeclaration = true ∧ entry = (e.name, ⟨e, opened.qualifiedName⟩)} ∅ := by
  refine filled_decided hplaced hframes hclean (session.scope.judgeGate e) ?_ ?_ ?_
  · rw [enter, htag]
  · rw [htag]
    decide
  · exact fun scope h => ⟨Scope.judgeGate_frames h, Scope.filled_of_judgeGate hframes htag h⟩

/-- Nothing that stands in the body of a submodule is a member of the type around it. -/
theorem filled_submodule (htag : e.tag = .submodule) :
    Filled session.scope.members (v.validate e session state).session.scope.members
      {(e.name, ⟨e, opened.qualifiedName⟩)} ∅ := by
  have hcalm : ∀ child ∈ e.tag.allowedChildren, Body.submodule.isCalm child = true := by
    rw [htag]
    exact fun child => Body.isCalm_of_mem_submodule
  rw [validate_eq, enter, htag] at hclean ⊢
  obtain ⟨hreports, hbelow, heq⟩ := hclean.follow
  rw [heq]
  dsimp only [enterSubmodule] at hreports hbelow ⊢
  rw [Scope.currentType?_eq hframes] at hreports hbelow ⊢
  cases hdeclare : session.scope.declare e opened.qualifiedName with
  | error problem =>
    simp only [hdeclare] at hreports
    split at hreports <;> simp at hreports
  | ok declared =>
    simp only [hdeclare] at hreports hbelow ⊢
    split at hreports
    · rename_i found
      exact absurd hbelow.fault (by simp [Ruling.below, found])
    · rename_i info after found
      simp only [found, Ruling.below] at hbelow ⊢
      have hentered : ((session.withScope declared).enter (.submodule e (some info))).scope.frames =
          .submodule e (some info) :: .type opened :: outer := by
        rw [Session.enter_frames]
        exact congrArg _ ((Scope.declare_frames hdeclare).trans hframes)
      have hchildren := scope_validateAll_children_eq (v := v) hplaced hentered hcalm after
      show Filled _ (v.validateAll e.children _ after).session.scope.pop.members _ _
      rw [hchildren]
      exact Scope.filled_of_declare hdeclare
    · simp at hreports

theorem filled_extends (htag : e.tag = .extendsName) :
    ∃ base, (v.resolver.lookupType e.name opened.headerContext state).1 = some base ∧
      base.tag = opened.element.tag ∧
      Filled session.scope.members (v.validate e session state).session.scope.members
        {entry | entry ∈ base.members.entries} ∅ := by
  have hcalm : ∀ child ∈ e.tag.allowedChildren, Body.type.isCalm child = true := by
    rw [htag]
    decide
  rw [validate_eq, enter, htag] at hclean ⊢
  obtain ⟨hreports, hbelow, heq⟩ := hclean.follow
  rw [heq]
  dsimp only [enterExtends] at hreports hbelow ⊢
  rw [Scope.currentType?_eq hframes] at hreports hbelow ⊢
  dsimp only at hreports hbelow ⊢
  cases hlookup : v.resolver.lookupType e.name opened.headerContext state with
  | mk found after =>
    rw [hlookup] at hreports hbelow
    cases found with
    | none => simp at hreports
    | some base =>
      dsimp only at hreports hbelow ⊢
      by_cases hkind : base.tag ≠ opened.element.tag
      · simp [if_pos hkind] at hreports
      · rw [if_neg hkind] at hreports hbelow ⊢
        refine ⟨base, rfl, not_not.1 hkind, ?_⟩
        -- every member of the base under a name that is taken would be a report
        have hconflicts := List.map_eq_nil_iff.1 (List.append_eq_nil_iff.1 hreports).2
        have hinherited : (session.withScope (session.scope.inherit base)).scope.frames = .type opened :: outer :=
          hframes
        dsimp only [Ruling.below] at hbelow ⊢
        rw [scope_validateAll_children_eq hplaced hinherited hcalm]
        apply Filled.insertAll
        intro name hname htaken
        have hconflict : name ∈ session.scope.conflicts base :=
          List.mem_filter.2 ⟨hname, Table.contains_iff.2 htaken⟩
        rw [hconflicts] at hconflict
        exact absurd hconflict List.not_mem_nil

end Declarations

/-! ### Sections -/

theorem filled_validateAll (added inner : Element → Set (String × Member)) {frames : List Frame} {start : σ}
    {children : List Element}
    (h : ∀ child ∈ children, ∀ session state, session.scope.frames = frames → v.resolver.Reaches start state →
      (v.validate child session state).Clean →
      Filled session.scope.members (v.validate child session state).session.scope.members (added child) (inner child))
    (hframes : session.scope.frames = frames) (hreaches : v.resolver.Reaches start state)
    (hclean : (v.validateAll children session state).Clean) :
    Filled session.scope.members (v.validateAll children session state).session.scope.members
      {entry | ∃ child ∈ children, entry ∈ added child} {entry | ∃ child ∈ children, entry ∈ inner child} := by
  induction children generalizing session state with
  | nil =>
    rw [validateAll]
    exact (Filled.refl _).congr (by simp) (by simp)
  | cons child rest ih =>
    rw [validateAll] at hclean ⊢
    obtain ⟨hchild, hrest, heq⟩ := hclean.andThen
    have hrestores := v.restores_validate child session state
    have hfirst := h child (by simp) session state hframes hreaches hchild
    have hlater := ih (fun other hother => h other (by simp [hother])) (hrestores.frames.trans hframes)
      (hreaches.trans hrestores.reaches) hrest
    rw [heq]
    exact (hfirst.trans hlater).congr (by simp) (by simp)

theorem registerInner_members (v : Validator σ) (owner : String) (e : Element) (session : Session) (state : σ) :
    (v.registerInner owner e session state).1.scope.members = session.scope.members.insert e.name ⟨e, owner⟩ := by
  unfold registerInner
  dsimp only
  cases (v.resolver.lookupType e.name (.type owner) state).1 <;> rfl

theorem filled_validateInner {owner : String} {children : List Element}
    (hclean : (v.validateInner owner children session state).Clean) :
    Filled session.scope.members (v.validateInner owner children session state).session.scope.members ∅
      {entry | ∃ child ∈ children, child.tag.isTypeDeclaration = true ∧ entry = (child.name, ⟨child, owner⟩)} := by
  induction children generalizing session state with
  | nil =>
    rw [validateInner]
    exact (Filled.refl _).congr (by simp) (by simp)
  | cons child rest ih =>
    rw [validateInner] at hclean ⊢
    by_cases htype : child.tag.isTypeDeclaration = true
    · rw [if_pos htype] at hclean ⊢
      obtain ⟨-, hrest, heq⟩ := hclean.andThen
      rw [heq]
      dsimp only at hrest ⊢
      have hmembers := v.registerInner_members owner child session (v.validate child (session.inner owner) state).state
      cases hregister : v.registerInner owner child session (v.validate child (session.inner owner) state).state with
      | mk registered after =>
        rw [hregister] at hmembers hrest
        have hfirst := Filled.insert_inner session.scope.members child.name ⟨child, owner⟩
        rw [← hmembers] at hfirst
        exact (hfirst.trans (ih hrest)).congr (by simp) (by simp [htype])
    · rw [if_neg htype] at hclean ⊢
      exact (ih hclean).congr (by simp) (by simp [htype])

theorem filled_declaration (hplaced : e.Placed) (hframes : session.scope.frames = .type opened :: outer)
    (hclean : (v.validate e session state).Clean)
    (htag : e.tag = .param ∨ e.tag = .gate ∨ e.tag = .submodule ∨ Body.type.isCalm e.tag = true) :
    Filled session.scope.members (v.validate e session state).session.scope.members
      {entry | e.isDeclaration = true ∧ entry = (e.name, ⟨e, opened.qualifiedName⟩)} ∅ := by
  rcases htag with htag | htag | htag | hcalm
  · refine (filled_param hplaced hframes hclean htag).congr (fun entry => ?_) fun _ => Iff.rfl
    simp [Element.isDeclaration, Element.isParamDeclaration, Element.isGateDeclaration, htag]
  · refine (filled_gate hplaced hframes hclean htag).congr (fun entry => ?_) fun _ => Iff.rfl
    simp [Element.isDeclaration, Element.isParamDeclaration, Element.isGateDeclaration, htag]
  · refine (filled_submodule hplaced hframes hclean htag).congr (fun entry => ?_) fun _ => Iff.rfl
    simp [Element.isDeclaration, htag]
  · refine (filled_calm hplaced hframes hcalm).congr (fun entry => ?_) fun _ => Iff.rfl
    simp [Element.isDeclaration_of_isCalm hcalm]

theorem enter_section (v : Validator σ) (htag : e.tag = .parameters ∨ e.tag = .gates ∨ e.tag = .submodules)
    (session : Session) (state : σ) : v.enter e session state = ⟨[], session, state, .descend⟩ := by
  rcases htag with htag | htag | htag <;> rw [enter, htag]

theorem filled_section (hplaced : e.Placed) (hframes : session.scope.frames = .type opened :: outer)
    (hclean : (v.validate e session state).Clean)
    (htag : e.tag = .parameters ∨ e.tag = .gates ∨ e.tag = .submodules) :
    Filled session.scope.members (v.validate e session state).session.scope.members
      {entry | ∃ d ∈ e.sectionDeclarations, entry = (d.name, ⟨d, opened.qualifiedName⟩)} ∅ := by
  rw [validate_eq, v.enter_section htag] at hclean ⊢
  obtain ⟨-, hbelow, heq⟩ := hclean.follow
  rw [heq]
  dsimp only [Ruling.below] at hbelow ⊢
  have hchildren := filled_validateAll
    (fun child => {entry | child.isDeclaration = true ∧ entry = (child.name, ⟨child, opened.qualifiedName⟩)})
    (fun _ => ∅) ?_ hframes (.refl state) hbelow
  · refine hchildren.congr (fun entry => ?_) (by simp)
    simp [hplaced.sectionDeclarations_eq htag, and_assoc]
  · intro child hchild session state hframes _ hclean
    have hkind := Tag.member_cases htag (hplaced.children child hchild)
    exact filled_declaration (hplaced.child hchild) hframes hclean hkind

theorem filled_types (hframes : session.scope.frames = .type opened :: outer)
    (hclean : (v.validate e session state).Clean) (htag : e.tag = .types) :
    Filled session.scope.members (v.validate e session state).session.scope.members ∅
      {entry | ∃ d ∈ e.sectionDeclarations, entry = (d.name, ⟨d, opened.qualifiedName⟩)} := by
  have henter : v.enter e session state = ⟨[], session, state, .innerTypes opened.qualifiedName⟩ := by
    rw [enter, htag]
    dsimp only [enterTypes]
    rw [Scope.currentType?_eq hframes]
  rw [validate_eq, henter] at hclean ⊢
  obtain ⟨-, hbelow, heq⟩ := hclean.follow
  rw [heq]
  refine (filled_validateInner hbelow).congr (fun _ => Iff.rfl) fun entry => ?_
  simp [Element.sectionDeclarations, htag, and_assoc]

/-! ### Types -/

/-- What a child of a type declaration brings in under new names. The members of a base are what the resolver answers, if the base is of the same kind. -/
def brings (base? : Element → Option TypeInfo) (opened : OpenType) (part : Element) : Set (String × Member) :=
  {entry | part.tag = .extendsName ∧
      (∃ base, base? part = some base ∧ base.tag = opened.element.tag ∧ entry ∈ base.members.entries) ∨
    part.tag ≠ .types ∧ ∃ d ∈ part.sectionDeclarations, entry = (d.name, ⟨d, opened.qualifiedName⟩)}

/-- What it brings in under names that may be taken. -/
def bringsInner (opened : OpenType) (part : Element) : Set (String × Member) :=
  {entry | part.tag = .types ∧ ∃ d ∈ part.sectionDeclarations, entry = (d.name, ⟨d, opened.qualifiedName⟩)}

theorem filled_part {base? : Element → Option TypeInfo} {type : Tag} (htype : type.isTypeDeclaration = true)
    (hplaced : e.Placed) (hallowed : e.tag ∈ type.allowedChildren)
    (hbase : e.tag = .extendsName → ∀ base, (v.resolver.lookupType e.name opened.headerContext state).1 = some base →
      base.tag = opened.element.tag → base? e = some base)
    (hframes : session.scope.frames = .type opened :: outer) (hclean : (v.validate e session state).Clean) :
    Filled session.scope.members (v.validate e session state).session.scope.members
      (brings base? opened e) (bringsInner opened e) := by
  rcases Tag.part_cases htype hallowed with htag | htag | htag | hcalm
  · obtain ⟨base, hlookup, hkind, hfilled⟩ := filled_extends hplaced hframes hclean htag
    have hanswer : base? e = some base := hbase htag base hlookup hkind
    refine hfilled.congr (fun entry => ?_) (by simp [bringsInner, htag])
    simp [brings, htag, hanswer, hkind, Element.sectionDeclarations]
  · exact (filled_types hframes hclean htag).congr (by simp [brings, htag]) (by simp [bringsInner, htag])
  · have hnot : e.tag ≠ .extendsName ∧ e.tag ≠ .types := by
      rcases htag with htag | htag | htag <;> simp [htag]
    exact (filled_section hplaced hframes hclean htag).congr (by simp [brings, hnot]) (by simp [bringsInner, hnot])
  · have hnone := Element.sectionDeclarations_of_isCalm hcalm
    refine (filled_calm hplaced hframes hcalm).congr ?_ ?_
    · simp [brings, hnone]
    · simp [bringsInner, hnone]

/-- The body of a type that is validated without a finding fills the member table with what the children of its declaration bring, where `base?` is what the resolver answers on bases of its kind throughout. -/
theorem filled_body {type : Element} (htype : type.tag.isTypeDeclaration = true) (hplaced : type.Placed)
    {base? : Element → Option TypeInfo}
    (hbase : ∀ part ∈ type.children, ∀ met, v.resolver.Reaches state met → part.tag = .extendsName →
      ∀ base, (v.resolver.lookupType part.name opened.headerContext met).1 = some base →
        base.tag = opened.element.tag → base? part = some base)
    (hframes : session.scope.frames = .type opened :: outer)
    (hclean : (v.validateAll type.children session state).Clean) :
    Filled session.scope.members (v.validateAll type.children session state).session.scope.members
      {entry | ∃ part ∈ type.children, entry ∈ brings base? opened part}
      {entry | ∃ part ∈ type.children, entry ∈ bringsInner opened part} := by
  refine filled_validateAll _ _ (fun part hpart session met hframes hreaches hclean => ?_) hframes (.refl state) hclean
  have hanswer := hbase part hpart met hreaches
  exact filled_part htype (hplaced.child hpart) (hplaced.children part hpart) hanswer hframes hclean

end Validator

end NedCheck
