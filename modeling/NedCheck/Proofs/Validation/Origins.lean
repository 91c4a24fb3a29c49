import NedCheck.Proofs.TypeIndex.History
import NedCheck.Proofs.Validation.Invariants
import NedCheck.Proofs.Validation.MemberTable

/-!
# Where members come from

Every type starts with no members, and while the walk is in it only three things add to them: a base of the same kind hands on its own, the declaration of a member becomes one, and an inner type is entered under its name. So a submodule never comes into scope but from a declaration, and its owner is the type that this one stands in. `Scope.Rooted` says so of a scope, and a walk over a file of the index maintains it.
-/

namespace NedCheck

variable {σ : Type}

/-! ### What rules do to the members -/

namespace Scope

variable {scope judged : Scope} {e : Element}

theorem members_of_use {owner : String} {use : Scope → Decision}
    (huse : ∀ {scope used}, use scope = .accept used → used = scope)
    (h : (match scope.declare e owner with
      | .error problem => .reject problem
      | .ok scope => use scope) = Decision.accept judged) :
    judged.members = scope.members.insert e.name ⟨e, owner⟩ := by
  cases hdeclare : scope.declare e owner with
  | error problem => simp [hdeclare] at h
  | ok declared =>
    rw [hdeclare] at h
    rw [huse h, (eq_of_declare hdeclare).2]
    rfl

theorem members_of_judgeParam (h : scope.judgeParam e = .accept judged) :
    judged.members = scope.members ∨ ∃ type, scope.currentType? = some type ∧
      judged.members = scope.members.insert e.name ⟨e, type.qualifiedName⟩ := by
  unfold judgeParam at h
  by_cases huse : e.paramType = .unspecified
  · rw [if_pos huse] at h
    rw [eq_of_assignParam h]
    exact .inl rfl
  · rw [if_neg huse] at h
    split at h
    · simp at h
    · simp at h
    · split at h
      · simp at h
      · exact .inr ⟨_, ‹_›, members_of_use eq_of_assignParam h⟩

theorem members_of_judgeGate (h : scope.judgeGate e = .accept judged) :
    judged.members = scope.members ∨ ∃ type, scope.currentType? = some type ∧
      judged.members = scope.members.insert e.name ⟨e, type.qualifiedName⟩ := by
  unfold judgeGate at h
  by_cases huse : e.gateType = .unspecified
  · rw [if_pos huse] at h
    rw [eq_of_useGate h]
    exact .inl rfl
  · rw [if_neg huse] at h
    split at h
    · simp at h
    · split at h
      · simp at h
      · exact .inr ⟨_, ‹_›, members_of_use eq_of_useGate h⟩

end Scope

namespace Validator

variable {v : Validator σ} {e : Element} {session : Session} {state : σ}

/-- The members of a base of the same kind are inherited, and an element that declares a member of the type around it becomes one. Nothing else becomes a member by a rule. -/
theorem members_enter (v : Validator σ) (e : Element) (session : Session) (state : σ) :
    (v.enter e session state).session.scope.members = session.scope.members ∨
      (e.tag = .extendsName ∧ ∃ type base, session.scope.currentType? = some type ∧
        (v.resolver.lookupType e.name type.headerContext state).1 = some base ∧ base.tag = type.element.tag ∧
        (v.enter e session state).session.scope.members = session.scope.members.insertAll base.members.entries) ∨
      ∃ type, session.scope.currentType? = some type ∧
        (v.enter e session state).session.scope.members =
          session.scope.members.insert e.name ⟨e, type.qualifiedName⟩ := by
  unfold enter
  cases htag : e.tag <;> dsimp only
  case extendsName =>
    unfold enterExtends
    cases session.scope.currentType? with
    | none => exact .inl rfl
    | some type =>
      dsimp only
      rcases hlookup : v.resolver.lookupType e.name type.headerContext state with ⟨_ | base, next⟩
      · exact .inl rfl
      · by_cases hkind : base.tag = type.element.tag
        · refine .inr (.inl ⟨rfl, type, base, rfl, by rw [hlookup], hkind, ?_⟩)
          simp only [hkind, ne_eq, not_true_eq_false, if_false]
          rfl
        · left
          simp only [hkind, ne_eq, not_false_eq_true, if_true]
  case interfaceName =>
    unfold enterInterfaceName
    cases session.scope.currentType? with
    | none => exact .inl rfl
    | some type =>
      dsimp only
      rcases v.resolver.lookupType e.name type.headerContext state with ⟨_ | found, next⟩
      · exact .inl rfl
      · dsimp only
        split_ifs <;> exact .inl rfl
  case submodule =>
    unfold enterSubmodule
    cases session.scope.currentType? with
    | none => exact .inl rfl
    | some type =>
      dsimp only
      cases hdeclare : session.scope.declare e type.qualifiedName with
      | error problem =>
        left
        split <;> rfl
      | ok declared =>
        refine .inr (.inr ⟨type, rfl, ?_⟩)
        rw [(Scope.eq_of_declare hdeclare).2]
        split <;> rfl
  case param =>
    cases hjudge : session.scope.judgeParam e with
    | fault fault => exact .inl rfl
    | reject problem => exact .inl rfl
    | accept scope => exact (Scope.members_of_judgeParam hjudge).imp_right .inr
  case gate =>
    cases hjudge : session.scope.judgeGate e with
    | fault fault => exact .inl rfl
    | reject problem => exact .inl rfl
    | accept scope => exact (Scope.members_of_judgeGate hjudge).imp_right .inr
  case types =>
    unfold enterTypes
    split <;> exact .inl rfl
  case connection =>
    unfold enterConnection
    split
    · exact .inl rfl
    · split_ifs <;> exact .inl rfl
  case channelSpec =>
    unfold enterChannelSpec
    split
    · exact .inl rfl
    · split <;> exact .inl rfl
  case simpleModule | moduleInterface | compoundModule | channelInterface | channel =>
    unfold enterType
    split_ifs <;> exact .inl rfl
  all_goals exact .inl rfl

end Validator

/-! ### Where submodules come from -/

/-- Each submodule in scope is declared by the type around it or by one that this type inherits from, and names that one as its owner. -/
def Scope.Rooted (index : TypeIndex) (project : String) (scope : Scope) : Prop :=
  ∀ type, scope.currentType? = some type → ∀ entry ∈ scope.members.entries, entry.2.isSubmodule = true →
    ∃ above declaring, index.Inherits (project, type.qualifiedName) above ∧
      index.types.get? above = some declaring ∧ entry ∈ declaring.ownMembers

namespace Scope.Rooted

variable {index : TypeIndex} {project : String} {scope other : Scope}

theorem of_members_empty (h : scope.members = ∅) : scope.Rooted index project := by
  intro _ _ entry hentry
  rw [h] at hentry
  simp at hentry

theorem congr (h : scope.Rooted index project) (hcurrent : other.currentType? = scope.currentType?)
    (hmembers : other.members = scope.members) : other.Rooted index project := by
  unfold Rooted
  rw [hcurrent, hmembers]
  exact h

end Scope.Rooted

namespace Validator

variable {v : Validator σ} {file : Element} {session : Session} {state : σ} {point : Point σ}

theorem Visits.exists_parent {start : Point σ} (h : v.Visits start point)
    (hother : point.element.tag ≠ start.element.tag) : ∃ parent, v.Visits start parent ∧ v.Step parent point := by
  rcases Relation.ReflTransGen.cases_tail h with heq | hparent
  · exact absurd (by rw [heq]) hother
  · exact hparent

section Positions

variable (hfile : file.tag = .nedFile) (hsound : file.Sound) (hplaced : file.Placed)
  (hvisits : v.Visits ⟨file, session, state⟩ point)

include hfile hsound hplaced hvisits

/-- What only types may hold is met directly inside of a type that the file declares. -/
theorem Visits.exists_type_around (hroot : point.element.tag ≠ .nedFile)
    (hparent : ∀ tag ∈ Tag.all, tag ≠ .unknown → point.element.tag ∈ tag.allowedChildren →
      tag.isTypeDeclaration = true) :
    ∃ entry ∈ file.fileDeclarations, point.element ∈ entry.element.children ∧
      point.session.scope.currentType? = some entry.opened := by
  obtain ⟨parent, hparentVisits, hstep⟩ := hvisits.exists_parent (hfile ▸ hroot)
  have hparentPlaced : parent.element.Placed := hplaced.below hparentVisits.mem_descendants
  have htype := hparent _ (Tag.mem_all _) hparentPlaced.known (hparentPlaced.children _ hstep.mem_children)
  obtain ⟨entry, hentry, helement, hname, hcontext⟩ :=
    hparentVisits.exists_declaration hfile hsound hplaced htype
  refine ⟨entry, hentry, helement ▸ hstep.mem_children, ?_⟩
  rw [hstep.currentType?_of_type htype, TypeEntry.opened, helement, hname, hcontext]

theorem Visits.exists_extending (htag : point.element.tag = .extendsName) :
    ∃ entry ∈ file.fileDeclarations, point.element ∈ entry.element.children ∧
      point.session.scope.currentType? = some entry.opened := by
  refine hvisits.exists_type_around hfile hsound hplaced (by rw [htag]; decide) ?_
  rw [htag]
  decide

theorem Visits.exists_declaring (htag : point.element.tag = .submodule) :
    ∃ entry ∈ file.fileDeclarations,
      (point.element.name, (⟨point.element, entry.qualifiedName⟩ : Member)) ∈ entry.ownMembers ∧
      point.session.scope.currentType? = some entry.opened := by
  obtain ⟨part, hpartVisits, hstep⟩ := hvisits.exists_parent (by rw [htag, hfile]; decide)
  have hpartPlaced : part.element.Placed := hplaced.below hpartVisits.mem_descendants
  have hsections : ∀ tag ∈ Tag.all, tag ≠ .unknown → .submodule ∈ tag.allowedChildren → tag = .submodules := by decide
  have hpart : part.element.tag = .submodules :=
    hsections _ (Tag.mem_all _) hpartPlaced.known (htag ▸ hpartPlaced.children _ hstep.mem_children)
  obtain ⟨entry, hentry, hchild, hcurrent⟩ := hpartVisits.exists_type_around hfile hsound hplaced
    (by rw [hpart]; decide) (by rw [hpart]; decide)
  refine ⟨entry, hentry, ?_, ?_⟩
  · refine List.mem_map_of_mem (f := fun e : Element => (e.name, (⟨e, entry.qualifiedName⟩ : Member)))
      (List.mem_flatMap.2 ⟨part.element, hchild, ?_⟩)
    rw [Element.sectionDeclarations, hpart]
    exact List.mem_filter.2 ⟨hstep.mem_children, decide_eq_true htag⟩
  · have hdescend : (v.rulingAt part).verdict = .descend := by
      rw [rulingAt, enter, hpart]
    rw [Scope.currentType?_congr (hstep.frames_of_descend hdescend), hcurrent]

end Positions

section Rooted

variable {w : Validator TypeIndex} {index start : TypeIndex} {project : String} {place : Point TypeIndex}

/-- What a rule brings into scope is declared around the element or above. -/
theorem rooted_rulingAt (hresolver : w.resolver = TypeIndex.resolver) (hfile : file.tag = .nedFile)
    (hsound : file.Sound) (hplaced : file.Placed) (hreached : index.Reached) (hregisters : index.Registers project file)
    (hreaches : TypeIndex.resolver.Reaches index start) (hvisits : w.Visits ⟨file, session, start⟩ place)
    (hrooted : place.session.scope.Rooted index project) :
    (w.rulingAt place).session.scope.Rooted index project := by
  have hcurrent := Scope.currentType?_congr (w.keeps_enter place.element place.session place.state).frames
  unfold rulingAt
  rcases w.members_enter place.element place.session place.state with
    hsame | ⟨htag, type, base, htype, hlookup, hkind, hmembers⟩ | ⟨type, htype, hmembers⟩
  · exact hrooted.congr hcurrent hsame
  · obtain ⟨declaring, hdeclaring, hpart, haround⟩ := hvisits.exists_extending hfile hsound hplaced htag
    obtain rfl := Option.some.inj (haround.symm.trans htype)
    have hcalls := hvisits.reaches
    rw [hresolver] at hcalls hlookup
    obtain ⟨hnow, hregistrations⟩ := hreached.of_reaches (hreaches.trans hcalls)
    have hentry : place.state.types.get? (project, declaring.qualifiedName) = some declaring :=
      hregistrations.types ▸ hregisters declaring hdeclaring
    obtain ⟨above, -, hextends, hbuild⟩ := hnow.exists_extends hentry hpart htag hlookup hkind
    have hcovers := (hnow.faithful.covers_of_build hbuild).congr hregistrations
    rw [hregistrations.extends_eq] at hextends
    intro opened hopened entry hmem hsubmodule
    rw [hcurrent, htype] at hopened
    obtain rfl := Option.some.inj hopened
    rw [hmembers, Table.entries_insertAll] at hmem
    rcases List.mem_append.1 hmem with hold | hinherited
    · exact hrooted _ htype entry hold hsubmodule
    · obtain ⟨owner, found, howner, hfound, hown⟩ :=
        hcovers.owners entry (firsts_subset _ (List.mem_filter.1 hinherited).1)
      exact ⟨owner, found, .head hextends howner, hfound, hown⟩
  · intro opened hopened entry hmem hsubmodule
    rw [hcurrent, htype] at hopened
    obtain rfl := Option.some.inj hopened
    rw [hmembers] at hmem
    rcases Table.mem_entries_insert.1 hmem with rfl | ⟨-, hold⟩
    · obtain ⟨declaring, hdeclaring, hown, haround⟩ :=
        hvisits.exists_declaring hfile hsound hplaced (of_decide_eq_true hsubmodule)
      obtain rfl := Option.some.inj (haround.symm.trans htype)
      exact ⟨_, declaring, .refl, hregisters declaring hdeclaring, hown⟩
    · exact hrooted _ htype entry hold hsubmodule

theorem maintains_rooted (hresolver : w.resolver = TypeIndex.resolver) (hfile : file.tag = .nedFile)
    (hsound : file.Sound) (hplaced : file.Placed) (hreached : index.Reached) (hregisters : index.Registers project file)
    (hreaches : TypeIndex.resolver.Reaches index start) :
    w.Maintains ⟨file, session, start⟩ fun session => session.scope.Rooted index project where
  ruling := rooted_rulingAt hresolver hfile hsound hplaced hreached hregisters hreaches
  enter {point frame} _ _ hrooted := by
    cases frame with
    | type opened => exact .of_members_empty rfl
    | submodule | channelSpec => exact hrooted.congr rfl rfl
  leave {session frame outer} hframes hrooted := by
    cases frame with
    | type opened => exact .of_members_empty rfl
    | submodule | channelSpec =>
      refine hrooted.congr ?_ rfl
      rw [Scope.currentType?, Scope.currentType?, Session.leave_frames, hframes]
      rfl
  inner _ _ := .of_members_empty rfl
  registerInner {session e} owner state htype hrooted := by
    intro opened hopened entry hmem hsubmodule
    have hcurrent := Scope.currentType?_congr (w.registerInner_keeps owner e session state).1
    rw [hcurrent] at hopened
    rw [registerInner_members] at hmem
    rcases Table.mem_entries_insert.1 hmem with rfl | ⟨-, hold⟩
    · -- an inner type is no submodule
      rw [Member.isSubmodule, decide_eq_true_eq] at hsubmodule
      rw [hsubmodule] at htype
      exact absurd htype (by decide)
    · exact hrooted _ hopened entry hold hsubmodule

end Rooted

end Validator

end NedCheck
