import NedCheck.Proofs.TypeIndex.Listing
import NedCheck.Proofs.Validation.Origins
import NedCheck.Proofs.Validation.Repetition

/-!
# The types of submodules

The type of a submodule is asked for in two places. Its body is validated against it, inside of the type that declares the submodule; and the ends of connections look for gates in it, inside of any type that has the submodule as a member. The first question goes by the type that the walk is in, the second one by the owner that the member has brought along from base to base. They are one question to the index, since the owner of a submodule in scope is the type that declares it.
-/

namespace NedCheck

variable {σ : Type}

theorem Element.mem_nedFiles {root file : Element} (h : file ∈ root.nedFiles) :
    file.tag = .nedFile ∧ file ∈ root.descendants := by
  unfold nedFiles at h
  split at h
  · obtain ⟨hchild, htag⟩ := List.mem_filter.1 h
    exact ⟨of_decide_eq_true htag, mem_descendants_of_mem_children hchild⟩
  · obtain rfl := List.mem_singleton.1 h
    exact ⟨‹_›, mem_descendants_self _⟩
  · exact absurd h List.not_mem_nil

/-! ### One question asked twice -/

/-- The gate that an end on a submodule stands for, by the type of the submodule. -/
def EndpointRef.gateOf (ref : EndpointRef) (found : Option TypeInfo) : Except EndpointProblem Element :=
  match found.bind (·.gateDeclaration? ref.gate) with
  | some declaration => .ok declaration
  | none => .error (.noSubmoduleGate ref.submodule ref.gate)

namespace Validator

variable {v : Validator σ} {e : Element} {context : LookupContext} {state : σ} {point : Point σ}

/-- The type of a submodule, if there is one and it is of the right kind. -/
def submoduleInfo? (v : Validator σ) (e : Element) (context : LookupContext) (state : σ) : Option TypeInfo :=
  (v.submoduleType? e context state).1.bind Except.toOption

theorem submoduleInfo?_eq (v : Validator σ) (e : Element) (context : LookupContext) (state : σ) :
    v.submoduleInfo? e context state =
      if (e.value "type").isEmpty = false then
        (v.resolver.lookupType (e.value "type") context state).1.filter (·.tag.isModuleType)
      else if (e.value "like-type").isEmpty = false then
        (v.resolver.lookupType (e.value "like-type") context state).1.filter (·.tag = .moduleInterface)
      else none := by
  -- a type of the wrong kind is an error, and an error is no type
  have hkept (keep : TypeInfo → Bool) (problem : Problem) (info : TypeInfo) :
      (some (if keep info then .ok info else .error problem : Except Problem TypeInfo)).bind Except.toOption =
        (some info).filter keep := by
    cases hkeep : keep info <;> simp [hkeep, Except.toOption, Option.filter]
  unfold submoduleInfo? submoduleType?
  dsimp only
  cases htype : (e.value "type").isEmpty with
  | false =>
    simp only [Bool.not_false, if_true]
    rcases v.resolver.lookupType (e.value "type") context state with ⟨_ | info, next⟩
    · rfl
    · exact hkept (·.tag.isModuleType) _ info
  | true =>
    cases hlike : (e.value "like-type").isEmpty with
    | false =>
      simp only [Bool.not_true, Bool.not_false, Bool.false_eq_true, Bool.true_eq_false, if_true, if_false]
      rcases v.resolver.lookupType (e.value "like-type") context state with ⟨_ | info, next⟩
      · rfl
      · have hmatches := hkept (·.tag = .moduleInterface) (.notModuleInterfaceType (e.value "like-type")) info
        simpa using hmatches
    | true => simp

theorem tag_of_within_submodule {resolved : Option TypeInfo}
    (hverdict : (v.rulingAt point).verdict = .within (.submodule e resolved)) : point.element.tag = .submodule := by
  rcases within_cases hverdict with ⟨-, heq⟩ | ⟨_, _, _, ⟨htag, -⟩ | ⟨-, heq⟩⟩
  · simp at heq
  · exact htag
  · simp at heq

/-- The body of a submodule is validated against the type that it has inside of the type around it. -/
theorem eq_of_within_submodule {resolved : Option TypeInfo} {type : OpenType}
    (hverdict : (v.rulingAt point).verdict = .within (.submodule e resolved))
    (htype : point.session.scope.currentType? = some type) :
    resolved = v.submoduleInfo? point.element (.type type.qualifiedName) point.state ∧
      (v.rulingAt point).state = (v.submoduleType? point.element (.type type.qualifiedName) point.state).2 := by
  have hruling : v.rulingAt point = v.enterSubmodule point.element point.session point.state := by
    rw [rulingAt, enter, tag_of_within_submodule hverdict]
  rw [hruling] at hverdict ⊢
  unfold enterSubmodule at hverdict ⊢
  rw [htype] at hverdict ⊢
  unfold submoduleInfo?
  dsimp only at hverdict ⊢
  rcases hfound : v.submoduleType? point.element (.type type.qualifiedName) point.state with ⟨_ | (_ | info), next⟩
  · simp [hfound] at hverdict
  · simp only [hfound, Verdict.within.injEq, Frame.submodule.injEq] at hverdict ⊢
    exact ⟨hverdict.2.symm, trivial⟩
  · simp only [hfound, Verdict.within.injEq, Frame.submodule.injEq] at hverdict ⊢
    exact ⟨hverdict.2.symm, trivial⟩

theorem endpointGate_eq (v : Validator σ) (state : σ) {ref : EndpointRef} {members : Table String Member}
    {member : Member} (hend : ref.isOnParent = false)
    (hmember : (members.get? ref.submodule).filter Member.isSubmodule = some member) :
    (v.endpointGate ref members state).1.2 =
        ref.gateOf (v.submoduleInfo? member.element (.type member.owner) state) ∧
      (v.endpointGate ref members state).2 = (v.submoduleType? member.element (.type member.owner) state).2 := by
  unfold endpointGate
  rw [hend, hmember]
  exact ⟨rfl, rfl⟩

section Index

variable {v w : Validator TypeIndex} {index left right later : TypeIndex} {e : Element} {context : LookupContext}

theorem answersAgree_filter {key? : Option TypeKey} {found other : Option TypeInfo} (keep : Tag → Bool)
    (h : index.AnswersAgree key? found other) :
    ∃ key?, index.AnswersAgree key? (found.filter (keep ·.tag)) (other.filter (keep ·.tag)) := by
  cases h with
  | none => exact ⟨none, .none⟩
  | @some key info another hagree =>
    have htag : another.tag = info.tag := congrArg Element.tag hagree.element.symm
    cases hkeep : keep info.tag with
    | false =>
      refine ⟨none, ?_⟩
      simp only [Option.filter, htag, hkeep]
      exact .none
    | true =>
      refine ⟨some key, ?_⟩
      simp only [Option.filter, htag, hkeep]
      exact .some hagree

theorem answersAgree_submoduleInfo? (hv : v.resolver = TypeIndex.resolver) (hw : w.resolver = TypeIndex.resolver)
    (hleft : left.Reached) (hright : right.Reached) (hsame : left.SameRegistrations right) (e : Element)
    (context : LookupContext) :
    ∃ key?, left.AnswersAgree key? (v.submoduleInfo? e context left) (w.submoduleInfo? e context right) := by
  have hlookup (name : String) := TypeIndex.Reached.answersAgree_lookupType hleft hright hsame name context
  rw [submoduleInfo?_eq, submoduleInfo?_eq, hv, hw]
  split_ifs
  · exact answersAgree_filter Tag.isModuleType (hlookup _)
  · exact answersAgree_filter (· = .moduleInterface) (hlookup _)
  · exact ⟨none, .none⟩

theorem submoduleInfo?_again (hv : v.resolver = TypeIndex.resolver) (hw : w.resolver = TypeIndex.resolver)
    (hlater : TypeIndex.resolver.Reaches (v.submoduleType? e context index).2 later) :
    w.submoduleInfo? e context later = v.submoduleInfo? e context index := by
  have hsame : w.submoduleType? e context = v.submoduleType? e context := by
    unfold submoduleType?
    rw [hv, hw]
  have hrepeats := (submoduleType?_asks (v := v) e context).repeats (hv ▸ TypeIndex.resolver_steady) index
  rw [submoduleInfo?, submoduleInfo?, hsame, hrepeats.again (TypeIndex.le_of_reaches hlater)]

end Index

/-! ### Submodules of other types -/

/-- The point is met by a walk over a file of the project, with nothing in scope at its start, whatever the index has been asked by then. -/
inductive Met (calls : List (String × Element)) (index : TypeIndex) (project : String) (v : Validator TypeIndex) :
    Point TypeIndex → Prop where
  | visit {root file : Element} {session : Session} {start : TypeIndex} {point : Point TypeIndex} :
    (project, root) ∈ calls → file ∈ root.nedFiles → session.scope = .empty → v.resolver = TypeIndex.resolver →
    TypeIndex.resolver.Reaches index start → v.Visits ⟨file, session, start⟩ point → Met calls index project v point

end Validator

/-- The type under the key declares the element as one of its members. -/
def TypeIndex.Declares (index : TypeIndex) (key : TypeKey) (e : Element) : Prop :=
  ∃ entry, index.types.get? key = some entry ∧ e ∈ entry.element.children.flatMap (·.sectionDeclarations)

namespace Validator

section Met

variable {calls : List (String × Element)} {index : TypeIndex} {project : String} {v : Validator TypeIndex}
  {point : Point TypeIndex}
  (hsound : ∀ call ∈ calls, (ParseTree.ofElement call.2).isSound = true)
  (hknown : ∀ call ∈ calls, ∀ e ∈ call.2.descendants, e.tag ≠ .unknown)
  (honce : ((TypeIndex.registered calls).map Prod.fst).Nodup)
  (hreached : index.Reached) (hsame : index.SameRegistrations (.addFiles calls))
  (hmet : v.Met calls index project point)

include hmet in
theorem Met.resolver : v.resolver = TypeIndex.resolver := by
  obtain ⟨-, -, -, hresolver, -, -⟩ := hmet
  exact hresolver

include hreached hmet in
theorem Met.reached : point.state.Reached ∧ point.state.SameRegistrations index := by
  obtain ⟨-, -, -, hresolver, hstart, hvisits⟩ := hmet
  exact hreached.of_reaches (hstart.trans (hresolver ▸ hvisits.reaches))

include hsound hknown honce hsame

theorem fits_of_mem_nedFiles {root file : Element} (hcall : (project, root) ∈ calls) (hfile : file ∈ root.nedFiles) :
    file.tag = .nedFile ∧ file.Sound ∧ file.Placed ∧ index.Registers project file := by
  obtain ⟨htag, hmem⟩ := Element.mem_nedFiles hfile
  have hroot : root.Sound := ParseTree.isSound_ofElement_iff.1 (hsound (project, root) hcall)
  have hplaced : root.Placed := hroot.placed (hknown (project, root) hcall)
  exact ⟨htag, fun d hd => hroot d (Element.mem_descendants_trans hmem hd),
    hplaced.below hmem,
    (TypeIndex.registers_addFiles honce hcall hfile).congr hsame⟩

include hmet

include hreached

theorem Met.rooted : point.session.scope.Rooted index project := by
  obtain ⟨hcall, hfile, hscope, hresolver, hstart, hvisits⟩ := hmet
  obtain ⟨hfileTag, hfileSound, hplaced, hregisters⟩ := fits_of_mem_nedFiles hsound hknown honce hsame hcall hfile
  refine (maintains_rooted hresolver hfileTag hfileSound hplaced hreached hregisters hstart).of_visits ?_ hvisits
  refine .of_members_empty ?_
  rw [hscope]
  rfl

/-- The owner of a submodule in scope is the type around it or one above that one, and declares it. -/
theorem Met.inherits_owner (hproject : ∀ call ∈ calls, call.1 = project) {type : OpenType}
    (htype : point.session.scope.currentType? = some type) {name : String} {member : Member}
    (hmember : (point.session.scope.members.get? name).filter Member.isSubmodule = some member) :
    index.Inherits (project, type.qualifiedName) (project, member.owner) ∧
      index.Declares (project, member.owner) member.element := by
  obtain ⟨hget, hsubmodule⟩ := Option.filter_eq_some_iff.1 hmember
  obtain ⟨above, declaring, habove, hdeclaring, hown⟩ := hmet.rooted hsound hknown honce hreached hsame type htype
    (name, member) (Table.get?_eq_some_iff.1 hget) hsubmodule
  obtain ⟨e, he, heq⟩ := List.mem_map.1 hown
  obtain rfl : (⟨e, declaring.qualifiedName⟩ : Member) = member := (Prod.mk.inj heq).2
  -- all types of the index are of the project, and stand under their names
  obtain ⟨call, hcall, hcallProject⟩ := TypeIndex.exists_call_of_get? (hsame.types ▸ hdeclaring)
  obtain rfl : above = (project, declaring.qualifiedName) :=
    Prod.ext (hcallProject.symm.trans (hproject call hcall)) (hreached.coherent.named hdeclaring).symm
  exact ⟨habove, declaring, hdeclaring, he⟩

end Met

/-- The type that the body of a submodule is validated against, or that there is none, is also what the ends of connections on it go by, in every type that has the submodule as a member: the submodule has come from the type that declares it along the bases, wherever they are, and both times the index is asked the same question. An element that more than one type above declares is told by its owner. If one is asked after the other of the same index, the answers are equal. Otherwise they agree as answers of indexes with the same registrations do. -/
theorem endpointGate_of_declared {calls : List (String × Element)} {index : TypeIndex} {project : String}
    (hproject : ∀ call ∈ calls, call.1 = project)
    (hsound : ∀ call ∈ calls, (ParseTree.ofElement call.2).isSound = true)
    (hknown : ∀ call ∈ calls, ∀ e ∈ call.2.descendants, e.tag ≠ .unknown)
    (honce : ((TypeIndex.registered calls).map Prod.fst).Nodup)
    (hreached : index.Reached) (hsame : index.SameRegistrations (.addFiles calls))
    {v w : Validator TypeIndex} {body place : Point TypeIndex}
    (hbody : v.Met calls index project body) (hplace : w.Met calls index project place)
    {declaring type : OpenType} (hdeclaring : body.session.scope.currentType? = some declaring)
    (htype : place.session.scope.currentType? = some type)
    {resolved : Option TypeInfo} (hverdict : (v.rulingAt body).verdict = .within (.submodule body.element resolved))
    {ref : EndpointRef} (hend : ref.isOnParent = false) {member : Member}
    (hmember : (place.session.scope.members.get? ref.submodule).filter Member.isSubmodule = some member)
    (helement : member.element = body.element)
    (hsource : member.owner = declaring.qualifiedName ∨
      ∀ above, index.Inherits (project, type.qualifiedName) above → index.Declares above body.element →
        above = (project, declaring.qualifiedName)) :
    member.owner = declaring.qualifiedName ∧
    index.Inherits (project, type.qualifiedName) (project, declaring.qualifiedName) ∧
    ∀ later, TypeIndex.resolver.Reaches place.state later →
      (w.endpointGate ref place.session.scope.members later).1.2 =
        ref.gateOf (w.submoduleInfo? member.element (.type member.owner) later) ∧
      (∃ key?, body.state.AnswersAgree key? resolved (w.submoduleInfo? member.element (.type member.owner) later)) ∧
      (TypeIndex.resolver.Reaches (v.rulingAt body).state later ∨
          TypeIndex.resolver.Reaches (w.endpointGate ref place.session.scope.members later).2 body.state →
        w.submoduleInfo? member.element (.type member.owner) later = resolved) := by
  obtain ⟨habove, hdeclares⟩ := hplace.inherits_owner hsound hknown honce hreached hsame hproject htype hmember
  have howner : member.owner = declaring.qualifiedName :=
    hsource.elim id fun honly => congrArg Prod.snd (honly _ habove (helement ▸ hdeclares))
  refine ⟨howner, howner ▸ habove, fun later hlater => ?_⟩
  -- both ask for the type of the same element inside of the same type
  obtain ⟨hresolved, hstate⟩ := eq_of_within_submodule hverdict hdeclaring
  obtain ⟨hgate, hgateState⟩ := endpointGate_eq w later hend hmember
  rw [← howner, ← helement] at hresolved hstate
  obtain ⟨hbodyReached, hbodySame⟩ := hbody.reached hreached
  obtain ⟨hplaceReached, hplaceSame⟩ := hplace.reached hreached
  obtain ⟨hlaterReached, hlaterSame⟩ := hplaceReached.of_reaches hlater
  refine ⟨hgate, ?_, ?_⟩
  · rw [hresolved]
    exact answersAgree_submoduleInfo? hbody.resolver hplace.resolver hbodyReached hlaterReached
      (hbodySame.trans (hlaterSame.trans hplaceSame).symm) _ _
  · rintro (hafter | hbefore)
    · rw [hstate] at hafter
      rw [hresolved]
      exact submoduleInfo?_again hbody.resolver hplace.resolver hafter
    · rw [hgateState] at hbefore
      rw [hresolved]
      exact (submoduleInfo?_again hplace.resolver hbody.resolver hbefore).symm

/-! ### A base in another package -/

def relaySubmodule : Element := ⟨0, .submodule, .fill _ ["r", "Relay"], [], none, {}⟩

def relaySection : Element := { Element.new .submodules with children := [relaySubmodule] }

/-- A module with a submodule `r` of the type `Relay`. -/
def relayBase : Element := ⟨1, .compoundModule, .fill _ ["Base"], [relaySection], none, {}⟩

/-- The type next to it, which has a gate `out`. -/
def relayType : Element :=
  let gates : Element := { Element.new .gates with children := [⟨2, .gate, .fill _ ["out", "output"], [], none, {}⟩] }
  ⟨3, .simpleModule, .fill _ ["Relay"], [gates], none, {}⟩

def relayPackage : Element := ⟨4, .package, .fill _ ["lib"], [], none, {}⟩

def relayFile : Element := ⟨5, .nedFile, .fill _ ["lib.ned"], [relayPackage, relayType, relayBase], none, {}⟩

def relayLink : Element :=
  ⟨6, .connection, .fill _ ["r", "", "out", "false", "", "", "", "", "in", "false", "", "", "l2r"], [], none, {}⟩

def relayLinks : Element := { Element.new .connections with children := [relayLink] }

def relayBaseName : Element := ⟨7, .extendsName, .fill _ ["Base"], [], none, {}⟩

/-- A module that inherits the submodule and connects its gate. -/
def relayNet : Element := ⟨8, .compoundModule, .fill _ ["Net"], [relayBaseName, relayLinks], none, {}⟩

/-- What stands before that module: its package, the import of the base, and another `Relay`, which has no gates. -/
def relayHead : List Element :=
  [⟨9, .package, .fill _ ["net"], [], none, {}⟩, ⟨10, .importDecl, .fill _ ["lib.Base"], [], none, {}⟩,
    ⟨11, .simpleModule, .fill _ ["Relay"], [], none, {}⟩]

def relayNetFile : Element := ⟨12, .nedFile, .fill _ ["net.ned"], relayHead ++ [relayNet], none, {}⟩

def relayCalls : List (String × Element) := [("p", relayFile), ("p", relayNetFile)]

/-- Where the walk comes to a child of an element, once it is through with the ones before. -/
def childPoint (point : Point TypeIndex) (before : List Element) (child : Element) : Point TypeIndex :=
  let v : Validator TypeIndex := .standard TypeIndex.resolver "p"
  let ruling := v.rulingAt point
  let session := match ruling.verdict with
    | .within frame => ruling.session.enter frame
    | _ => ruling.session
  let row := v.validateAll before session ruling.state
  ⟨child, row.session, row.state⟩

/-- Where the walk over the first file comes to the submodule. -/
def relayPoint : Point TypeIndex :=
  let base := childPoint ⟨relayFile, .initial, .addFiles relayCalls⟩ [relayPackage, relayType] relayBase
  childPoint (childPoint base [] relaySection) [] relaySubmodule

/-- The index as the body of the submodule has left it. -/
def relayIndex : TypeIndex := ((Validator.standard TypeIndex.resolver "p").rulingAt relayPoint).state

/-- Where the walk over the second file comes to the connection. -/
def relayLinkPoint : Point TypeIndex :=
  let net := childPoint ⟨relayNetFile, .initial, relayIndex⟩ relayHead relayNet
  childPoint (childPoint net [relayBaseName] relayLinks) [] relayLink

theorem visits_relayPoint :
    (Validator.standard TypeIndex.resolver "p").Visits ⟨relayFile, .initial, .addFiles relayCalls⟩ relayPoint := by
  have hfile : relayFile.children = [relayPackage, relayType] ++ relayBase :: [] := rfl
  have hbase : relayBase.children = [] ++ relaySection :: [] := rfl
  have hsection : relaySection.children = [] ++ relaySubmodule :: [] := rfl
  exact .tail (.tail (.single (.descend hfile rfl rfl (by decide +kernel))) (.within hbase rfl rfl rfl))
    (.descend hsection rfl rfl rfl)

theorem visits_relayLinkPoint :
    (Validator.standard TypeIndex.resolver "p").Visits ⟨relayNetFile, .initial, relayIndex⟩ relayLinkPoint := by
  have hfile : relayNetFile.children = relayHead ++ relayNet :: [] := rfl
  have hnet : relayNet.children = [relayBaseName] ++ relayLinks :: [] := rfl
  have hlinks : relayLinks.children = [] ++ relayLink :: [] := rfl
  exact .tail (.tail (.single (.descend hfile rfl rfl (by decide +kernel))) (.within hnet rfl rfl (by decide +kernel)))
    (.descend hlinks rfl rfl rfl)

/-- The end of the connection has the gate of the type that the body of the submodule is validated against. The type that the name stands for at the connection has no such gate. -/
theorem endpointGate_of_declared_relay :
    ∃ resolved, ((standard TypeIndex.resolver "p").rulingAt relayPoint).verdict =
        .within (.submodule relaySubmodule resolved) ∧
      ((standard TypeIndex.resolver "p").endpointGate (.read relayLink .source) relayLinkPoint.session.scope.members
        relayLinkPoint.state).1.2 = (EndpointRef.read relayLink .source).gateOf resolved ∧
      (resolved.bind (·.gateDeclaration? "out")).isSome = true ∧
      (((standard TypeIndex.resolver "p").submoduleInfo? relaySubmodule (.type "net.Net") relayLinkPoint.state).bind
        (·.gateDeclaration? "out")).isNone = true := by
  have hreached : (TypeIndex.addFiles relayCalls).Reached := TypeIndex.reached_addFiles relayCalls
  have hbody : (standard TypeIndex.resolver "p").Met relayCalls (.addFiles relayCalls) "p" relayPoint :=
    .visit (.head _) (List.mem_singleton_self relayFile) rfl rfl (.refl _) visits_relayPoint
  have hlater : TypeIndex.resolver.Reaches (.addFiles relayCalls) relayIndex :=
    visits_relayPoint.reaches.trans (keeps_enter _ _ _ _).reaches
  have hplace : (standard TypeIndex.resolver "p").Met relayCalls (.addFiles relayCalls) "p" relayLinkPoint :=
    .visit (.tail _ (.head _)) (List.mem_singleton_self relayNetFile) rfl rfl hlater visits_relayLinkPoint
  have hverdict : ((standard TypeIndex.resolver "p").rulingAt relayPoint).verdict = .within (.submodule relaySubmodule
      ((standard TypeIndex.resolver "p").submoduleInfo? relaySubmodule (.type "lib.Base") relayPoint.state)) := rfl
  have hdeclaring : relayPoint.session.scope.currentType? = some ⟨relayBase, "lib.Base", .file "lib.ned"⟩ := rfl
  have htype : relayLinkPoint.session.scope.currentType? = some ⟨relayNet, "net.Net", .file "net.ned"⟩ := rfl
  have hmember : (relayLinkPoint.session.scope.members.get? "r").filter Member.isSubmodule =
      some ⟨relaySubmodule, "lib.Base"⟩ := rfl
  have hend : (EndpointRef.read relayLink .source).isOnParent = false := by decide +kernel
  obtain ⟨-, -, hgates⟩ := endpointGate_of_declared (by decide +kernel) (by decide +kernel) (by decide +kernel)
    (by decide +kernel) hreached (.refl _) hbody hplace hdeclaring htype hverdict hend hmember rfl (.inl rfl)
  obtain ⟨hgate, -, hequal⟩ := hgates _ (.refl _)
  exact ⟨_, hverdict, by rw [hgate, hequal (.inl visits_relayLinkPoint.reaches)], by decide +kernel, by decide +kernel⟩

end Validator

end NedCheck
