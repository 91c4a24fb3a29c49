import NedCheck.Proofs.ParseTree.RoundTrip
import NedCheck.Proofs.Validation.FrameTypes

/-!
# Attributes read as values of closed sets

Validation reads some attributes as directions, types, flags, subgates and arrows, and falls back on a default where the value is none of these. A `View` is such a reading. The structural checks know of the same attributes, though by the schema and not by who reads them, so an element that has passed them parses through every view of its kind. `Element.Legible` says so of an element, and a walk over such elements keeps it of all that comes into scope, as long as the types it asks for have legible members. Those of an index do, if the structural checks have accepted all trees that were added.
-/

namespace NedCheck

/-! ### Views -/

/-- An attribute that validation reads as a value of a closed set. -/
inductive View where
  | gateType
  | paramType
  | isVector
  | plusplus (endpoint : Endpoint)
  | subgate (endpoint : Endpoint)
  | arrow
deriving DecidableEq, Repr

namespace View

variable {view : View} {e : Element}

/-- The kind of the elements that have the attribute. -/
def tag : View → Tag
  | .gateType | .isVector => .gate
  | .paramType => .param
  | .plusplus _ | .subgate _ | .arrow => .connection

def attributeName : View → String
  | .gateType | .paramType => "type"
  | .isVector => "is-vector"
  | .plusplus endpoint => EndpointRef.attributeLead endpoint ++ "gate-plusplus"
  | .subgate endpoint => EndpointRef.attributeLead endpoint ++ "gate-subg"
  | .arrow => "arrow-direction"

def kind : View → ValueKind
  | .gateType => .gateType
  | .paramType => .paramType
  | .isVector | .plusplus _ => .flag
  | .subgate _ => .subgate
  | .arrow => .arrow

/-- What the element counts as through the view is what the value of the attribute says, so it is not what validation falls back on. -/
def Parses (view : View) (e : Element) : Prop :=
  match view with
  | .gateType => GateType.parse? (e.value view.attributeName) = some e.gateType
  | .paramType => ParamType.parse? (e.value view.attributeName) = some e.paramType
  | .isVector => Flag.parse? (e.value view.attributeName) = some e.isVector
  | .plusplus endpoint => Flag.parse? (e.value view.attributeName) = some (EndpointRef.read e endpoint).plusplus
  | .subgate endpoint => Subgate.parse? (e.value view.attributeName) = some (EndpointRef.read e endpoint).subgate
  | .arrow => Arrow.parse? (e.value view.attributeName) = some e.arrow

theorem exists_spec (view : View) :
    ∃ spec ∈ view.tag.attributes, spec.name = view.attributeName ∧ spec.kind = view.kind := by
  cases view with
  | plusplus endpoint | subgate endpoint => cases endpoint <;> decide
  | gateType | paramType | isVector | arrow => decide

theorem parses_of_accepts (h : view.kind.accepts (e.value view.attributeName) = true) : view.Parses e := by
  have hsome {α : Type} {found : Option α} (fallback : α) (hfound : found.isSome = true) :
      found = some (found.getD fallback) := by
    obtain ⟨value, rfl⟩ := Option.isSome_iff_exists.1 hfound
    rfl
  cases view with
  | gateType | paramType | plusplus | subgate | arrow => exact hsome _ h
  | isVector =>
    -- this one is compared with the text of a set flag and not parsed
    obtain ⟨flag, hflag⟩ := Option.isSome_iff_exists.1 h
    have htext : Flag.text flag = e.value "is-vector" := Flag.parse?_eq_some_iff.1 hflag
    have hvector : e.isVector = flag := by
      rw [Element.isVector, ← htext]
      cases flag <;> decide
    show Flag.parse? (e.value "is-vector") = some e.isVector
    rw [hvector]
    exact hflag

end View

/-! ### Legible elements -/

theorem Tag.Fits.accepts {e : Element} {kinds : List Tag} (h : e.tag.Fits e.attributes.values kinds)
    {spec : AttributeSpec} (hspec : spec ∈ e.tag.attributes) : spec.kind.accepts (e.value spec.name) = true := by
  obtain ⟨index, hindex⟩ : ∃ index, e.tag.attributeIndex? spec.name = some index := by
    rw [← Option.isSome_iff_exists, Tag.attributeIndex?, List.findIdx?_isSome, List.any_eq_true]
    exact ⟨spec, hspec, decide_eq_true rfl⟩
  obtain ⟨hlt, hname, -⟩ := List.findIdx?_eq_some_iff_getElem.1 hindex
  have hsame : e.tag.attributes[index] = spec :=
    List.inj_on_of_nodup_map e.tag.attributes_names_nodup (List.getElem_mem hlt) hspec (of_decide_eq_true hname)
  have hvalue : e.attributes.values[index]? = some (e.value spec.name) := by
    have hlength : index < e.attributes.values.length := e.attributes.complete ▸ hlt
    rw [Element.value, Attributes.get, hindex, Option.bind_some, List.getElem?_eq_getElem hlength, Option.getD_some]
  have hpair : (spec, e.value spec.name) ∈ e.tag.attributes.zip e.attributes.values :=
    List.mem_iff_getElem?.2 ⟨index, List.getElem?_zip_eq_some.2 ⟨hsame ▸ List.getElem?_eq_getElem hlt, hvalue⟩⟩
  have hlegal := h.legal _ hpair
  unfold ParseTree.valueProblem? at hlegal
  grind

namespace Element

variable {e d : Element}

/-- The element parses through every view of its kind. -/
def Legible (e : Element) : Prop := ∀ view : View, view.tag = e.tag → view.Parses e

theorem Sound.legible (h : e.Sound) (hd : d ∈ e.descendants) : d.Legible := by
  intro view htag
  obtain ⟨spec, hspec, hname, hkind⟩ := view.exists_spec
  have haccepts := (h d hd).accepts (htag ▸ hspec)
  rw [hname, hkind] at haccepts
  exact View.parses_of_accepts haccepts

theorem legible_of_isTypeDeclaration (h : e.tag.isTypeDeclaration = true) : e.Legible := by
  intro view htag
  have hother : view.tag.isTypeDeclaration = false := by cases view <;> rfl
  rw [htag, h] at hother
  cases hother

/-- The element is converted from a tree that the structural checks accept. -/
def Accepted (e : Element) : Prop := ∃ tree : ParseTree, tree.isSound = true ∧ tree.toElement = .ok e

theorem Accepted.sound (h : e.Accepted) : e.Sound := by
  obtain ⟨tree, hsound, hconverted⟩ := h
  obtain ⟨other, hother, hfits⟩ := ParseTree.exists_toElement_eq_ok (List.isEmpty_iff.1 hsound)
  rw [hconverted] at hother
  exact Except.ok.inj hother ▸ hfits

theorem Legible.direction (h : e.Legible) (hgate : e.isGateDeclaration = true) :
    e.gateType ∈ [GateType.input, .output, .inout] ∧ e.value "type" = e.gateType.text := by
  obtain ⟨htag, htype⟩ : e.tag = .gate ∧ e.gateType ≠ .unspecified := by
    simpa [isGateDeclaration] using hgate
  have hparses : View.gateType.Parses e := h .gateType htag.symm
  refine ⟨?_, (GateType.parse?_eq_some_iff.1 hparses).symm⟩
  cases hdirection : e.gateType with
  | unspecified => exact absurd hdirection htype
  | input | output | inout => simp

end Element

/-! ### Legible scopes -/

/-- The type of a submodule or channel spec that has been entered. -/
def Frame.resolved? : Frame → Option TypeInfo
  | .type _ => none
  | .submodule _ resolved | .channelSpec _ resolved => resolved

def TypeInfo.Legible (info : TypeInfo) : Prop := ∀ entry ∈ info.members.entries, entry.2.element.Legible

theorem TypeInfo.Legible.member {info : TypeInfo} (h : info.Legible) {name : String} {member : Member}
    (hmember : info.member? name = some member) : member.element.Legible :=
  h _ (Table.get?_eq_some_iff.1 hmember)

/-- Whatever parameters and gates are looked for in is legible. -/
structure Scope.Legible (scope : Scope) : Prop where
  members : ∀ entry ∈ scope.members.entries, entry.2.element.Legible
  types : ∀ frame ∈ scope.frames, ∀ info ∈ frame.resolved?, info.Legible

namespace Scope.Legible

variable {scope after : Scope} {session : Session} {frame : Frame}

theorem empty : Scope.empty.Legible := ⟨by simp [Scope.empty], by simp [Scope.empty]⟩

theorem of_members_empty (hmembers : scope.members = ∅)
    (htypes : ∀ frame ∈ scope.frames, ∀ info ∈ frame.resolved?, info.Legible) : scope.Legible where
  members := by simp [hmembers]
  types := htypes

theorem insert (h : scope.Legible) {name owner : String} {e : Element} (he : e.Legible)
    (hmembers : after.members = scope.members.insert name ⟨e, owner⟩) (hframes : after.frames = scope.frames) :
    after.Legible where
  members entry hentry := by
    rw [hmembers] at hentry
    rcases Table.mem_entries_insert.1 hentry with rfl | ⟨-, hold⟩
    · exact he
    · exact h.members entry hold
  types := hframes ▸ h.types

theorem insertAll (h : scope.Legible) {base : TypeInfo} (hbase : base.Legible)
    (hmembers : after.members = scope.members.insertAll base.members.entries) (hframes : after.frames = scope.frames) :
    after.Legible where
  members entry hentry := by
    rw [hmembers, Table.entries_insertAll] at hentry
    rcases List.mem_append.1 hentry with hold | hinherited
    · exact h.members entry hold
    · exact hbase entry (firsts_subset _ (List.mem_filter.1 hinherited).1)
  types := hframes ▸ h.types

theorem congr (h : scope.Legible) (hmembers : after.members = scope.members) (hframes : after.frames = scope.frames) :
    after.Legible where
  members := hmembers ▸ h.members
  types := hframes ▸ h.types

theorem enter (h : session.scope.Legible) (hframe : ∀ info ∈ frame.resolved?, info.Legible) :
    (session.enter frame).scope.Legible := by
  have htypes : ∀ inside ∈ (session.enter frame).scope.frames, ∀ info ∈ inside.resolved?, info.Legible := by
    rw [Session.enter_frames, List.forall_mem_cons]
    exact ⟨hframe, h.types⟩
  cases frame with
  | type opened => exact .of_members_empty rfl htypes
  | submodule | channelSpec => exact ⟨h.members, htypes⟩

theorem leave (h : session.scope.Legible) (frame : Frame) : (session.leave frame).scope.Legible := by
  have htypes : ∀ outer ∈ (session.leave frame).scope.frames, ∀ info ∈ outer.resolved?, info.Legible := by
    rw [Session.leave_frames]
    exact fun outer houter => h.types outer (List.mem_of_mem_tail houter)
  cases frame with
  | type opened => exact .of_members_empty rfl htypes
  | submodule | channelSpec => exact ⟨h.members, htypes⟩

end Scope.Legible

/-! ### Walks -/

variable {σ : Type}

/-- The resolver answers a call with the type. -/
inductive Resolver.Answers (resolver : Resolver σ) (state : σ) (info : TypeInfo) : Prop where
  | lookupType (name : String) (context : LookupContext) : (resolver.lookupType name context state).1 = some info →
    Answers resolver state info
  | lookupTopLevel (qualifiedName project : String) :
    (resolver.lookupTopLevel qualifiedName project state).1 = some info → Answers resolver state info

/-- All types that the resolver answers with from the state on have legible members. -/
def Resolver.Legible (resolver : Resolver σ) (start : σ) : Prop :=
  ∀ {state info}, resolver.Reaches start state → resolver.Answers state info → info.Legible

namespace Validator

variable {v : Validator σ} {start point : Point σ} {state : σ} {e gate : Element} {context : LookupContext}
  {info : TypeInfo}

theorem HasType.isAnswer (h : v.HasType state e context info) : v.resolver.Answers state info := by
  cases h with
  | type _ hlookup _ => exact .lookupType _ _ hlookup
  | like _ _ hlookup _ => exact .lookupType _ _ hlookup

theorem HasChannelType.isAnswer (h : v.HasChannelType state e context info) : v.resolver.Answers state info := by
  cases h with
  | type _ hlookup _ => exact .lookupType _ _ hlookup
  | like _ _ hlookup _ => exact .lookupType _ _ hlookup
  | fallback _ _ hlookup => exact .lookupTopLevel _ _ hlookup

theorem answers_of_within {frame : Frame} (hverdict : (v.rulingAt point).verdict = .within frame)
    (hinfo : frame.resolved? = some info) : v.resolver.Answers point.state info := by
  rcases within_cases hverdict with ⟨-, rfl⟩ | ⟨opened, resolved, hcurrent, ⟨-, rfl⟩ | ⟨-, rfl⟩⟩
  · cases hinfo
  · obtain rfl : resolved = some info := hinfo
    have hresolved := (eq_of_within_submodule hverdict hcurrent).1
    exact (submoduleInfo?_eq_some_iff.1 hresolved.symm).isAnswer
  · obtain rfl : resolved = some info := hinfo
    exact (hasChannelType_of_within hcurrent hverdict).isAnswer

/-- Members come from the tree, from bases and from nowhere else, and what is entered is of a type that has been asked for. -/
theorem maintains_legible (hresolver : v.resolver.Legible start.state)
    (hstart : ∀ d ∈ start.element.descendants, d.Legible) :
    v.Maintains start fun session => session.scope.Legible where
  ruling {point} hvisits hlegible := by
    have hframes := (v.keeps_enter point.element point.session point.state).frames
    rcases v.members_enter point.element point.session point.state with
      hsame | ⟨-, type, base, -, hlookup, -, hmembers⟩ | ⟨type, -, hmembers⟩
    · exact hlegible.congr hsame hframes
    · exact hlegible.insertAll (hresolver hvisits.reaches (.lookupType _ _ hlookup)) hmembers hframes
    · exact hlegible.insert (hstart _ hvisits.mem_descendants) hmembers hframes
  enter {point frame} hvisits hverdict hlegible :=
    hlegible.enter fun _ hinfo => hresolver hvisits.reaches (answers_of_within hverdict hinfo)
  leave _ hlegible := hlegible.leave _
  inner _ _ := .empty
  registerInner {session e} owner state htype hlegible :=
    hlegible.insert (Element.legible_of_isTypeDeclaration htype) (v.registerInner_members owner e session state)
      (v.registerInner_keeps owner e session state).1

/-! ### What rules look at -/

/-- Elements that the ruling on an element may look at: the element itself, members in scope, members of the types of what has been entered, and members of types that are asked for from there on. -/
inductive InSight (v : Validator σ) (point : Point σ) : Element → Prop where
  | here : InSight v point point.element
  | inScope {name : String} {member : Member} : point.session.scope.members.get? name = some member →
    InSight v point member.element
  | ofFrame {frame : Frame} {info : TypeInfo} {name : String} {member : Member} :
    frame ∈ point.session.scope.frames → frame.resolved? = some info → info.member? name = some member →
    InSight v point member.element
  | ofAnswer {state : σ} {info : TypeInfo} {name : String} {member : Member} :
    v.resolver.Reaches point.state state → v.resolver.Answers state info → info.member? name = some member →
    InSight v point member.element

/-- The ruling on an element takes the gate for a declaration: the element itself, if it declares a gate, the declaration of a gate that is used, or the gate at an end of a connection. -/
inductive TakesGate (v : Validator σ) (point : Point σ) : Element → Prop where
  | declared : point.element.isGateDeclaration = true → TakesGate v point point.element
  | used {gate : Element} : point.session.scope.gateDeclaration point.element = .ok gate → TakesGate v point gate
  | atEnd {endpoint : Endpoint} {state : σ} {gate : Element} : v.resolver.Reaches point.state state →
    (v.endpointGate (.read point.element endpoint) point.session.scope.members state).1.2 = .ok gate →
    TakesGate v point gate

theorem inSight_of_gateDeclaration (h : point.session.scope.gateDeclaration point.element = .ok gate) :
    v.InSight point gate ∧ gate.isGateDeclaration = true := by
  unfold Scope.gateDeclaration at h
  dsimp only at h
  split at h
  · rename_i found heq
    obtain rfl : found = gate := Except.ok.inj h
    split at heq
    · cases heq
    · rename_i resolved outer hframes
      obtain ⟨member, hmember, rfl⟩ := Option.map_eq_some_iff.1 heq
      obtain ⟨hmember, hgate⟩ := Option.filter_eq_some_iff.1 hmember
      exact ⟨.ofFrame (hframes ▸ List.mem_cons_self) rfl hmember, hgate⟩
    · obtain ⟨member, hmember, rfl⟩ := Option.map_eq_some_iff.1 heq
      obtain ⟨hmember, hgate⟩ := Option.filter_eq_some_iff.1 hmember
      exact ⟨.inScope hmember, hgate⟩
  · cases h

theorem TakesGate.inSight (h : v.TakesGate point gate) : v.InSight point gate ∧ gate.isGateDeclaration = true := by
  cases h with
  | declared hgate => exact ⟨.here, hgate⟩
  | used hgate => exact inSight_of_gateDeclaration hgate
  | atEnd hreaches hgate =>
    obtain ⟨submodule, hgateAt⟩ := exists_gateAt hgate
    cases hgateAt with
    | onParent _ hmember hdeclares => exact ⟨.inScope hmember, hdeclares⟩
    | onSubmodule _ _ _ htype hmember hdeclares => exact ⟨.ofAnswer hreaches htype.isAnswer hmember, hdeclares⟩

theorem InSight.legible (hresolver : v.resolver.Legible start.state)
    (hstart : ∀ d ∈ start.element.descendants, d.Legible) (hscope : start.session.scope.Legible)
    (hvisits : v.Visits start point) (h : v.InSight point e) : e.Legible := by
  have hpoint := (maintains_legible hresolver hstart).of_visits hscope hvisits
  cases h with
  | here => exact hstart _ hvisits.mem_descendants
  | inScope hmember => exact hpoint.members _ (Table.get?_eq_some_iff.1 hmember)
  | ofFrame hframe hinfo hmember => exact (hpoint.types _ hframe _ hinfo).member hmember
  | ofAnswer hreaches hanswers hmember => exact (hresolver (hvisits.reaches.trans hreaches) hanswers).member hmember

end Validator

/-! ### Types of an index -/

namespace TypeIndex

variable {index : TypeIndex} {calls : List (String × Element)} {key : TypeKey} {entry : TypeEntry} {info : TypeInfo}

theorem mem_descendants_of_declares {file : Element} (h : file.Declares entry) : entry.element ∈ file.descendants := by
  induction h with
  | top hchild _ => exact Element.mem_descendants_of_mem_children hchild
  | inner _ hd ih =>
    obtain ⟨part, hpart, -, hmem, -⟩ := Element.exists_of_mem_innerTypes hd
    exact Element.mem_descendants_trans ih (Element.mem_descendants_trans
      (Element.mem_descendants_of_mem_children hpart) (Element.mem_descendants_of_mem_children hmem))

theorem exists_tree_of_get? (hentry : (addFiles calls).types.get? key = some entry) :
    ∃ call ∈ calls, entry.element ∈ call.2.descendants := by
  rw [types_addFiles_get? calls key.1 key.2] at hentry
  obtain ⟨⟨other, found⟩, hlast, rfl⟩ := Option.map_eq_some_iff.1 hentry
  have hregistered := (List.mem_filter.1 (List.mem_of_getLast? hlast)).1
  obtain ⟨-, call, hcall, -, file, hfile, hdeclares⟩ := mem_registered_iff.1 hregistered
  exact ⟨call, hcall, Element.mem_descendants_trans (Element.mem_nedFiles hfile).2
    (mem_descendants_of_declares hdeclares)⟩

theorem mem_descendants_of_ownMembers {member : String × Member} (h : member ∈ entry.ownMembers) :
    member.2.element ∈ entry.element.descendants := by
  obtain ⟨e, he, rfl⟩ := List.mem_map.1 h
  obtain ⟨part, hpart, he⟩ := List.mem_flatMap.1 he
  have hchild : e ∈ part.children := by
    unfold Element.sectionDeclarations at he
    split at he
    iterate 4 exact (List.mem_filter.1 he).1
    exact absurd he List.not_mem_nil
  exact Element.mem_descendants_trans (Element.mem_descendants_of_mem_children hpart)
    (Element.mem_descendants_of_mem_children hchild)

theorem Reached.exists_covers_of_answers (hreached : index.Reached) (h : resolver.Answers index info) :
    ∃ key, index.Covers key info := by
  obtain ⟨hsome, -, hcovers, hcoversTop, -⟩ := hreached.members_of_lookup
  cases h with
  | lookupType name context hlookup =>
    have hfound : (index.lookupType name context).1 = some info := hlookup
    have hresolve := hsome name context
    rw [hfound, Option.isSome_some] at hresolve
    obtain ⟨key, hkey⟩ := Option.isSome_iff_exists.1 hresolve.symm
    exact ⟨key, hcovers name context key info hkey hfound⟩
  | lookupTopLevel qualifiedName project hlookup => exact ⟨_, hcoversTop qualifiedName project info hlookup⟩

/-- All members stand in the trees that were added. -/
theorem Reached.legible_resolver (hreached : index.Reached) (hsame : SameRegistrations index (addFiles calls))
    (hcalls : ∀ call ∈ calls, ∀ d ∈ call.2.descendants, d.Legible) : resolver.Legible index := by
  intro later info hreaches hanswers member hmember
  obtain ⟨hlater, hkept⟩ := hreached.of_reaches hreaches
  obtain ⟨key, hcovers⟩ := hlater.exists_covers_of_answers hanswers
  obtain ⟨above, entry, -, hentry, hown⟩ := hcovers.owners member hmember
  rw [hkept.types, hsame.types] at hentry
  obtain ⟨call, hcall, htree⟩ := exists_tree_of_get? hentry
  exact hcalls call hcall _ (Element.mem_descendants_trans htree (mem_descendants_of_ownMembers hown))

end TypeIndex

namespace Validator

/-- A tree that the structural checks accept is converted, and all of its elements parse through every view of their kind. If all trees of an index and the tree that is validated are such, then so does everything that validation looks at, wherever it comes to: it never falls back on a default, neither for elements of the tree nor for members from other trees. The gates it takes for declarations are inputs, outputs or both, as their types spell. -/
theorem views_parse {v : Validator TypeIndex} (hresolver : v.resolver = TypeIndex.resolver)
    {calls : List (String × Element)} (hcalls : ∀ call ∈ calls, call.2.Accepted) {index : TypeIndex}
    (hreached : index.Reached) (hsame : TypeIndex.SameRegistrations index (.addFiles calls)) {root : Element}
    (hroot : root.Accepted) {session : Session} (hscope : session.scope = .empty) :
    (∀ tree : ParseTree, tree.isSound = true → ∃ e, tree.toElement = .ok e ∧
      ∀ d ∈ e.descendants, ∀ view : View, view.tag = d.tag → view.Parses d) ∧
    ∀ point, v.Visits ⟨root, session, index⟩ point →
      (∀ e, v.InSight point e → ∀ view : View, view.tag = e.tag → view.Parses e) ∧
      ∀ gate, v.TakesGate point gate →
        gate.gateType ∈ [GateType.input, .output, .inout] ∧ gate.value "type" = gate.gateType.text := by
  have hlegible : v.resolver.Legible index := by
    rw [hresolver]
    exact hreached.legible_resolver hsame fun call hcall d hd => (hcalls call hcall).sound.legible hd
  refine ⟨fun tree hsound => ?_, fun point hvisits => ?_⟩
  · obtain ⟨e, he, hfits⟩ := ParseTree.exists_toElement_eq_ok (List.isEmpty_iff.1 hsound)
    exact ⟨e, he, fun d hd => hfits.legible hd⟩
  · have hsight : ∀ e, v.InSight point e → e.Legible := fun e he =>
      he.legible hlegible (fun d hd => hroot.sound.legible hd) (hscope ▸ .empty) hvisits
    refine ⟨hsight, fun gate hgate => ?_⟩
    obtain ⟨hinSight, hdeclares⟩ := hgate.inSight
    exact (hsight gate hinSight).direction hdeclares

/-! ### A gate from another tree -/

/-- The file with the type of the submodules. -/
def hubTypeFile : Element := ⟨0, .nedFile, .fill _ ["r.ned"], hubFile.children.take 1, none, {}⟩

/-- The file with the connection. -/
def hubNetFile : Element := ⟨0, .nedFile, .fill _ ["n.ned"], hubFile.children.drop 1, none, {}⟩

/-- The file as it is converted from its parse tree. -/
def converted (file : Element) : Element := (file.numberFrom ParseTree.root).withoutEmptyLocations

theorem accepted_converted {file : Element} (h : (ParseTree.ofElement file).isSound = true) :
    (converted file).Accepted :=
  ⟨_, h, ParseTree.toElement_ofElement file⟩

def hubCalls : List (String × Element) := [("p", converted hubTypeFile), ("p", converted hubNetFile)]

/-- The walk over the second file comes to the connection and takes a gate of the first file for a declaration. -/
theorem views_parse_hub :
    let v : Validator TypeIndex := .standard TypeIndex.resolver "p"
    let root := converted hubNetFile
    ∃ point gate, v.Visits ⟨root, .initial, .addFiles hubCalls⟩ point ∧ point.element.tag = .connection ∧
      (∀ view : View, view.tag = .connection → view.Parses point.element) ∧
      v.TakesGate point gate ∧ gate ∉ root.descendants ∧ gate.gateType ∈ [GateType.input, .output, .inout] := by
  intro v root
  have htypes : (converted hubTypeFile).Accepted := accepted_converted (by decide +kernel)
  have hroot : root.Accepted := accepted_converted (by decide +kernel)
  have hcalls : ∀ call ∈ hubCalls, call.2.Accepted := by
    intro call hcall
    rcases List.mem_pair.1 hcall with rfl | rfl
    · exact htypes
    · exact hroot
  have hpoint : ∃ point ∈ v.trace root .initial (.addFiles hubCalls), point.element.tag = .connection ∧
      (v.endpointGate (.read point.element .destination) point.session.scope.members point.state).1.2.toOption.map
        Element.name = some "port" := by decide +kernel
  obtain ⟨point, hpoint, htag, hend⟩ := hpoint
  obtain ⟨gate, hgate, hname⟩ := Option.map_eq_some_iff.1 hend
  have hfound : (v.endpointGate (.read point.element .destination) point.session.scope.members point.state).1.2 =
      .ok gate := by
    generalize (v.endpointGate (.read point.element .destination) point.session.scope.members point.state).1.2 =
      found at hgate ⊢
    cases found with
    | error problem => cases hgate
    | ok other => exact congrArg Except.ok (Option.some.inj hgate)
  have htakes : v.TakesGate point gate := .atEnd (.refl _) hfound
  have hother : ∀ d ∈ root.descendants, d.name ≠ "port" := by decide +kernel
  have hvisits := mem_trace_iff.1 hpoint
  have hclear : Session.initial.scope = .empty := rfl
  obtain ⟨hparses, hdirection⟩ :=
    (views_parse (v := v) rfl hcalls (TypeIndex.reached_addFiles hubCalls) (.refl _) hroot hclear).2 point hvisits
  exact ⟨point, gate, hvisits, htag, fun view hview => hparses _ .here view (hview.trans htag.symm), htakes,
    fun hmem => hother gate hmem hname, (hdirection gate htakes).1⟩

end Validator

end NedCheck
