import NedCheck.Proofs.Validation.Endpoints

/-!
# Types of what is entered

Inside of a submodule or a channel spec, parameters and gates are looked for in its type. There are three ways to come by that type. A type or an interface that the element asks for by name is looked at before it is taken, so a submodule is of a module type or a module interface, and a channel spec of a channel or a channel interface. The default channel type is taken as it is: a channel spec that asks for nothing is of whatever is declared under that name. Where this is a channel, parameters of connections are never looked for in a module.
-/

namespace NedCheck

variable {σ : Type}

/-! ### Declarations with a type of the right kind -/

/-- A submodule or channel spec that has been entered is of a type of the right kind, if of any; `fallback` tells what may stand in where a channel spec asks for none. -/
def Frame.Fits (fallback : TypeInfo → Prop) : Frame → Prop
  | .type _ => True
  | .submodule e resolved => ∀ info ∈ resolved,
    info.tag = .simpleModule ∨ info.tag = .compoundModule ∨ info.tag = .moduleInterface ∧ e.value "type" = ""
  | .channelSpec e resolved => ∀ info ∈ resolved,
    info.tag = .channel ∨
      info.tag = .channelInterface ∧ e.value "type" = "" ∧ e.value "like-type" ≠ "" ∨
      fallback info ∧ e.value "type" = "" ∧ e.value "like-type" = ""

def Scope.Fits (fallback : TypeInfo → Prop) (scope : Scope) : Prop := ∀ frame ∈ scope.frames, frame.Fits fallback

section Fits

variable {fallback other : TypeInfo → Prop} {frame : Frame} {scope after : Scope}

theorem Frame.Fits.mono (h : frame.Fits fallback) (hother : ∀ info, fallback info → other info) : frame.Fits other := by
  cases frame with
  | type opened => trivial
  | submodule e resolved => exact h
  | channelSpec e resolved =>
    exact fun info hinfo => (h info hinfo).imp_right (Or.imp_right (And.imp_left (hother info)))

theorem Scope.Fits.mono (h : scope.Fits fallback) (hother : ∀ info, fallback info → other info) : scope.Fits other :=
  fun frame hframe => (h frame hframe).mono hother

theorem Scope.Fits.congr (h : scope.Fits fallback) (hframes : after.frames = scope.frames) : after.Fits fallback := by
  unfold Fits
  rwa [hframes]

theorem Scope.Fits.enter {session : Session} (h : session.scope.Fits fallback) (hframe : frame.Fits fallback) :
    (session.enter frame).scope.Fits fallback := by
  intro inside hinside
  rw [Session.enter_frames] at hinside
  rcases List.mem_cons.1 hinside with rfl | houter
  · exact hframe
  · exact h inside houter

theorem Scope.Fits.leave {session : Session} (h : session.scope.Fits fallback) (frame : Frame) :
    (session.leave frame).scope.Fits fallback := by
  intro outer houter
  rw [Session.leave_frames] at houter
  exact h outer (List.mem_of_mem_tail houter)

theorem Scope.Fits.not_isModuleLike (h : scope.Fits (·.tag = .channel)) {e : Element} {info : TypeInfo}
    (hframe : .channelSpec e (some info) ∈ scope.frames) : info.tag.isModuleLike = false := by
  rcases h _ hframe info rfl with htag | ⟨htag, -⟩ | ⟨htag, -⟩
  iterate 3
    rw [htag]
    rfl

end Fits

/-! ### Types that are asked for -/

namespace Validator

variable {v : Validator σ} {e : Element} {state : σ} {context : LookupContext} {info : TypeInfo} {point : Point σ}

/-- The channel spec is of the type: it asks for it as a type or, if it asks for none, as a like-type, and the type is of the kind that is asked for; or it asks for nothing, and the type is the default channel type, of whatever kind. -/
inductive HasChannelType (v : Validator σ) (state : σ) (e : Element) (context : LookupContext) (info : TypeInfo) :
    Prop where
  | type : e.value "type" ≠ "" → (v.resolver.lookupType (e.value "type") context state).1 = some info →
    info.tag = .channel → HasChannelType v state e context info
  | like : e.value "type" = "" → e.value "like-type" ≠ "" →
    (v.resolver.lookupType (e.value "like-type") context state).1 = some info → info.tag = .channelInterface →
    HasChannelType v state e context info
  | fallback : e.value "type" = "" → e.value "like-type" = "" →
    (v.resolver.lookupTopLevel v.defaultChannelType v.project state).1 = some info →
    HasChannelType v state e context info

theorem hasChannelType_of_channelType (h : (v.channelType e context state).1 = .ok (.ok info)) :
    v.HasChannelType state e context info := by
  unfold channelType at h
  dsimp only at h
  split_ifs at h with htype hlike
  · rcases hlookup : v.resolver.lookupType (e.value "type") context state with ⟨_ | found, next⟩
    · simp [hlookup] at h
    · obtain ⟨hkind, rfl⟩ : found.tag = .channel ∧ found = info := by
        simpa [hlookup, ite_eq_iff] using h
      exact .type (by simpa using htype) (by rw [hlookup]) hkind
  · rcases hlookup : v.resolver.lookupType (e.value "like-type") context state with ⟨_ | found, next⟩
    · simp [hlookup] at h
    · obtain ⟨hkind, rfl⟩ : found.tag = .channelInterface ∧ found = info := by
        simpa [hlookup, ite_eq_iff] using h
      exact .like (by simpa using htype) (by simpa using hlike) (by rw [hlookup]) hkind
  · rcases hlookup : v.resolver.lookupTopLevel v.defaultChannelType v.project state with ⟨_ | found, next⟩
    · simp [hlookup] at h
    · obtain rfl : found = info := by
        simpa [hlookup] using h
      exact .fallback (by simpa using htype) (by simpa using hlike) (by rw [hlookup])

theorem hasChannelType_of_within {type : OpenType} (hcurrent : point.session.scope.currentType? = some type)
    (hverdict : (v.rulingAt point).verdict = .within (.channelSpec point.element (some info))) :
    v.HasChannelType point.state point.element (.type type.qualifiedName) info := by
  have htag : point.element.tag = .channelSpec := by
    rcases within_cases hverdict with ⟨-, heq⟩ | ⟨_, _, -, ⟨-, heq⟩ | ⟨htag, -⟩⟩
    · simp at heq
    · simp at heq
    · exact htag
  rw [rulingAt, enter, htag] at hverdict
  simp only [enterChannelSpec, hcurrent] at hverdict
  split at hverdict
  · simp at hverdict
  · rename_i found next hfound
    obtain rfl : found = info := by simpa using hverdict
    exact hasChannelType_of_channelType (congrArg Prod.fst hfound)
  · simp at hverdict

/-- What is entered is of the type that it asks for, if there is one. -/
theorem fits_of_within {frame : Frame} (hverdict : (v.rulingAt point).verdict = .within frame) :
    frame.Fits fun info => (v.resolver.lookupTopLevel v.defaultChannelType v.project point.state).1 = some info := by
  rcases within_cases hverdict with ⟨-, rfl⟩ | ⟨opened, resolved, hcurrent, ⟨-, rfl⟩ | ⟨-, rfl⟩⟩
  · trivial
  · intro info hinfo
    obtain rfl := Option.mem_def.1 hinfo
    have hresolved := (eq_of_within_submodule hverdict hcurrent).1
    rcases submoduleInfo?_eq_some_iff.1 hresolved.symm with ⟨-, -, hmodule⟩ | ⟨htype, -, -, hinterface⟩
    · exact hmodule.imp_right .inl
    · exact .inr (.inr ⟨hinterface, htype⟩)
  · intro info hinfo
    obtain rfl := Option.mem_def.1 hinfo
    cases hasChannelType_of_within hcurrent hverdict with
    | type _ _ hchannel => exact .inl hchannel
    | like htype hlike _ hinterface => exact .inr (.inl ⟨hinterface, htype, hlike⟩)
    | fallback htype hlike hdefault => exact .inr (.inr ⟨hdefault, htype, hlike⟩)

/-! ### Walks -/

/-- The default channel type stands for the type at some time from the state on. -/
def DefaultChannel (v : Validator σ) (state : σ) (info : TypeInfo) : Prop :=
  ∃ later, v.resolver.Reaches state later ∧
    (v.resolver.lookupTopLevel v.defaultChannelType v.project later).1 = some info

theorem maintains_fits (v : Validator σ) (start : Point σ) :
    v.Maintains start fun session => session.scope.Fits (v.DefaultChannel start.state) where
  ruling {point} _ hfits := hfits.congr (v.keeps_enter point.element point.session point.state).frames
  enter {point frame} hvisits hverdict hfits := by
    refine hfits.enter ((fits_of_within hverdict).mono fun info hinfo => ?_)
    exact ⟨point.state, hvisits.reaches, hinfo⟩
  leave _ hfits := hfits.leave _
  inner _ _ := fun _ hframe => absurd hframe List.not_mem_nil
  registerInner {session e} owner state _ hfits := hfits.congr (v.registerInner_keeps owner e session state).1

/-- The scopes at a point of a walk: the one that the element is met in, the one after the ruling, the one inside of what is entered, and the one when the walk is through with the element. -/
inductive Passes (v : Validator σ) (point : Point σ) : Scope → Prop where
  | met : Passes v point point.session.scope
  | ruled : Passes v point (v.rulingAt point).session.scope
  | entered {frame : Frame} : (v.rulingAt point).verdict = .within frame →
    Passes v point ((v.rulingAt point).session.enter frame).scope
  | left : Passes v point (v.outcomeAt point).session.scope

/-- In all states of a walk, over any tree and with any resolver, project and settings, a submodule that is entered is of a simple or compound module, of a module interface if it asks for no type, or of no type; and a channel spec is of a channel, of a channel interface if it asks for a like-type and no type, or of no type, unless it asks for neither. Then it is of what the default channel type stands for. If this is always a channel, nothing is excepted, and so no channel spec is of a module. -/
theorem fits_of_passes (v : Validator σ) {start point : Point σ}
    (hstart : start.session.scope.Fits (v.DefaultChannel start.state)) (hvisits : v.Visits start point) :
    ∀ scope, v.Passes point scope → scope.Fits (v.DefaultChannel start.state) ∧
      ((∀ info, v.DefaultChannel start.state info → info.tag = .channel) →
        scope.Fits (·.tag = .channel) ∧
          ∀ e info, .channelSpec e (some info) ∈ scope.frames → info.tag.isModuleLike = false) := by
  have hmaintains := v.maintains_fits start
  have hpoint := hmaintains.of_visits hstart hvisits
  have hruling := hmaintains.ruling hvisits hpoint
  have hfits : ∀ scope, v.Passes point scope → scope.Fits (v.DefaultChannel start.state) := by
    intro scope hpasses
    cases hpasses with
    | met => exact hpoint
    | ruled => exact hruling
    | entered hverdict => exact hmaintains.enter hvisits hverdict hruling
    | left => exact hmaintains.outcomeAt hvisits hpoint
  intro scope hpasses
  refine ⟨hfits scope hpasses, fun hchannel => ?_⟩
  have hkind : scope.Fits (·.tag = .channel) := (hfits scope hpasses).mono hchannel
  exact ⟨hkind, fun e info hframe => hkind.not_isModuleLike hframe⟩

/-! ### A module under the name of the default channel type -/

/-- A file that declares the default channel type, as a type of the kind, and a compound module with a connection that sets a parameter of it. -/
def datarateFile (kind : Tag) : Element :=
  let part (tag : Tag) (children : List Element) : Element := { Element.new tag with children }
  let channel : Element :=
    ⟨0, kind, .fill _ ["DatarateChannel"],
      [part .parameters [⟨0, .param, .fill _ ["int", "false", "x"], [], none, {}⟩]], none, {}⟩
  let spec := part .channelSpec
    [part .parameters [⟨0, .param, .fill _ ["", "false", "x", "1"], [], none, {}⟩]]
  let connection : Element :=
    ⟨0, .connection, .fill _ ["", "", "in", "false", "", "", "", "", "out", "false", "", "", "l2r"], [spec], none, {}⟩
  let gates := part .gates
    [⟨0, .gate, .fill _ ["in", "input"], [], none, {}⟩, ⟨0, .gate, .fill _ ["out", "output"], [], none, {}⟩]
  let net : Element := ⟨0, .compoundModule, .fill _ ["Net"], [gates, part .connections [connection]], none, {}⟩
  ⟨0, .nedFile, .fill _ ["n.ned"], [⟨0, .package, .fill _ ["ned"], [], none, {}⟩, channel, net], none, {}⟩

def datarateIndex (kind : Tag) : TypeIndex := TypeIndex.empty.addFile "p" (datarateFile kind)

/-- The walk over the file comes to the parameter of the connection inside of a channel spec of that type. -/
def MeetsParam (kind : Tag) : Prop :=
  ∃ point, (standard TypeIndex.resolver "p").Visits ⟨datarateFile kind, .initial, datarateIndex kind⟩ point ∧
    point.element.tag = .param ∧
    (point.session.scope.currentChannelSpec?.bind Prod.snd).map TypeInfo.tag = some kind

theorem meetsParam_of_trace {kind : Tag}
    (h : ∃ point ∈ (standard TypeIndex.resolver "p").trace (datarateFile kind) .initial (datarateIndex kind),
      point.element.tag = .param ∧
        (point.session.scope.currentChannelSpec?.bind Prod.snd).map TypeInfo.tag = some kind) : MeetsParam kind := by
  obtain ⟨point, hpoint, hparam⟩ := h
  exact ⟨point, mem_trace_iff.1 hpoint, hparam⟩

/-- With a simple module under that name, which the structural checks accept, nothing is found, and the parameter of the connection has been looked for in the module. -/
theorem meetsParam_simpleModule :
    (ParseTree.ofElement (datarateFile .simpleModule)).isSound = true ∧
      ((standard TypeIndex.resolver "p").validate (datarateFile .simpleModule) .initial
        (datarateIndex .simpleModule)).Clean ∧
      MeetsParam .simpleModule :=
  ⟨by decide +kernel, ⟨by decide +kernel, by decide +kernel⟩, meetsParam_of_trace (by decide +kernel)⟩

/-- With a channel it is looked for in a channel. -/
theorem fits_of_passes_channel :
    MeetsParam .channel ∧
      ∀ point, (standard TypeIndex.resolver "p").Visits ⟨datarateFile .channel, .initial, datarateIndex .channel⟩ point →
        ∀ e info, .channelSpec e (some info) ∈ point.session.scope.frames → info.tag.isModuleLike = false := by
  refine ⟨meetsParam_of_trace (by decide +kernel), fun point hvisits => ?_⟩
  have hstart : Session.initial.scope.Fits
      ((standard TypeIndex.resolver "p").DefaultChannel (datarateIndex .channel)) :=
    fun _ hframe => absurd hframe List.not_mem_nil
  refine ((fits_of_passes (standard TypeIndex.resolver "p") hstart hvisits _ .met).2 ?_).2
  -- whatever has been looked up by then, the name stands for the channel
  rintro info ⟨later, hreaches, hlookup⟩
  have hreached : (datarateIndex .channel).Reached := .addFile _ _ .empty
  obtain ⟨hlater, hsame⟩ := hreached.of_reaches hreaches
  have htags := (hreached.answersAgree_lookupTopLevel hlater hsame.symm "ned.DatarateChannel" "p").tag_eq
  have hfirst : ((datarateIndex .channel).lookupTopLevel "ned.DatarateChannel" "p").1.map TypeInfo.tag =
      some .channel := by decide +kernel
  have hlast : (later.lookupTopLevel "ned.DatarateChannel" "p").1 = some info := hlookup
  rw [hfirst, hlast] at htags
  exact (Option.some.inj htags).symm

end Validator

end NedCheck
