import NedCheck.Proofs.Validation.Setting

/-!
# Omissions

What an element can leave out so that validation cannot go on: a submodule its type, and a channel spec its type where there is no default channel type either. `FirstOmission` says that a fault is the first omission of a row of elements, whatever becomes of the resolver between them.
-/

namespace NedCheck

variable {σ : Type}

/-- The element names neither a type nor a like-type. -/
def Element.isUntyped (e : Element) : Bool := (e.value "type").isEmpty && (e.value "like-type").isEmpty

namespace Validator

/-- What an element leaves out that validation cannot do without, when the resolver is in the given state. -/
def omission? (v : Validator σ) (e : Element) (state : σ) : Option ValidationFault :=
  if e.isUntyped then
    match e.tag with
    | .submodule => some (.submoduleWithoutType e.name)
    | .channelSpec =>
      if (v.resolver.lookupTopLevel v.defaultChannelType v.project state).1.isSome then none
      else some (.missingDefaultChannel v.defaultChannelType)
    | _ => none
  else none

/-- The fault is the first omission of the elements, each met in a state that calls lead to. -/
inductive FirstOmission (v : Validator σ) (start : σ) : List Element → Option ValidationFault → Prop where
  | nil : FirstOmission v start [] none
  | here {e : Element} {state : σ} {fault : ValidationFault} (rest : List Element) :
    v.resolver.Reaches start state → v.omission? e state = some fault →
      FirstOmission v start (e :: rest) (some fault)
  | later {e : Element} {state : σ} {rest : List Element} {fault : Option ValidationFault} :
    v.resolver.Reaches start state → v.omission? e state = none → FirstOmission v start rest fault →
      FirstOmission v start (e :: rest) fault

variable {v : Validator σ}

theorem omission?_eq_none {e : Element} (hsubmodule : e.tag ≠ .submodule) (hspec : e.tag ≠ .channelSpec)
    (state : σ) : v.omission? e state = none := by
  unfold omission?
  by_cases huntyped : e.isUntyped = true
  · rw [if_pos huntyped]
    split
    · exact absurd ‹_› hsubmodule
    · exact absurd ‹_› hspec
    · rfl
  · rw [if_neg huntyped]

theorem omission?_of_anywhere {e : Element} (h : e.tag.setting = .anywhere) (state : σ) :
    v.omission? e state = none := by
  apply omission?_eq_none <;> intro htag <;> rw [htag] at h <;> exact absurd h (by decide)

theorem omission?_congr (e : Element) {state other : σ}
    (h : (v.resolver.lookupTopLevel v.defaultChannelType v.project other).1.isSome =
      (v.resolver.lookupTopLevel v.defaultChannelType v.project state).1.isSome) :
    v.omission? e other = v.omission? e state := by
  rw [omission?, omission?, h]

theorem omission?_eq_none_iff {e : Element} {state : σ} :
    v.omission? e state = none ↔
      (e.tag = .submodule → e.isUntyped = false) ∧
        (e.tag = .channelSpec → e.isUntyped = true →
          (v.resolver.lookupTopLevel v.defaultChannelType v.project state).1.isSome = true) := by
  unfold omission?
  grind

namespace FirstOmission

variable {start next : σ} {left right : List Element} {fault : Option ValidationFault}

theorem of_reaches (hreaches : v.resolver.Reaches start next) (h : v.FirstOmission next left fault) :
    v.FirstOmission start left fault := by
  induction h with
  | nil => exact .nil
  | here rest hstate homission => exact .here rest (hreaches.trans hstate) homission
  | later hstate homission _ ih => exact .later (hreaches.trans hstate) homission ih

theorem append_of_some {fault : ValidationFault} (h : v.FirstOmission start left (some fault)) :
    v.FirstOmission start (left ++ right) (some fault) := by
  generalize hfault : some fault = found at h
  induction h with
  | nil => exact absurd hfault (by simp)
  | here rest hstate homission => exact .here (rest ++ right) hstate homission
  | later hstate homission _ ih => exact .later hstate homission (ih hfault)

theorem append_of_none (h : v.FirstOmission start left none) (hright : v.FirstOmission start right fault) :
    v.FirstOmission start (left ++ right) fault := by
  generalize hfault : (none : Option ValidationFault) = found at h
  induction h with
  | nil => exact hright
  | here rest hstate homission => exact absurd hfault (by simp)
  | later hstate homission _ ih => exact .later hstate homission (ih hfault)

theorem of_forall_anywhere {elements : List Element} (h : ∀ e ∈ elements, e.tag.setting = .anywhere) :
    v.FirstOmission start elements none := by
  induction elements with
  | nil => exact .nil
  | cons e rest ih =>
    exact .later (.refl _) (omission?_of_anywhere (h e (by simp)) start) (ih fun d hd => h d (by simp [hd]))

/-- Where no call changes what is left out, the fault is the first omission as seen from the start. -/
theorem eq_findSome? (h : v.FirstOmission start left fault)
    (hsteady : ∀ e ∈ left, ∀ state, v.resolver.Reaches start state → v.omission? e state = v.omission? e start) :
    fault = left.findSome? (v.omission? · start) := by
  induction h with
  | nil => rfl
  | @here e state fault rest hstate homission =>
    rw [List.findSome?_cons, ← hsteady e (by simp) state hstate, homission]
  | @later e state rest fault hstate homission _ ih =>
    rw [List.findSome?_cons, ← hsteady e (by simp) state hstate, homission]
    exact ih fun d hd => hsteady d (by simp [hd])

theorem exists_of_some {fault : ValidationFault} (h : v.FirstOmission start left (some fault)) :
    ∃ e ∈ left, e.isUntyped = true ∧
      (e.tag = .submodule ∧ fault = .submoduleWithoutType e.name ∨
        e.tag = .channelSpec ∧ fault = .missingDefaultChannel v.defaultChannelType) := by
  generalize hfault : some fault = found at h
  induction h with
  | nil => exact absurd hfault (by simp)
  | @here e state found rest _ homission =>
    obtain rfl := Option.some.inj hfault
    refine ⟨e, by simp, ?_⟩
    unfold omission? at homission
    grind
  | @later e state rest found _ _ _ ih =>
    obtain ⟨d, hd, hspec⟩ := ih hfault
    exact ⟨d, by simp [hd], hspec⟩

end FirstOmission

end Validator

end NedCheck
