import Mathlib.Order.Defs.PartialOrder
import NedCheck.Proofs.TypeIndex.Building
import NedCheck.Proofs.Validation.Questions

/-!
# Checking a file again

What a check reports hangs on what the index remembers when it begins, and the check itself makes the index remember more. A second check still comes to the same result: an answer once given stays, because it is remembered from then on, so the second check gets the answers of the first one by one and has nothing new to remember.

The states of a resolver are ordered by what they know. A call `Repeats` in a state if it goes up the order and, made again in any later state, gives the same answer and leaves that state alone. Calls that repeat can be strung together, later ones depending on the answers to earlier ones, and a whole validation is such a string.
-/

namespace NedCheck

variable {σ : Type} [Preorder σ] {α β : Type}

/-! ### Calls that repeat -/

/-- The call goes up to a later state, and in every state from then on it gives the same answer and changes nothing. -/
structure Repeats (call : σ → α × σ) (state : σ) : Prop where
  grows : state ≤ (call state).2
  again {later : σ} : (call state).2 ≤ later → call later = ((call state).1, later)

namespace Repeats

variable {call : σ → α × σ} {state : σ}

theorem pure (answer : α) (state : σ) : Repeats (fun state => (answer, state)) state :=
  ⟨le_refl state, fun _ => rfl⟩

theorem bind (hcall : Repeats call state) (next : α → σ → β × σ)
    (hnext : Repeats (next (call state).1) (call state).2) :
    Repeats (fun state => next (call state).1 (call state).2) state := by
  refine ⟨le_trans hcall.grows hnext.grows, ?_⟩
  intro later hlater
  have hfirst : call later = ((call state).1, later) := hcall.again (le_trans hnext.grows hlater)
  show next (call later).1 (call later).2 = _
  rw [hfirst]
  exact hnext.again hlater

theorem congr {other : σ → α × σ} (hcall : Repeats call state)
    (h : ∀ later, state ≤ later → other later = call later) : Repeats other state := by
  have hstate := h state (le_refl state)
  refine ⟨?_, ?_⟩
  · rw [hstate]
    exact hcall.grows
  · intro later hlater
    rw [hstate] at hlater ⊢
    rw [h later (le_trans hcall.grows hlater), hcall.again hlater]

theorem of_answer {result : σ → β × σ} (hcall : Repeats call state)
    (hstate : ∀ state, (result state).2 = (call state).2)
    (hanswer : ∀ left right, (call left).1 = (call right).1 → (result left).1 = (result right).1) :
    Repeats result state := by
  refine ⟨?_, ?_⟩
  · rw [hstate]
    exact hcall.grows
  · intro later hlater
    rw [hstate] at hlater
    have hagain := hcall.again hlater
    refine Prod.ext (hanswer later state ?_) ?_
    · rw [hagain]
    · rw [hstate, hagain]

end Repeats

/-- Every call of the resolver repeats. -/
structure Resolver.Steady (resolver : Resolver σ) : Prop where
  lookupType (name : String) (context : LookupContext) (state : σ) : Repeats (resolver.lookupType name context) state
  lookupTopLevel (qualifiedName project : String) (state : σ) :
    Repeats (resolver.lookupTopLevel qualifiedName project) state
  expectedPackage? (file : String) (state : σ) : Repeats (resolver.expectedPackage? file) state
  qualifiedNames (project : String) (state : σ) : Repeats (resolver.qualifiedNames project) state

/-- If every question repeats, so does a row of them. -/
theorem Resolver.Asks.repeats {resolver : Resolver σ} {call : σ → α × σ} (hcall : resolver.Asks call)
    (hsteady : resolver.Steady) (state : σ) : Repeats call state := by
  induction hcall generalizing state with
  | answer answer => exact .pure answer state
  | @ask _ _ question next hquestion _ ih =>
    have hrepeats : Repeats question state := by
      cases hquestion with
      | lookupType name context => exact hsteady.lookupType name context state
      | lookupTopLevel qualifiedName project => exact hsteady.lookupTopLevel qualifiedName project state
      | expectedPackage? file => exact hsteady.expectedPackage? file state
      | qualifiedNames project => exact hsteady.qualifiedNames project state
    exact hrepeats.bind next (ih _ _)

namespace TypeIndex

variable {index later : TypeIndex} {key : TypeKey}

/-! ### What an index learns -/

theorem typeInfo_of_known {info : TypeInfo} (h : index.known.get? key = some info) :
    index.typeInfo key = (some info, index) := by
  unfold typeInfo
  rw [build_of_known h, Table.contains, h]
  rfl

theorem typeInfo_of_undeclared (hunknown : index.known.get? key = none) (hundeclared : index.types.get? key = none) :
    index.typeInfo key = (none, index) := by
  unfold typeInfo
  rw [build_eq_none hunknown hundeclared]

theorem typeInfo_of_declared {entry : TypeEntry} (hunknown : index.known.get? key = none)
    (hdeclared : index.types.get? key = some entry) :
    ∃ info, index.typeInfo key = (some info, { index with known := index.known.insert key info }) := by
  unfold typeInfo
  rw [build_succ hunknown hdeclared List.not_mem_nil, Table.contains, hunknown]
  exact ⟨_, rfl⟩

/-- The later index remembers more types that were declared before, and nothing else has changed. -/
structure Learns (index later : TypeIndex) : Prop where
  same : SameRegistrations later index
  packages : later.expectedPackages = index.expectedPackages
  keeps {key : TypeKey} {info : TypeInfo} : index.known.get? key = some info → later.known.get? key = some info
  declared {key : TypeKey} : index.types.get? key = none → index.known.get? key = none → later.known.get? key = none

instance : Preorder TypeIndex where
  le := Learns
  le_refl index := ⟨.refl index, rfl, id, fun _ hunknown => hunknown⟩
  le_trans before between after hleft hright := by
    refine ⟨hright.same.trans hleft.same, hright.packages.trans hleft.packages, ?_, ?_⟩
    · exact fun hknown => hright.keeps (hleft.keeps hknown)
    · intro key hundeclared hunknown
      apply hright.declared
      · rwa [hleft.same.types]
      · exact hleft.declared hundeclared hunknown

theorem le_remember {entry : TypeEntry} (hunknown : index.known.get? key = none)
    (hdeclared : index.types.get? key = some entry) (info : TypeInfo) :
    index ≤ { index with known := index.known.insert key info } := by
  refine ⟨⟨rfl, rfl, rfl⟩, rfl, ?_, ?_⟩
  · intro other found hfound
    have hother : key ≠ other := fun heq => by simp [← heq, hunknown] at hfound
    rw [Table.get?_insert, if_neg hother, hfound]
  · intro other hundeclared hnew
    have hother : key ≠ other := fun heq => by simp [← heq, hdeclared] at hundeclared
    rw [Table.get?_insert, if_neg hother, hnew]

theorem typeInfo_repeats (key : TypeKey) (index : TypeIndex) : Repeats (fun index => index.typeInfo key) index := by
  cases hknown : index.known.get? key with
  | some info =>
    exact (Repeats.pure (some info) index).congr fun later hlater => typeInfo_of_known (hlater.keeps hknown)
  | none =>
    cases hdeclared : index.types.get? key with
    | none =>
      -- a type that is not declared cannot come to be known later either
      apply (Repeats.pure none index).congr
      intro later hlater
      apply typeInfo_of_undeclared (hlater.declared hdeclared hknown)
      rw [hlater.same.types, hdeclared]
    | some entry =>
      obtain ⟨info, hinfo⟩ := typeInfo_of_declared hknown hdeclared
      refine ⟨?_, ?_⟩
      · rw [hinfo]
        exact le_remember hknown hdeclared info
      · intro later hlater
        rw [hinfo] at hlater ⊢
        apply typeInfo_of_known
        apply hlater.keeps
        rw [Table.get?_insert, if_pos rfl]

theorem lookupType_repeats (name : String) (context : LookupContext) (index : TypeIndex) :
    Repeats (fun index => index.lookupType name context) index := by
  have hresolve : ∀ later, index ≤ later → later.resolve? name context = index.resolve? name context :=
    fun later hlater => hlater.same.resolve?_eq name context
  cases hkey : index.resolve? name context with
  | none =>
    apply (Repeats.pure none index).congr
    intro later hlater
    rw [lookupType, hresolve later hlater, hkey]
  | some key =>
    apply (typeInfo_repeats key index).congr
    intro later hlater
    rw [lookupType, hresolve later hlater, hkey]

theorem lookupTopLevel_repeats (qualifiedName project : String) (index : TypeIndex) :
    Repeats (fun index => index.lookupTopLevel qualifiedName project) index := by
  by_cases htop : (index.types.get? (project, qualifiedName)).any (·.enclosing.isNone) = true
  · apply (typeInfo_repeats (project, qualifiedName) index).congr
    intro later hlater
    rw [lookupTopLevel, hlater.same.types]
    grind
  · apply (Repeats.pure none index).congr
    intro later hlater
    rw [lookupTopLevel, hlater.same.types]
    grind

theorem resolver_steady : resolver.Steady := by
  refine ⟨lookupType_repeats, lookupTopLevel_repeats, ?_, ?_⟩
  · intro file index
    apply (Repeats.pure (index.expectedPackages.get? file) index).congr
    intro later hlater
    show (later.expectedPackages.get? file, later) = _
    rw [hlater.packages]
  · intro project index
    apply (Repeats.pure (index.qualifiedNames project) index).congr
    intro later hlater
    show (later.qualifiedNames project, later) = _
    rw [qualifiedNames, qualifiedNames, hlater.same.types]

theorem le_of_reaches (h : resolver.Reaches index later) : index ≤ later := by
  induction h with
  | refl => exact le_refl index
  | @tail between _ _ hcall ih =>
    refine le_trans ih ?_
    cases hcall with
    | lookupType name context => exact (resolver_steady.lookupType name context between).grows
    | lookupTopLevel qualifiedName project => exact (resolver_steady.lookupTopLevel qualifiedName project between).grows
    | expectedPackage? file => exact (resolver_steady.expectedPackage? file between).grows
    | qualifiedNames project => exact (resolver_steady.qualifiedNames project between).grows

theorem Reached.of_reaches (hreached : index.Reached) (h : resolver.Reaches index later) :
    later.Reached ∧ SameRegistrations later index := by
  induction h with
  | refl => exact ⟨hreached, .refl index⟩
  | tail _ hcall ih =>
    obtain ⟨hbetween, hsame⟩ := ih
    cases hcall with
    | lookupType name context =>
      exact ⟨.lookupType name context hbetween, (sameRegistrations_lookupType _ name context).trans hsame⟩
    | lookupTopLevel qualifiedName project =>
      exact ⟨.lookupTopLevel qualifiedName project hbetween,
        (sameRegistrations_lookupTopLevel _ qualifiedName project).trans hsame⟩
    | expectedPackage? file => exact ⟨hbetween, hsame⟩
    | qualifiedNames project => exact ⟨hbetween, hsame⟩

/-! ### Checks -/

theorem checkFile_repeats (project : String) (root : Element) (index : TypeIndex) :
    Repeats (checkFile resolver project root) index := by
  have : Nonempty TypeIndex := ⟨index⟩
  have hwalk := ((Validator.standard resolver project).validate_asks root .initial).repeats resolver_steady index
  unfold checkFile
  exact hwalk.of_answer (by grind [Outcome.answered, validateTree, Outcome.diagnostics])
    (by grind [Outcome.answered, validateTree, Outcome.diagnostics])

/-- What an index can be asked without adding to it. -/
inductive Query where
  | lookupType (name : String) (context : LookupContext)
  | lookupTopLevel (qualifiedName project : String)
  | checkFile (project : String) (root : Element)

/-- The index after a query. -/
def ask (index : TypeIndex) : Query → TypeIndex
  | .lookupType name context => (index.lookupType name context).2
  | .lookupTopLevel qualifiedName project => (index.lookupTopLevel qualifiedName project).2
  | .checkFile project root => (NedCheck.checkFile resolver project root index).2

theorem le_ask (index : TypeIndex) (query : Query) : index ≤ index.ask query := by
  cases query with
  | lookupType name context => exact (resolver_steady.lookupType name context index).grows
  | lookupTopLevel qualifiedName project => exact (resolver_steady.lookupTopLevel qualifiedName project index).grows
  | checkFile project root => exact (checkFile_repeats project root index).grows

theorem le_foldl_ask (index : TypeIndex) (queries : List Query) : index ≤ queries.foldl ask index := by
  induction queries generalizing index with
  | nil => exact le_refl index
  | cons query rest ih => exact le_trans (index.le_ask query) (ih (index.ask query))

/-- A tree that has been checked once comes to the same diagnostics or the same fault in every later check, whatever the index is asked in between, and a later check teaches the index nothing. -/
theorem checkFile_again (index : TypeIndex) (project : String) (root : Element) (between : List Query) :
    let first := checkFile resolver project root index
    checkFile resolver project root (between.foldl ask first.2) = (first.1, between.foldl ask first.2) :=
  (checkFile_repeats project root index).again (le_foldl_ask _ between)

end TypeIndex

end NedCheck
