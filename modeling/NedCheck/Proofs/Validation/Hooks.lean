import NedCheck.Proofs.TypeIndex.History
import NedCheck.Proofs.Validation.Repetition
import NedCheck.Proofs.Validation.Watching

/-!
# The checks of a caller

If what the checks of a caller do makes no difference to later answers of the resolver, a validation with them is the validation without, with errors in between. A memory of their own makes no difference, and an index without cyclic inheritance they may ask whatever they like.

In a cycle the order of the members of a type hangs on what has been asked before. There a check that looks up a type may change what is reported afterwards, by what it does and not by what it finds.
-/

namespace NedCheck

variable {σ : Type} {Alike : σ → σ → Prop}

/-! ### Checks that make no difference to the resolver -/

/-- What the checks do makes no difference to later answers: states that are alike answer alike and go on to do so, and the checks leave such a state for another one. -/
structure Watcher.Discreet (watcher : Watcher σ) (v : Validator σ) (Alike : σ → σ → Prop) : Prop where
  confined : v.resolver.Confined v.project (fun _ => True) Alike
  alike {left right : σ} (inquiry : Inquiry) : Alike left right → Alike left (watcher inquiry right).2

theorem Validator.confined_eq (v : Validator σ) : v.resolver.Confined v.project (fun _ => True) Eq where
  lookupType name _ hsame := by rw [hsame]; exact ⟨rfl, rfl⟩
  members _ _ _ _ _ := trivial
  lookupTopLevel qualifiedName hsame := by rw [hsame]; exact ⟨rfl, rfl⟩
  expectedPackage? file hsame := by rw [hsame]; exact ⟨rfl, rfl⟩
  qualifiedNames hsame := by rw [hsame]; exact ⟨rfl, rfl⟩

theorem Watcher.Discreet.shadows {v : Validator σ} {watcher : Watcher σ} (h : watcher.Discreet v Alike) :
    (Watcher.ofHooks .silent).Shadows Alike watcher where
  silent inquiry _ := Hooks.answer_silent inquiry
  alike inquiry halike := h.alike inquiry halike

section Beside

variable {η : Type} {resolver : Resolver σ}

/-- The resolver with something beside its state that it neither looks at nor changes. -/
def Resolver.beside (resolver : Resolver σ) (η : Type) : Resolver (σ × η) where
  lookupType name context now :=
    let (found, state) := resolver.lookupType name context now.1
    (found, state, now.2)
  lookupTopLevel qualifiedName project now :=
    let (found, state) := resolver.lookupTopLevel qualifiedName project now.1
    (found, state, now.2)
  expectedPackage? file now :=
    let (package, state) := resolver.expectedPackage? file now.1
    (package, state, now.2)
  qualifiedNames project now :=
    let (names, state) := resolver.qualifiedNames project now.1
    (names, state, now.2)

/-- Checks may remember what they like, as long as they are discreet about what the resolver has. -/
theorem Watcher.discreet_beside {v : Validator (σ × η)} (hresolver : v.resolver = resolver.beside η)
    (hconfined : resolver.Confined v.project (fun _ => True) Alike) {watcher : Watcher (σ × η)}
    (hkept : ∀ left inquiry now, Alike left now.1 → Alike left (watcher inquiry now).2.1) :
    watcher.Discreet v fun left right => Alike left.1 right.1 where
  confined := by
    rw [hresolver]
    exact {
      lookupType := fun name _ halike => hconfined.lookupType name trivial halike
      members := fun _ _ _ _ _ => trivial
      lookupTopLevel := fun qualifiedName halike => hconfined.lookupTopLevel qualifiedName halike
      expectedPackage? := fun file halike => hconfined.expectedPackage? file halike
      qualifiedNames := fun halike => hconfined.qualifiedNames halike }
  alike inquiry halike := hkept _ inquiry _ halike

end Beside

namespace TypeIndex

variable {left right next other : TypeIndex}

/-- Both have come about by some history, with the same registrations and packages, and no type extends itself. -/
structure Interchangeable (left right : TypeIndex) : Prop where
  first : left.Reached
  second : right.Reached
  same : SameRegistrations right left
  packages : right.expectedPackages = left.expectedPackages
  acyclic : left.Acyclic

theorem Reached.interchangeable (hreached : left.Reached) (hacyclic : left.Acyclic) : left.Interchangeable left :=
  ⟨hreached, hreached, .refl left, rfl, hacyclic⟩

theorem Interchangeable.of_reaches (h : left.Interchangeable right) (hleft : resolver.Reaches left next)
    (hright : resolver.Reaches right other) : next.Interchangeable other := by
  obtain ⟨hnext, hnextSame⟩ := h.first.of_reaches hleft
  obtain ⟨hother, hotherSame⟩ := h.second.of_reaches hright
  refine ⟨hnext, hother, (hotherSame.trans h.same).trans hnextSame.symm, ?_, hnextSame.symm.acyclic h.acyclic⟩
  rw [(le_of_reaches hright).packages, h.packages, (le_of_reaches hleft).packages]

theorem confined_interchangeable (project : String) :
    resolver.Confined project (fun _ => True) Interchangeable where
  lookupType {context left right} name _ h := by
    refine ⟨?_, h.of_reaches (resolver.reaches_lookupType ..) (resolver.reaches_lookupType ..)⟩
    show (left.lookupType name context).1 = (right.lookupType name context).1
    rw [h.first.lookupType_eq h.acyclic, h.second.lookupType_eq (h.same.symm.acyclic h.acyclic), h.same.resolve?_eq,
      h.same.linearized?_eq]
  members _ _ _ _ _ := trivial
  lookupTopLevel {left right} qualifiedName h := by
    refine ⟨?_, h.of_reaches (resolver.reaches_lookupTopLevel ..) (resolver.reaches_lookupTopLevel ..)⟩
    show (left.lookupTopLevel qualifiedName project).1 = (right.lookupTopLevel qualifiedName project).1
    rw [h.first.lookupTopLevel_eq h.acyclic, h.second.lookupTopLevel_eq (h.same.symm.acyclic h.acyclic),
      h.same.linearized?_eq, topLevelKey?, topLevelKey?, h.same.types]
  expectedPackage? file h := ⟨congrArg (·.get? file) h.packages.symm, h⟩
  qualifiedNames {left right} h := by
    refine ⟨?_, h⟩
    show left.qualifiedNames project = right.qualifiedNames project
    rw [qualifiedNames, qualifiedNames, h.same.types]

/-- Checks that do no more to an index than to ask it, and to remember what they like, are discreet. -/
theorem discreet_of_reaches {η : Type} {v : Validator (TypeIndex × η)} (hresolver : v.resolver = resolver.beside η)
    {watcher : Watcher (TypeIndex × η)} (hasks : ∀ inquiry now, resolver.Reaches now.1 (watcher inquiry now).2.1) :
    watcher.Discreet v fun left right => left.1.Interchangeable right.1 :=
  Watcher.discreet_beside hresolver (confined_interchangeable v.project)
    fun _ inquiry now h => h.of_reaches (.refl _) (hasks inquiry now)

end TypeIndex

namespace Validator

/-- What the checks of a caller answer makes no difference to a validation but for errors in between: at most one on each element that they are asked about, in the order of the file. So it is for checks that do nothing but answer, and for checks that make no difference to later answers of the resolver: such a validation goes the course of the validation without checks to the same end, and reports what that one reports besides. Checks that do make a difference come to what they do to the resolver, and their answers to no more than errors in between. -/
theorem validate_withHooks (v : Validator σ) (e : Element) (session : Session) (state : σ) :
    (∀ hooks, ((v.withHooks .silent).validate e session state).Grows Eq (v.asked (.ofHooks .silent) e session state)
      ((v.withHooks hooks).validate e session state)) ∧
    (∀ (watcher : Watcher σ) (Alike : σ → σ → Prop), watcher.Discreet v Alike → Alike state state →
      ((v.withHooks .silent).validate e session state).Grows Alike (v.asked (.ofHooks .silent) e session state)
        (v.watch watcher e session state)) ∧
    (∀ watcher : Watcher σ, (v.watch watcher.mute e session state).Grows Eq (v.asked watcher.mute e session state)
      (v.watch watcher e session state)) ∧
    (∀ watcher : Watcher σ, (v.asked watcher e session state).Sublist e.descendants) := by
  have hdiscreet (watcher : Watcher σ) (Alike : σ → σ → Prop) (hwatcher : watcher.Discreet v Alike)
      (hstate : Alike state state) :
      ((v.withHooks .silent).validate e session state).Grows Alike (v.asked (.ofHooks .silent) e session state)
        (v.watch watcher e session state) := by
    rw [← watch_ofHooks]
    exact grows_watch hwatcher.shadows hwatcher.confined e session hstate
  refine ⟨fun hooks => ?_, hdiscreet, fun watcher => grows_watch watcher.shadows_mute v.confined_eq e session rfl,
    fun watcher => v.asked_sublist watcher e session state⟩
  rw [← v.watch_ofHooks hooks]
  exact hdiscreet (.ofHooks hooks) Eq ⟨v.confined_eq, fun _ hsame => hsame⟩ rfl

/-- Checks that look up the base themselves, and report the first one only. -/
def firstBaseWatcher : Watcher (TypeIndex × Nat) := fun inquiry now =>
  match inquiry with
  | .inheritance _ base =>
    (if now.2 = 0 then some "first base" else none, (now.1.lookupType base.name (.file "a.ned")).2, now.2 + 1)
  | _ => (none, now)

/-- The checks ask the index and count, and there is no cycle. -/
theorem validate_withHooks_inheritanceFile :
    let v : Validator (TypeIndex × Nat) := .standard (TypeIndex.resolver.beside Nat) "p"
    let start : TypeIndex × Nat := (TypeIndex.empty.addFile "p" TypeIndex.inheritanceFile, 0)
    ((v.withHooks .silent).validate TypeIndex.inheritanceFile .initial start).Grows
        (fun left right => left.1.Interchangeable right.1)
        (v.asked (.ofHooks .silent) TypeIndex.inheritanceFile .initial start)
        (v.watch firstBaseWatcher TypeIndex.inheritanceFile .initial start) ∧
      (v.watch firstBaseWatcher TypeIndex.inheritanceFile .initial start).diagnostics.map (·.message) =
        ["first base"] := by
  intro v start
  have hacyclic : start.1.Acyclic := .of_rank (fun key => if key.2 = "B" then 1 else 0) (by decide +kernel)
  have hasks (inquiry : Inquiry) (now : TypeIndex × Nat) :
      TypeIndex.resolver.Reaches now.1 (firstBaseWatcher inquiry now).2.1 := by
    cases inquiry with
    | inheritance _ base => exact TypeIndex.resolver.reaches_lookupType base.name (.file "a.ned") now.1
    | _ => exact .refl _
  have hdiscreet : firstBaseWatcher.Discreet v fun left right => left.1.Interchangeable right.1 :=
    TypeIndex.discreet_of_reaches rfl hasks
  have hstart : start.1.Interchangeable start.1 := (TypeIndex.Reached.addFile _ _ .empty).interchangeable hacyclic
  refine ⟨?_, by decide +kernel⟩
  exact (validate_withHooks v TypeIndex.inheritanceFile .initial start).2.1 firstBaseWatcher _ hdiscreet hstart

/-- A file with an import, and a module that extends one with two parameters and then one of two that extend each other. -/
def heirFile : Element :=
  let parameter (name : String) : Element := ⟨0, .param, .fill _ ["int", "false", name], [], none, {}⟩
  let parameters : Element := { Element.new .parameters with children := [parameter "a", parameter "b"] }
  let base (name : String) : Element := ⟨0, .extendsName, .fill _ [name], [], none, {}⟩
  let rich : Element := ⟨0, .simpleModule, .fill _ ["K"], [parameters], none, {}⟩
  let heir : Element := ⟨0, .simpleModule, .fill _ ["T"], [base "K", base "B"], none, {}⟩
  ⟨0, .nedFile, .fill _ ["n.ned"], [⟨0, .importDecl, .fill _ ["K"], [], none, {}⟩, rich, heir], none, {}⟩

/-- Checks that look up a type when they are asked about an import, and find nothing. -/
def peekingWatcher : Watcher TypeIndex := fun inquiry index =>
  match inquiry with
  | .importClash _ _ => (none, (index.lookupType "A" (.file "a.ned")).2)
  | _ => (none, index)

/-- A look-up made by a check changes the order of the members in a cycle, and so the order of what is reported on them. -/
theorem watch_heirFile :
    let v := Validator.standard TypeIndex.resolver "p"
    let index := (TypeIndex.empty.addFile "p" TypeIndex.rivalFile).addFile "p" heirFile
    let plain := ((v.withHooks .silent).validate heirFile .initial index).diagnostics
    let full := (v.watch peekingWatcher heirFile .initial index).diagnostics
    plain.map (·.message) =
        ["'a': conflicts with inherited member of 'B'", "'b': conflicts with inherited member of 'B'"] ∧
      full.map (·.message) =
        ["'b': conflicts with inherited member of 'B'", "'a': conflicts with inherited member of 'B'"] ∧
      ∀ sites, ¬Interspersed sites plain full := by
  intro v index plain full
  have hplain : plain.map (·.message) =
      ["'a': conflicts with inherited member of 'B'", "'b': conflicts with inherited member of 'B'"] := by
    decide +kernel
  have hfull : full.map (·.message) =
      ["'b': conflicts with inherited member of 'B'", "'a': conflicts with inherited member of 'B'"] := by
    decide +kernel
  refine ⟨hplain, hfull, fun sites h => ?_⟩
  have hsublist := h.sublist.map (·.message)
  rw [hplain, hfull] at hsublist
  exact absurd (hsublist.eq_of_length rfl) (by decide)

end Validator

end NedCheck
