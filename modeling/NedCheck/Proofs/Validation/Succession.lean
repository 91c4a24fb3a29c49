import NedCheck.Proofs.Validation.Clearing
import NedCheck.Proofs.Validation.Questions
import NedCheck.TypeIndex.Lookup

/-!
# Files one after another

A validator may be used for many files. What the walk over one of them leaves behind is the context, the package and the imports of the last file element it came to, and a clear scope. A file sets the first three before anything is done with them, and it finds the scope it would find in a new session. So with a resolver whose answers do not change, each file comes to the result it would come to alone, also after walks that ended in a fault somewhere deep inside a file.
-/

namespace NedCheck

variable {σ : Type}

/-- What can be seen of an outcome: the fault if there is one, and what has been reported. -/
def Outcome.result (outcome : Outcome σ) : Option ValidationFault × List Diagnostic :=
  (outcome.fault, outcome.diagnostics)

namespace Validator

variable {v : Validator σ}

/-- Validates trees one after another, each in the session and state that the one before it has left. -/
def validateSeries (v : Validator σ) : List Element → Session → σ → List (Outcome σ)
  | [], _, _ => []
  | root :: rest, session, state =>
    let outcome := v.validate root session state
    outcome :: v.validateSeries rest outcome.session outcome.state

theorem result_validate_eq (hconstant : v.resolver.Constant) (e : Element) (session : Session) (left right : σ) :
    (v.validate e session left).result = (v.validate e session right).result := by
  have hanswer := validate_answer_eq hconstant e session left right
  unfold Outcome.answered at hanswer
  unfold Outcome.result Outcome.diagnostics
  grind

/-- Of the session it is met in a file sees nothing but the scope. -/
theorem validate_file_congr {file : Element} (hfile : file.tag = .nedFile) {left right : Session}
    (hscope : left.scope = right.scope) (state : σ) : v.validate file left state = v.validate file right state := by
  have henter : v.enter file left state = v.enter file right state := by
    rw [enter, enter, hfile]
    dsimp only [enterFile]
    rw [hscope]
  rw [validate_eq, validate_eq, henter]

/-- A row of files is validated to what each of them is validated to on its own in a new session, whatever the row is begun in as long as the scope is clear, and whichever of the files end in a fault. -/
theorem validateSeries_result (hconstant : v.resolver.Constant) {files : List Element}
    (hfiles : ∀ file ∈ files, file.tag = .nedFile) {session : Session} (hclear : session.scope.isClear = true)
    (state other : σ) :
    (v.validateSeries files session state).map Outcome.result =
      files.map fun file => (v.validate file .initial other).result := by
  induction files generalizing session state with
  | nil => rfl
  | cons file rest ih =>
    have hscope : session.scope = Session.initial.scope := Scope.isClear_iff.1 hclear
    have hafter := Scope.isClear_iff.2 (v.scope_validate_eq_empty file hscope state)
    rw [validateSeries, List.map_cons, List.map_cons, ih (fun other hother => hfiles other (by simp [hother])) hafter,
      validate_file_congr (hfiles file (by simp)) hscope, result_validate_eq hconstant file .initial state other]

/-- A file with a package, in which a network has one submodule of a type there is not and one of no type. -/
def brokenFile : Element :=
  let package : Element := ⟨0, .package, .fill _ ["q"], [], none, {}⟩
  let gone : Element := ⟨0, .submodule, .fill _ ["first", "Gone"], [], some "a.ned:4", {}⟩
  let untyped : Element := ⟨0, .submodule, .fill _ ["second"], [], none, {}⟩
  let network : Element :=
    ⟨0, .compoundModule, .fill _ ["Net"], [{ Element.new .submodules with children := [gone, untyped] }], none, {}⟩
  ⟨0, .nedFile, .fill _ ["a.ned"], [package, network], none, {}⟩

/-- A file without a package, in which one module extends another. -/
def extendingFile : Element :=
  let base : Element := ⟨0, .simpleModule, .fill _ ["A"], [], none, {}⟩
  let extension : Element := ⟨0, .extendsName, .fill _ ["A"], [], none, {}⟩
  let derived : Element := ⟨0, .simpleModule, .fill _ ["B"], [extension], none, {}⟩
  ⟨0, .nedFile, .fill _ ["b.ned"], [base, derived], none, {}⟩

/-- The second file is in another package than the first, whose validation has ended inside of a network. -/
theorem validateSeries_result_brokenFile :
    let index := (TypeIndex.empty.addFile "p" brokenFile).addFile "p" extendingFile
    let v := standard (TypeIndex.resolver.frozen index) "p"
    ((v.validateSeries [brokenFile, extendingFile] .initial ()).map Outcome.result).map
        (fun result => (result.1, result.2.map Diagnostic.text)) =
      [(some (.submoduleWithoutType "second"), ["a.ned:4: error: 'Gone': no such module type"]), (none, [])] := by
  intro index v
  have hconstant : v.resolver.Constant := TypeIndex.resolver.constant_frozen index
  have hfiles : ∀ file ∈ [brokenFile, extendingFile], file.tag = .nedFile := by decide
  have hclear : Session.initial.scope.isClear = true := rfl
  rw [validateSeries_result hconstant hfiles hclear () ()]
  decide +kernel

end Validator

end NedCheck
