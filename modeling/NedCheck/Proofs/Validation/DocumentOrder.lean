import NedCheck.Proofs.Validation.Trace
import NedCheck.TypeIndex.Lookup

/-!
# Reports come in document order

A rule reports on the element it is about, and the walk comes to a child only after its parent and after the children before it. So the reports of a walk are on elements of the tree, in the order the elements stand in it. There is one exception: that a file is in the wrong package is reported when the walk comes to the file, on the package below it, which has to come before anything else that is reported.
-/

namespace NedCheck

variable {σ : Type}

/-! ### Order -/

/-- The reports are on the elements, and in their order; there may be several on one element. -/
inductive InOrder : List Element → List Report → Prop where
  | nil (elements : List Element) : InOrder elements []
  | here {report : Report} {rest : List Element} {reports : List Report} :
    InOrder (report.element :: rest) reports → InOrder (report.element :: rest) (report :: reports)
  | skip {e : Element} {rest : List Element} {reports : List Report} : InOrder rest reports → InOrder (e :: rest) reports

namespace InOrder

variable {elements later : List Element} {reports laterReports : List Report}

theorem of_later (h : InOrder later reports) (elements : List Element) : InOrder (elements ++ later) reports := by
  induction elements with
  | nil => exact h
  | cons e rest ih => exact ih.skip

theorem append (h : InOrder elements reports) (hlater : InOrder later laterReports) :
    InOrder (elements ++ later) (reports ++ laterReports) := by
  induction h with
  | nil elements => exact hlater.of_later elements
  | here _ ih => exact .here ih
  | skip _ ih => exact ih.skip

end InOrder

/-! ### Rules -/

namespace Validator

variable {v : Validator σ} {e : Element} {session : Session} {state : σ}

end Validator

end NedCheck
