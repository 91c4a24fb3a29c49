import NedCheck.Element.Markup
import NedCheck.Outline
import NedCheck.ParseTree.Markup
import NedCheck.Proofs.ImportSpec
import NedCheck.Proofs.ParseTree.Acceptance
import NedCheck.Proofs.ParseTree.Delivery
import NedCheck.Proofs.ParseTree.Detachment
import NedCheck.Proofs.ParseTree.Edits
import NedCheck.Proofs.ParseTree.Markup
import NedCheck.Proofs.ParseTree.Repair
import NedCheck.Proofs.ParseTree.RoundTrip
import NedCheck.Proofs.Parsing.Accounting
import NedCheck.Proofs.Parsing.OutlineRuns
import NedCheck.Proofs.Parsing.Soundness
import NedCheck.Proofs.TypeIndex.AdditionOrder
import NedCheck.Proofs.TypeIndex.History
import NedCheck.Proofs.TypeIndex.Listing
import NedCheck.Proofs.TypeIndex.Projects
import NedCheck.Proofs.TypeIndex.Resolution
import NedCheck.Proofs.TypeIndex.Separation
import NedCheck.Proofs.TypeIndex.Stripping
import NedCheck.Proofs.TypeIndex.Termination
import NedCheck.Proofs.Validation.Bases
import NedCheck.Proofs.Validation.Clashes
import NedCheck.Proofs.Validation.Clearing
import NedCheck.Proofs.Validation.Confinement
import NedCheck.Proofs.Validation.DocumentOrder
import NedCheck.Proofs.Validation.Endpoints
import NedCheck.Proofs.Validation.Entering
import NedCheck.Proofs.Validation.Faults
import NedCheck.Proofs.Validation.FrameTypes
import NedCheck.Proofs.Validation.Hooks
import NedCheck.Proofs.Validation.Invariants
import NedCheck.Proofs.Validation.Locality
import NedCheck.Proofs.Validation.MemberTable
import NedCheck.Proofs.Validation.Misplacement
import NedCheck.Proofs.Validation.Projects
import NedCheck.Proofs.Validation.Repetition
import NedCheck.Proofs.Validation.Stripping
import NedCheck.Proofs.Validation.SubmoduleTypes
import NedCheck.Proofs.Validation.UselessImports
import NedCheck.Proofs.Validation.Uses
import NedCheck.Proofs.Validation.Views
import NedCheck.TypeIndex.Lookup
import NedCheck.Validation.Walk
