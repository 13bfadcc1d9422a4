import ModuleBoundary.Main
import ModuleBoundary.Proofs.CommandLine.Exit
import ModuleBoundary.Proofs.Identity.Placement
import ModuleBoundary.Proofs.Identity.Strictness
import ModuleBoundary.Proofs.Import.Forms
import ModuleBoundary.Proofs.Import.Statement
import ModuleBoundary.Proofs.Listing.Membership
import ModuleBoundary.Proofs.Reference.Agreement
import ModuleBoundary.Proofs.Reference.FullyQualified
import ModuleBoundary.Proofs.Reference.Names
import ModuleBoundary.Proofs.Reference.Standing
import ModuleBoundary.Proofs.Report.Lines
import ModuleBoundary.Proofs.Report.Reading
import ModuleBoundary.Proofs.Routing.Base
import ModuleBoundary.Proofs.Routing.Repeats
import ModuleBoundary.Proofs.Rulebook.Choosing
import ModuleBoundary.Proofs.Rulebook.Reordering
import ModuleBoundary.Proofs.Run.Evidence
import ModuleBoundary.Proofs.Run.LineEnds
import ModuleBoundary.Proofs.Run.Passes
import ModuleBoundary.Proofs.Run.Rules
import ModuleBoundary.Proofs.Run.Separation
import ModuleBoundary.Proofs.Run.Sources
import ModuleBoundary.Proofs.Text.Offsets
import ModuleBoundary.Proofs.Import.Offsets
import ModuleBoundary.Proofs.Import.Mixed
