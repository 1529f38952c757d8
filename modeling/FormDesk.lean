import FormDesk.Main
import FormDesk.Proofs.Binary64.HalfEven
import FormDesk.Proofs.Calculation
import FormDesk.Proofs.CommandLine.Placement
import FormDesk.Proofs.Expression.Accumulator
import FormDesk.Proofs.Expression.Continuation
import FormDesk.Proofs.Expression.Nan
import FormDesk.Proofs.Expression.Natural
import FormDesk.Proofs.Expression.Operands
import FormDesk.Proofs.Expression.Spacing
import FormDesk.Proofs.Program
import FormDesk.Proofs.Run.Command
import FormDesk.Proofs.Run.Report
import FormDesk.Proofs.Run.Settings
import FormDesk.Proofs.Run.SingleLine
import FormDesk.Proofs.Settings.RoundTrip
import FormDesk.Proofs.ValueText.Rounded
import FormDesk.Proofs.ValueText.Grouped
import FormDesk.Proofs.FullName.Distinct
import FormDesk.Proofs.FullName.Rules
import FormDesk.Proofs.FullName.Spelling
