import LosslessSyntax.CommandLine.Run
import LosslessSyntax.Main
import LosslessSyntax.Parse
import LosslessSyntax.Proofs.CommandLine.Check
import LosslessSyntax.Proofs.Diagnostic.Addition
import LosslessSyntax.Proofs.Diagnostic.Paired
import LosslessSyntax.Proofs.Grammar.Groups
import LosslessSyntax.Proofs.Grammar.Markers
import LosslessSyntax.Proofs.Grammar.Situated
import LosslessSyntax.Proofs.Grammar.Watched
import LosslessSyntax.Proofs.Operator.Scanned
import LosslessSyntax.Proofs.Operator.TableJson
import LosslessSyntax.Proofs.Parse.Concatenation
import LosslessSyntax.Proofs.Parse.Events
import LosslessSyntax.Proofs.Parse.Headroom
import LosslessSyntax.Proofs.Parse.LineBreaks
import LosslessSyntax.Proofs.Parse.Offsets
import LosslessSyntax.Proofs.Parse.Progress
import LosslessSyntax.Proofs.Parse.SeenAlike
import LosslessSyntax.Proofs.Parse.Sources
import LosslessSyntax.Proofs.Printing.RoundTrip
import LosslessSyntax.Proofs.Reparse.SessionDiagnostics
import LosslessSyntax.Proofs.Report.Marker
import LosslessSyntax.Proofs.Scanner.Decided
import LosslessSyntax.Proofs.Scanner.Faults
import LosslessSyntax.Proofs.Scanner.Interrupted
import LosslessSyntax.Proofs.Scanner.Partition
import LosslessSyntax.Proofs.Scanner.Positions
import LosslessSyntax.Proofs.Scanner.Prescribed
import LosslessSyntax.Proofs.Text.Decoding
import LosslessSyntax.Proofs.Text.Edit
import LosslessSyntax.Proofs.Tree.Dump
import LosslessSyntax.Reparse.Basic
import LosslessSyntax.Report.Basic
import LosslessSyntax.Tree.Render
