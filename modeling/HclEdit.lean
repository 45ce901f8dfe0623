import HclEdit.Indent.RuleJson
import HclEdit.Main
import HclEdit.Proofs.Cli.Discipline
import HclEdit.Proofs.Config.Checker
import HclEdit.Proofs.Config.Flags
import HclEdit.Proofs.Diagnostic.Placed
import HclEdit.Proofs.Document.Edits
import HclEdit.Proofs.Document.Faults
import HclEdit.Proofs.Indent.Independence
import HclEdit.Proofs.Indent.Nesting
import HclEdit.Proofs.Indent.Queries
import HclEdit.Proofs.Indent.Rewriting
import HclEdit.Proofs.Indent.RuleJson
import HclEdit.Proofs.Indent.RuleText
import HclEdit.Proofs.Indent.Template
import HclEdit.Proofs.Indent.WellIndented
import HclEdit.Proofs.Indent.Widths
import HclEdit.Proofs.Lines.Partition
import HclEdit.Proofs.Lines.Points
import HclEdit.Proofs.Outline.Around
import HclEdit.Proofs.Outline.Listed
import HclEdit.Proofs.Outline.Listing
import HclEdit.Proofs.Problem.Boxed
import HclEdit.Proofs.Problem.Printed
import HclEdit.Proofs.Problem.ShortestSource
import HclEdit.Proofs.Session.FailedStart
import HclEdit.Proofs.Session.LateEnds
import HclEdit.Proofs.Session.Reporting
import HclEdit.Proofs.Session.Streams
import HclEdit.Proofs.Session.Tracking
import HclEdit.Proofs.Text.Bytes
import HclEdit.Proofs.Tree.Accepted
import HclEdit.Proofs.Tree.Arranged
import HclEdit.Proofs.Tree.Descendants
import HclEdit.Proofs.Tree.Drafting
import HclEdit.Proofs.Tree.Innermost
import HclEdit.Proofs.Tree.Outermost
import HclEdit.Proofs.Tree.Replay
import HclEdit.Tree.Draft
import HclEdit.Proofs.Diagnostic.Listing
import HclEdit.Proofs.Cli.Findings
import HclEdit.Proofs.Config.Json
import HclEdit.Proofs.Outline.Labels
import HclEdit.Proofs.Lines.Scan
