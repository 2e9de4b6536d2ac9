import LinkExpr.Main
import LinkExpr.Proofs.Scan.Grammar
import LinkExpr.Proofs.Scan.Ranges
import LinkExpr.Proofs.Scan.Acceptance
import LinkExpr.Proofs.Scan.Scanner
import LinkExpr.Proofs.Scan.ScannerRun
import LinkExpr.Proofs.Scan.Placement
import LinkExpr.Proofs.Scan.Resynchronization
import LinkExpr.Proofs.Scan.Concatenation
import LinkExpr.Proofs.Scan.Tidy
import LinkExpr.Proofs.Expansion.References
import LinkExpr.Proofs.Scan.Embedding
import LinkExpr.Proofs.Expansion.Unresolved
import LinkExpr.Proofs.Expansion.Expander
import LinkExpr.Proofs.Expansion.Cycles
import LinkExpr.Proofs.Expansion.Levels
import LinkExpr.Proofs.Expansion.Limits
import LinkExpr.Proofs.Expansion.Lookups
import LinkExpr.Proofs.Expansion.Composition
import LinkExpr.Proofs.Expansion.Iteration
import LinkExpr.Proofs.Excerpt.Lines
import LinkExpr.Proofs.Excerpt.Locator
import LinkExpr.Proofs.Excerpt.Marks
import LinkExpr.Proofs.Scan.Names
import LinkExpr.Proofs.Expansion.Unfolding
import LinkExpr.Proofs.Expansion.LeftInPlace
import LinkExpr.Proofs.Expansion.Malformed
import LinkExpr.Proofs.Scan.Clear
import LinkExpr.Proofs.Template.Agreement
import LinkExpr.Proofs.Template.Stages
import LinkExpr.Proofs.Template.Definitions
import LinkExpr.Proofs.Json.Reading
import LinkExpr.Proofs.Json.RoundTrip
import LinkExpr.Proofs.Lookup.Entries
import LinkExpr.Proofs.Lookup.History
import LinkExpr.Proofs.Report.Problems
import LinkExpr.Proofs.Value.Secrets
import LinkExpr.Proofs.Value.Flattening
import LinkExpr.Proofs.Value.Fields
import LinkExpr.Proofs.Document.RoundTrip
import LinkExpr.Proofs.Value.Digits
import LinkExpr.Proofs.Value.Ports
import LinkExpr.Proofs.Value.Decimals
import LinkExpr.Proofs.Value.Doubles
import LinkExpr.Proofs.Value.Numbers
import LinkExpr.Proofs.Expansion.Verbatim
import LinkExpr.Proofs.Report.Events
import LinkExpr.Proofs.Report.Rendering
