import RuleCheck.Grammar.Walk
import RuleCheck.Grammar.Matched
import RuleCheck.Grammar.Derivation
import RuleCheck.Fault.Reader
import RuleCheck.Json.Reader
import RuleCheck.Scan.Log
import RuleCheck.Main
import RuleCheck.Proofs.Grammar.Completion
import RuleCheck.Proofs.Grammar.Matching
import RuleCheck.Proofs.Fault.Reader
import RuleCheck.Proofs.Scan.TwoPass
import RuleCheck.Proofs.Scan.Completion
import RuleCheck.Proofs.Scan.References
import RuleCheck.Proofs.Scan.Words
import RuleCheck.Proofs.Scan.Wrapping
import RuleCheck.Proofs.Scan.Compaction
import RuleCheck.Proofs.Scan.Joining
import RuleCheck.Proofs.Scan.Location
import RuleCheck.Proofs.Scan.Resumption
import RuleCheck.Proofs.Scan.Translation
import RuleCheck.Proofs.Command.Agreement
import RuleCheck.Proofs.Command.Status
import RuleCheck.Proofs.Json.Report
import RuleCheck.Proofs.Lexeme.Order
import RuleCheck.Proofs.Lexeme.Quoting
import RuleCheck.Proofs.Scan.Consumption
import RuleCheck.Proofs.Scan.Tally
import RuleCheck.Proofs.Report.Lines
import RuleCheck.Proofs.Report.Skipping
import RuleCheck.Proofs.Command.Arguments
import RuleCheck.Proofs.Lexeme.Numeral
import RuleCheck.Proofs.Lexeme.Path
import RuleCheck.Proofs.Scan.Logging
