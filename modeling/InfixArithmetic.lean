import InfixArithmetic.CommandLine.Program
import InfixArithmetic.Main
import InfixArithmetic.Proofs.ExpressionGrammar
import InfixArithmetic.Proofs.Precedence
import InfixArithmetic.Proofs.DecimalValue
import InfixArithmetic.Proofs.ShortestDigits
import InfixArithmetic.Proofs.RoundTrip
import InfixArithmetic.Proofs.TextRuns
import InfixArithmetic.Proofs.IndexedReduction
import InfixArithmetic.Proofs.ReductionFaults
import InfixArithmetic.Proofs.WrappedArithmetic
import InfixArithmetic.Proofs.EvaluationOutcomes
import InfixArithmetic.Proofs.WrittenExpressions
import InfixArithmetic.Proofs.Utf8RoundTrip
import InfixArithmetic.Proofs.CsvRoundTrip
import InfixArithmetic.Proofs.SavedTables
import InfixArithmetic.Proofs.BatchRows
import InfixArithmetic.Proofs.JoinedExpressions
import InfixArithmetic.Proofs.ProgramRuns
import InfixArithmetic.Proofs.Utf8Acceptance
import InfixArithmetic.Proofs.CutRecords
import InfixArithmetic.Proofs.UnquotedReturns
import InfixArithmetic.Proofs.FallibleSteps
import InfixArithmetic.Proofs.OperationFaults
import InfixArithmetic.Proofs.HandledFaults
import InfixArithmetic.Proofs.ReportedFailures
import InfixArithmetic.Proofs.TokenListings
import InfixArithmetic.Proofs.ArgumentUses
import InfixArithmetic.Proofs.OperandArguments
import InfixArithmetic.Proofs.IntegerRuns
import InfixArithmetic.Proofs.ExactIntegers
import InfixArithmetic.Proofs.IntegerAgreement
import InfixArithmetic.Proofs.FirstDefects
import InfixArithmetic.Proofs.TokenPositions
import InfixArithmetic.Proofs.DigitRuns
import InfixArithmetic.Proofs.SignificantDigits
import InfixArithmetic.Proofs.SettingsAgreement
import InfixArithmetic.Proofs.Spelling
import InfixArithmetic.Proofs.CanonicalSpelling
import InfixArithmetic.Proofs.FifteenDigits
import InfixArithmetic.Proofs.JoinedNumbers
import InfixArithmetic.Proofs.NumeralGrammar
import InfixArithmetic.Proofs.ReductionOrder
import InfixArithmetic.Proofs.TruncatedQuotients
import InfixArithmetic.Proofs.MixedNumbers
import InfixArithmetic.Proofs.MergedSigns
import InfixArithmetic.Proofs.TextFiles
