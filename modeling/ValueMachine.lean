import ValueMachine.Number.Format
import ValueMachine.Number.Numeral
import ValueMachine.Text.Blank
import ValueMachine.Text.Offsets
import ValueMachine.Text.Lines
import ValueMachine.Text.Case
import ValueMachine.Kind
import ValueMachine.Status
import ValueMachine.Table.Basic
import ValueMachine.Operation
import ValueMachine.Value.Equality
import ValueMachine.Value.Indexing
import ValueMachine.Value.Texts
import ValueMachine.Value.Numbers
import ValueMachine.Value.Errors
import ValueMachine.Value.Copies
import ValueMachine.Value.Json
import ValueMachine.Printing.Template
import ValueMachine.Sort
import ValueMachine.Value.Limits
import ValueMachine.Builtin.Files
import ValueMachine.Builtin.Console
import ValueMachine.Builtin.System
import ValueMachine.Builtin.Behaviour
import ValueMachine.Config.Override
import ValueMachine.Tally
import ValueMachine.Foreign
import ValueMachine.Routine
import ValueMachine.Value.Functions
import ValueMachine.Table.Walk
import ValueMachine.Table.Indexes
import ValueMachine.Proofs.Table.Listing
import ValueMachine.Proofs.Table.Reachable
import ValueMachine.Proofs.Table.Requests
import ValueMachine.Proofs.Heap.Boxes
import ValueMachine.Proofs.Json.Nesting
import ValueMachine.Proofs.Machine.Running
import ValueMachine.Proofs.Sort.Sorting
import ValueMachine.Proofs.Value.CloneEdits
import ValueMachine.Proofs.Value.Copying
import ValueMachine.Proofs.Value.DeepClone
import ValueMachine.Proofs.Value.DepthLimit
import ValueMachine.Proofs.Value.Encoding
import ValueMachine.Proofs.Value.JsonRoundTrip
import ValueMachine.Proofs.Machine.Preserving
import ValueMachine.Proofs.Value.BoxedOperands
import ValueMachine.Proofs.Value.Equality
import ValueMachine.Proofs.Value.Queries
import ValueMachine.Proofs.Value.Mutations
import ValueMachine.Proofs.Value.HandedBack
import ValueMachine.Proofs.Number.Rounding
import ValueMachine.Proofs.Number.RoundingInterval
import ValueMachine.Proofs.Number.SignificantDigits
import ValueMachine.Proofs.Number.DecimalTexts
import ValueMachine.Proofs.Json.NumberReaders
import ValueMachine.Proofs.Number.Shortened
import ValueMachine.Proofs.Json.GeneralForm
import ValueMachine.Proofs.Number.PlainText
import ValueMachine.Proofs.Value.NumbersThroughTexts
import ValueMachine.Proofs.Function.Calls
import ValueMachine.Proofs.Table.Churn
import ValueMachine.Proofs.Value.Outlines
import ValueMachine.Proofs.Value.Statuses
import ValueMachine.Proofs.Text.Lines
import ValueMachine.Proofs.Value.LineReaders
import ValueMachine.Proofs.Json.Points
import ValueMachine.Proofs.Json.Recursion
import ValueMachine.Proofs.Json.WellFormed
import ValueMachine.Proofs.Value.NestingLimit
import ValueMachine.Proofs.Function.Deliveries
import ValueMachine.Proofs.Printing.Filling
import ValueMachine.Proofs.Number.Signs
import ValueMachine.Proofs.Value.ElementWrites
import ValueMachine.Proofs.Text.Occurrences
import ValueMachine.Proofs.Text.Offsets
import ValueMachine.Proofs.Number.Sums
import ValueMachine.Proofs.Value.TextPositions
import ValueMachine.Proofs.Printing.GeneralTexts
import ValueMachine.Proofs.Number.CorrectRounding
import ValueMachine.Proofs.Number.NumeralGrammar
import ValueMachine.Proofs.Number.LeadingNumerals
import ValueMachine.Proofs.Table.Unions
import ValueMachine.Proofs.Value.ObjectUnions
import ValueMachine.Proofs.Text.Splitting
import ValueMachine.Proofs.Value.NewArrays
import ValueMachine.Proofs.Value.SplitTexts
import ValueMachine.Proofs.Number.Values
import ValueMachine.Proofs.Number.Arithmetic
import ValueMachine.Proofs.Value.Ranges
import ValueMachine.Proofs.Number.Truncation
import ValueMachine.Proofs.Value.TextCuts
import ValueMachine.Proofs.Number.Magnitudes
import ValueMachine.Proofs.Printing.TidyTexts
import ValueMachine.Proofs.Printing.Colours
import ValueMachine.Proofs.Printing.CutTexts
import ValueMachine.Proofs.Files.Storing
import ValueMachine.Proofs.Files.Copying
