import LoxLexing.Position
import LoxLexing.Kind
import LoxLexing.Binary64.Basic
import LoxLexing.Binary64.Rounding
import LoxLexing.Binary64.Shortest
import LoxLexing.Numeral
import LoxLexing.Token
import LoxLexing.Diagnostic
import LoxLexing.Segment
import LoxLexing.Scan
import LoxLexing.Collector
import LoxLexing.Journal
import LoxLexing.Styled
import LoxLexing.Report
import LoxLexing.Text.Blank
import LoxLexing.Text.LowerCase
import LoxLexing.Files
import LoxLexing.Sources
import LoxLexing.Prompt.Command
import LoxLexing.Prompt.Continuation
import LoxLexing.Prompt.Completion
import LoxLexing.Prompt.Highlight
import LoxLexing.Prompt.History
import LoxLexing.Prompt.Session
import LoxLexing.Prompt.Pipe
import LoxLexing.Prompt.Terminal
import LoxLexing.CommandLine.Arguments
import LoxLexing.CommandLine.Outcome
import LoxLexing.Main
import LoxLexing.Proofs.Boundary
import LoxLexing.Proofs.LongestMatch
import LoxLexing.Proofs.Layout
import LoxLexing.Proofs.Modes
import LoxLexing.Proofs.PhysicalLines
import LoxLexing.Proofs.Groups
import LoxLexing.Proofs.Entries
import LoxLexing.Proofs.PipedSession
import LoxLexing.Proofs.Lines
import LoxLexing.Proofs.Shift
import LoxLexing.Proofs.Rendering
import LoxLexing.Proofs.Listing
import LoxLexing.Proofs.Brackets
import LoxLexing.Proofs.ReadingProtocol
import LoxLexing.Proofs.Outcomes
import LoxLexing.Proofs.SessionState
import LoxLexing.Proofs.Paths
import LoxLexing.Proofs.FrontEnds
import LoxLexing.Proofs.BracketWords
import LoxLexing.Proofs.Lookahead
import LoxLexing.Proofs.OpenInput
import LoxLexing.Proofs.ClosingLine
import LoxLexing.Proofs.Trimming
import LoxLexing.Proofs.ContinuedInput
import LoxLexing.Proofs.ControlSequences
import LoxLexing.Proofs.Highlighting
import LoxLexing.Proofs.OpenQuote
import LoxLexing.Proofs.Rounding
import LoxLexing.Proofs.Neighbours
import LoxLexing.Proofs.NumberValues
import LoxLexing.Proofs.Restart
import LoxLexing.Proofs.CommandGrammar
import LoxLexing.Proofs.Completions
import LoxLexing.Proofs.ReadBack
import LoxLexing.Proofs.PrintedNumbers
import LoxLexing.Proofs.CompletedLine
import LoxLexing.Proofs.Receivers
import LoxLexing.Proofs.JournalOrder
import LoxLexing.Proofs.TrailingOperators
import LoxLexing.Proofs.WrittenArguments
import LoxLexing.Proofs.ColouredListings
import LoxLexing.Proofs.ReadingHead
import LoxLexing.Proofs.HeadRuns
