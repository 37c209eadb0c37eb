import Slang.Text.Blank
import Slang.Text.Location
import Slang.Number.Binary64
import Slang.Number.Decimal
import Slang.Number.Format
import Slang.Symbol
import Slang.Token.Basic
import Slang.Problem
import Slang.Diagnostic
import Slang.Token.Trivia
import Slang.Token.Shape
import Slang.Token.Cursor
import Slang.Program
import Slang.Parse.State
import Slang.Parse.Expression
import Slang.Parse.Statement
import Slang.Value
import Slang.Fault
import Slang.Scopes
import Slang.Machine
import Slang.Eval.Expression
import Slang.Eval.Statement
import Slang.Run
import Slang.Command
import Slang.Main
import Slang.Proofs.Frames
import Slang.Proofs.Structured
import Slang.Proofs.TreeInduction
import Slang.Proofs.Balanced
import Slang.Proofs.Unwinding
import Slang.Proofs.FrameDiscipline
import Slang.Proofs.CleanParse
import Slang.Proofs.Reference
import Slang.Proofs.Representation
import Slang.Proofs.Refinement
import Slang.Proofs.Sessions
import Slang.Proofs.Scoping
import Slang.Proofs.Grammar
import Slang.Proofs.TokenStream
import Slang.Proofs.WrittenReports
import Slang.Proofs.ExpressionRuns
import Slang.Proofs.WellFormed
import Slang.Proofs.StatementRuns
import Slang.Proofs.Lexemes
import Slang.Proofs.Progress
import Slang.Proofs.Recognition
import Slang.Proofs.ParseShape
import Slang.Proofs.Printing
import Slang.Proofs.Relocation
import Slang.Proofs.Seam
import Slang.Proofs.Concatenation
import Slang.Proofs.Layout
import Slang.Proofs.Gaps
import Slang.Proofs.RawTokens
import Slang.Proofs.RoundTrip
import Slang.Proofs.ParserReports
import Slang.Proofs.Renderings
import Slang.Proofs.Places
import Slang.Proofs.FaultOrigins
import Slang.Proofs.ReportSessions
import Slang.Proofs.OperatorChains
import Slang.Proofs.StraySemicolons
import Slang.Proofs.Rethrowing
import Slang.Proofs.Comparisons
import Slang.Proofs.Rounds
import Slang.Proofs.RefusedLines
import Slang.Proofs.Visibility
import Slang.Proofs.Respacing
import Slang.Proofs.TokenForms
import Slang.Proofs.RepeatedReading
import Slang.Proofs.StringLiterals
import Slang.Proofs.BlockScoping
import Slang.Proofs.Rounding
import Slang.Proofs.WordBoundaries
import Slang.Proofs.LexicalClasses
import Slang.Proofs.SignedMagnitudes
import Slang.Proofs.ShortestDecimals
import Slang.Proofs.DecimalTexts
import Slang.Proofs.PrintedNumbers
