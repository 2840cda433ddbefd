import TournamentScoring.CommandLine.Arguments
import TournamentScoring.CommandLine.Run
import TournamentScoring.Configuration.Assignment
import TournamentScoring.Configuration.Basic
import TournamentScoring.Configuration.Decoding
import TournamentScoring.Configuration.Layer
import TournamentScoring.Configuration.Loading
import TournamentScoring.Decimal.Reading
import TournamentScoring.Decimal.Rounding
import TournamentScoring.Decimal.Shortest
import TournamentScoring.Decimal.Style
import TournamentScoring.Document.Decoding
import TournamentScoring.Document.Format
import TournamentScoring.Document.InputDecoding
import TournamentScoring.Document.Loading
import TournamentScoring.Document.ProfileDecoding
import TournamentScoring.Document.ProfileEncoding
import TournamentScoring.Document.Refusal
import TournamentScoring.Document.Source
import TournamentScoring.Files.Entry
import TournamentScoring.Files.Path
import TournamentScoring.Files.Tree
import TournamentScoring.Formula.Error
import TournamentScoring.Formula.Expression
import TournamentScoring.Formula.Lexer
import TournamentScoring.Formula.Parser
import TournamentScoring.Formula.Token
import TournamentScoring.Json.Basic
import TournamentScoring.Json.Lexeme
import TournamentScoring.Json.Printer
import TournamentScoring.Json.Reader
import TournamentScoring.KeyedTable
import TournamentScoring.Logging.Basic
import TournamentScoring.Logging.Event
import TournamentScoring.Main
import TournamentScoring.Profile.Basic
import TournamentScoring.Profile.Validation
import TournamentScoring.Proofs.KeyedTable
import TournamentScoring.Proofs.Scoring.Bonus
import TournamentScoring.Proofs.Scoring.InputErrors
import TournamentScoring.Report.Basic
import TournamentScoring.Report.Markdown
import TournamentScoring.Report.Structured
import TournamentScoring.ScoreInput
import TournamentScoring.Scoring.Bonus
import TournamentScoring.Scoring.Error
import TournamentScoring.Scoring.Event
import TournamentScoring.Scoring.Match
import TournamentScoring.Scoring.Part
import TournamentScoring.Scoring.Penalty
import TournamentScoring.Sha256
import TournamentScoring.Text.Blank
import TournamentScoring.Text.Hexadecimal
import TournamentScoring.Text.Identifier
import TournamentScoring.Toml.Basic
import TournamentScoring.Toml.Moment
import TournamentScoring.Toml.NormalForm
import TournamentScoring.Toml.Number
import TournamentScoring.Toml.Reader
import TournamentScoring.Toml.Text
import TournamentScoring.Toml.Tree
import TournamentScoring.Proofs.Formula.Evaluation
import TournamentScoring.Proofs.Profile.FormulaCheck
import TournamentScoring.Proofs.Scoring.FormulaValue
import TournamentScoring.Proofs.Formula.Grammar
import TournamentScoring.Proofs.Formula.Parsing
import TournamentScoring.Proofs.Binary64.Mantissa
import TournamentScoring.Proofs.Binary64.Packing
import TournamentScoring.Proofs.Binary64.Rounding
import TournamentScoring.Proofs.Binary64.Arithmetic
import TournamentScoring.Proofs.Decimal.Rounding
import TournamentScoring.Proofs.Scoring.FinalScore
import TournamentScoring.Proofs.Scoring.Breakdown
import TournamentScoring.Proofs.Text.Lines
import TournamentScoring.Proofs.Text.Runs
import TournamentScoring.Proofs.Formula.Messages
import TournamentScoring.Proofs.Scoring.Messages
import TournamentScoring.Proofs.Report.FailureReport
import TournamentScoring.Proofs.Binary64.Identity
import TournamentScoring.Proofs.Decimal.Reading
import TournamentScoring.Proofs.Decimal.Shortest
import TournamentScoring.Proofs.Decimal.Digits
import TournamentScoring.Proofs.Json.Scaling
import TournamentScoring.Proofs.Json.Number
import TournamentScoring.Proofs.Json.Text
import TournamentScoring.Proofs.Json.Reading
import TournamentScoring.Proofs.Document.Decoding
import TournamentScoring.Proofs.Document.CanonicalForm
import TournamentScoring.Proofs.Scoring.Relevance
import TournamentScoring.Proofs.Scoring.PartOrder
import TournamentScoring.Proofs.Toml.Merge
import TournamentScoring.Proofs.Configuration.Settings
import TournamentScoring.Proofs.Configuration.Layering
import TournamentScoring.Proofs.Document.Reformatting
import TournamentScoring.Proofs.Document.Records
import TournamentScoring.Proofs.Document.Layout
import TournamentScoring.Proofs.Formula.Height
import TournamentScoring.Proofs.Formula.Substitution
import TournamentScoring.Proofs.Json.Pretty
import TournamentScoring.Proofs.Document.Keeping
import TournamentScoring.Proofs.Report.StructuredReport
import TournamentScoring.Proofs.Report.Rendering
import TournamentScoring.Proofs.CommandLine.Outcome
import TournamentScoring.Proofs.Formula.Strictness
import TournamentScoring.Proofs.Formula.Lexemes
import TournamentScoring.Proofs.Formula.Lexing
import TournamentScoring.Proofs.Formula.Positions
import TournamentScoring.Proofs.Document.Ignoring
import TournamentScoring.Proofs.CommandLine.Independence
import TournamentScoring.Proofs.Scoring.Groups
import TournamentScoring.Proofs.Formula.ViablePrefix
import TournamentScoring.Proofs.Toml.Paths
import TournamentScoring.Proofs.Toml.Replaced
import TournamentScoring.Proofs.Profile.Rules
import TournamentScoring.Proofs.Profile.Violations
import TournamentScoring.Proofs.Binary64.Order
import TournamentScoring.Proofs.Binary64.Negation
import TournamentScoring.Proofs.Binary64.WholeNumbers
import TournamentScoring.Proofs.Scoring.PenaltyTotals
import TournamentScoring.Proofs.Scoring.Counts
import TournamentScoring.Proofs.Formula.Finiteness
import TournamentScoring.Proofs.Decimal.Ranking
import TournamentScoring.Proofs.Binary64.Bounds
import TournamentScoring.Proofs.Scoring.Judgements
import TournamentScoring.Proofs.Scoring.FiniteFigures
import TournamentScoring.Proofs.Scoring.PartNames
import TournamentScoring.Proofs.Document.RawValues
import TournamentScoring.Proofs.Scoring.WrongKinds
import TournamentScoring.Proofs.Scoring.Warnings
