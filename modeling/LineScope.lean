import LineScope.Analysis.Definition
import LineScope.Analysis.DocIndex
import LineScope.Analysis.File
import LineScope.Analysis.Marker
import LineScope.Analysis.Metadata
import LineScope.Analysis.Query
import LineScope.Analysis.Recovery
import LineScope.Analysis.Source
import LineScope.Ascending
import LineScope.CommandLine.Run
import LineScope.CommandLine.Settings
import LineScope.Diagnostic.Basic
import LineScope.Diagnostic.Failure
import LineScope.Diagnostic.Snippet
import LineScope.File.Path
import LineScope.File.Store
import LineScope.Grammar.Chain
import LineScope.Grammar.Cursor
import LineScope.Grammar.Decode
import LineScope.Grammar.Expression
import LineScope.Grammar.Fault
import LineScope.Grammar.Items
import LineScope.Grammar.Opener
import LineScope.Grammar.Operator
import LineScope.Grammar.Parse
import LineScope.Grammar.Rule
import LineScope.Grammar.Statement
import LineScope.Grammar.Terminal
import LineScope.Json.Reader
import LineScope.Json.Value
import LineScope.Json.Writer
import LineScope.Log
import LineScope.Main
import LineScope.Node.Basic
import LineScope.Node.Printed
import LineScope.Node.Shape
import LineScope.Node.Walk
import LineScope.Number.Binary64
import LineScope.Number.Decimal
import LineScope.Number.Integer
import LineScope.Number.Power
import LineScope.Proofs.Analysis.Budget
import LineScope.Proofs.Analysis.Contexts
import LineScope.Proofs.Analysis.Definitions
import LineScope.Proofs.Analysis.Escape
import LineScope.Proofs.Analysis.FailureLine
import LineScope.Proofs.Analysis.Guards
import LineScope.Proofs.Analysis.IndexEntries
import LineScope.Proofs.Analysis.Insertion
import LineScope.Proofs.Analysis.Isolation
import LineScope.Proofs.Analysis.LineFidelity
import LineScope.Proofs.Analysis.MaskedAnalysis
import LineScope.Proofs.Analysis.MaskedSites
import LineScope.Proofs.Analysis.Masking
import LineScope.Proofs.Analysis.MissingName
import LineScope.Proofs.Analysis.Normal
import LineScope.Proofs.Analysis.Place
import LineScope.Proofs.Analysis.Position
import LineScope.Proofs.Analysis.Renumbering
import LineScope.Proofs.Analysis.Rounds
import LineScope.Proofs.Analysis.Run
import LineScope.Proofs.Analysis.Step
import LineScope.Proofs.Analysis.Tour
import LineScope.Proofs.Analysis.Transparent
import LineScope.Proofs.Analysis.Variables
import LineScope.Proofs.Analysis.Visible
import LineScope.Proofs.CommandLine.Ending
import LineScope.Proofs.Diagnostic.Colors
import LineScope.Proofs.Diagnostic.Reported
import LineScope.Proofs.Diagnostic.ShownLine
import LineScope.Proofs.Grammar.Blocked
import LineScope.Proofs.Grammar.Cutting
import LineScope.Proofs.Grammar.Decode
import LineScope.Proofs.Grammar.Derivation
import LineScope.Proofs.Grammar.Enclosing
import LineScope.Proofs.Grammar.Escapes
import LineScope.Proofs.Grammar.Faithful
import LineScope.Proofs.Grammar.Fronts
import LineScope.Proofs.Grammar.Heredoc
import LineScope.Proofs.Grammar.Innermost
import LineScope.Proofs.Grammar.Marked
import LineScope.Proofs.Grammar.Mention
import LineScope.Proofs.Grammar.Numeral
import LineScope.Proofs.Grammar.Opener
import LineScope.Proofs.Grammar.Piece
import LineScope.Proofs.Grammar.Reading
import LineScope.Proofs.Grammar.RoundTrip
import LineScope.Proofs.Grammar.Rule
import LineScope.Proofs.Grammar.Scan
import LineScope.Proofs.Grammar.Sigil
import LineScope.Proofs.Grammar.Site
import LineScope.Proofs.Grammar.Steady
import LineScope.Proofs.Grammar.Telling
import LineScope.Proofs.Grammar.Terminal
import LineScope.Proofs.Grammar.Told
import LineScope.Proofs.Grammar.Tower
import LineScope.Proofs.Grammar.Written
import LineScope.Proofs.Node.Children
import LineScope.Proofs.Node.EulerTour
import LineScope.Proofs.Node.Quoted
import LineScope.Proofs.Node.Term
import LineScope.Proofs.Node.WalkFold
import LineScope.Proofs.Number.DecimalText
import LineScope.Proofs.Number.Integer
import LineScope.Proofs.Scope.Nesting
import LineScope.Proofs.Scope.Shadowing
import LineScope.Proofs.Text.DisplayLines
import LineScope.Proofs.Text.Lines
import LineScope.Scope.Context
import LineScope.Scope.Frames
import LineScope.Scope.State
import LineScope.Table
import LineScope.Text.Digit
import LineScope.Text.Lines
import LineScope.Text.Printable
import LineScope.Text.Quoted
import LineScope.Text.Ranges
import LineScope.Text.Space
import LineScope.Text.Utf8
import LineScope.Text.Word
