import PhasePortrait.Flow.Field
import PhasePortrait.Flow.Grid
import PhasePortrait.Flow.Integrator
import PhasePortrait.Flow.Model
import PhasePortrait.Flow.PhaseLine
import PhasePortrait.Flow.Point
import PhasePortrait.Flow.Refusal
import PhasePortrait.Flow.System
import PhasePortrait.Flow.Trajectory
import PhasePortrait.Formula.Apply
import PhasePortrait.Formula.Battery
import PhasePortrait.Formula.Coefficient
import PhasePortrait.Formula.Combine
import PhasePortrait.Formula.Equation
import PhasePortrait.Formula.Fault
import PhasePortrait.Formula.Key
import PhasePortrait.Formula.Lexer
import PhasePortrait.Formula.Line
import PhasePortrait.Formula.Parser
import PhasePortrait.Formula.Rules
import PhasePortrait.Formula.Sorting
import PhasePortrait.Formula.Symbol
import PhasePortrait.Formula.Term
import PhasePortrait.Formula.TermOrder
import PhasePortrait.Formula.Token
import PhasePortrait.Formula.Tree
import PhasePortrait.Formula.Value
import PhasePortrait.Formula.Vocabulary
import PhasePortrait.Formula.WrittenOrder
import PhasePortrait.Number.Approx
import PhasePortrait.Number.Binary
import PhasePortrait.Number.Decimal
import PhasePortrait.Number.Double
import PhasePortrait.Number.Lexeme
import PhasePortrait.Number.Reading
import PhasePortrait.Number.Rounding
import PhasePortrait.Number.Scalar
import PhasePortrait.Number.Written
import PhasePortrait.Service.Amount
import PhasePortrait.Service.Entries
import PhasePortrait.Service.Failure
import PhasePortrait.Service.Json
import PhasePortrait.Service.JsonReader
import PhasePortrait.Service.Parameters
import PhasePortrait.Service.Request
import PhasePortrait.Service.Routes
import PhasePortrait.Service.Settings
import PhasePortrait.Text.Basic
import PhasePortrait.Text.CharClass
import PhasePortrait.Text.Compatibility
import PhasePortrait.Text.Quoted
import PhasePortrait.Proofs.Grammar.Derivation
import PhasePortrait.Proofs.Grammar.Descent
import PhasePortrait.Proofs.Grammar.Exactness
import PhasePortrait.Proofs.Grammar.FirstRule
import PhasePortrait.Proofs.Grammar.Cursor
import PhasePortrait.Proofs.Grammar.Nesting
import PhasePortrait.Proofs.Grammar.Placement
import PhasePortrait.Proofs.Grammar.Rules
import PhasePortrait.Proofs.Grammar.Spacing
import PhasePortrait.Proofs.Grammar.Viability
import PhasePortrait.Proofs.Grammar.Positions
import PhasePortrait.Proofs.Lexer.Scan
import PhasePortrait.Proofs.Lexer.Munch
import PhasePortrait.Proofs.Lexer.Numeral
import PhasePortrait.Proofs.Lexer.Spelling
import PhasePortrait.Proofs.Lexer.Strays
import PhasePortrait.Proofs.Writing
import PhasePortrait.Proofs.Flow.Doubling
import PhasePortrait.Proofs.Flow.Finiteness
import PhasePortrait.Proofs.Number.Exact
import PhasePortrait.Proofs.Flow.Termination
import PhasePortrait.Proofs.Flow.Coverage
import PhasePortrait.Proofs.Flow.Prefixes
import PhasePortrait.Proofs.Flow.Absorption
import PhasePortrait.Proofs.Evaluation.Shielding
import PhasePortrait.Proofs.Terms.Combining
import PhasePortrait.Proofs.Terms.Lines
import PhasePortrait.Proofs.Terms.Meaning
import PhasePortrait.Proofs.Names.Reading
import PhasePortrait.Proofs.Names.Construction
import PhasePortrait.Proofs.Names.Hygiene
import PhasePortrait.Proofs.Service.Answering
import PhasePortrait.Proofs.Service.Numbers
import PhasePortrait.Proofs.Service.Overflow
import PhasePortrait.Proofs.Service.Simulations
import PhasePortrait.Proofs.PhaseLine.Shape
import PhasePortrait.Proofs.PhaseLine.SignChanges
import PhasePortrait.Proofs.Names.Permutation
import PhasePortrait.Proofs.Flow.Decoupling
import PhasePortrait.Proofs.Service.Declaring
import PhasePortrait.Proofs.Service.ParameterLists
import PhasePortrait.Proofs.Flow.Attempts
import PhasePortrait.Proofs.Service.Bounds
import PhasePortrait.Proofs.Flow.Thinning
import PhasePortrait.Proofs.Number.Functions
import PhasePortrait.Proofs.Flow.Stages
import PhasePortrait.Proofs.Flow.Linear
import PhasePortrait.Proofs.Flow.Segments
import PhasePortrait.Proofs.Flow.Quadrature
import PhasePortrait.Proofs.Flow.Species
import PhasePortrait.Proofs.PhaseLine.Kinds
import PhasePortrait.Proofs.PhaseLine.Brackets
import PhasePortrait.Proofs.PhaseLine.GoldenSection
import PhasePortrait.Proofs.PhaseLine.Runs
import PhasePortrait.Proofs.Evaluation.Missing
import PhasePortrait.Proofs.Grammar.Balance
import PhasePortrait.Proofs.Evaluation.Trials
import PhasePortrait.Proofs.Lexer.Folding
import PhasePortrait.Proofs.Names.LetterCase
import PhasePortrait.Proofs.Number.Literals
