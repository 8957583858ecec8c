import CircuitExpr.Assignment
import CircuitExpr.Attempt
import CircuitExpr.Backend
import CircuitExpr.Backend.Complex
import CircuitExpr.Backend.Real
import CircuitExpr.Bindings
import CircuitExpr.CommandLine
import CircuitExpr.CommandLine.Options
import CircuitExpr.Complex
import CircuitExpr.Complex.Functions
import CircuitExpr.Decimal
import CircuitExpr.Decimal.Shortest
import CircuitExpr.Decimal.Style
import CircuitExpr.Derivative
import CircuitExpr.Derivative.Memo
import CircuitExpr.Derivative.Rules
import CircuitExpr.Derivative.Terms
import CircuitExpr.Double
import CircuitExpr.Double.Exact
import CircuitExpr.Double.Text
import CircuitExpr.Equation
import CircuitExpr.Equation.Text
import CircuitExpr.EquationError
import CircuitExpr.EquationSystem
import CircuitExpr.Evaluator
import CircuitExpr.Evaluator.Build
import CircuitExpr.Expr
import CircuitExpr.Expr.Fold
import CircuitExpr.Expr.Listing
import CircuitExpr.Expr.Parser
import CircuitExpr.Expr.Subtree
import CircuitExpr.Expr.Text
import CircuitExpr.Expr.Variables
import CircuitExpr.Main
import CircuitExpr.NamedFunction
import CircuitExpr.Operator
import CircuitExpr.OrderedMap
import CircuitExpr.ParseError
import CircuitExpr.Power
import CircuitExpr.Report
import CircuitExpr.Scalar
import CircuitExpr.Store
import CircuitExpr.Text.Alphabetic
import CircuitExpr.Text.Blank
import CircuitExpr.Text.CharRanges
import CircuitExpr.Text.Colour
import CircuitExpr.Text.InvisibleTable
import CircuitExpr.Text.Lowercase
import CircuitExpr.Text.LowercaseTable
import CircuitExpr.Text.Quoted
import CircuitExpr.Token
import CircuitExpr.Token.Lexer
import CircuitExpr.Token.Suffix
import CircuitExpr.Variable
import CircuitExpr.Vocabulary
import CircuitExpr.Vocabulary.Builtin
import CircuitExpr.Vocabulary.Exponential
import CircuitExpr.Vocabulary.Power
import CircuitExpr.Vocabulary.Selection
import CircuitExpr.Vocabulary.Trigonometric
import CircuitExpr.Proofs.Interpreter
import CircuitExpr.Proofs.Compilation
import CircuitExpr.Proofs.Lookups
import CircuitExpr.Proofs.Gradients
import CircuitExpr.Proofs.Grammar
import CircuitExpr.Proofs.Readers
import CircuitExpr.Proofs.ParserReaders
import CircuitExpr.Proofs.ParserSteps
import CircuitExpr.Proofs.ParserSoundness
import CircuitExpr.Proofs.ParserExactness
import CircuitExpr.Proofs.LexerRuns
import CircuitExpr.Proofs.Scanning
import CircuitExpr.Proofs.RoundTrip
import CircuitExpr.Proofs.DerivativeKeys
import CircuitExpr.Proofs.Differentiability
import CircuitExpr.Proofs.DoubleSigns
import CircuitExpr.Proofs.DoubleText
import CircuitExpr.Proofs.ParsedTrees
import CircuitExpr.Proofs.ExactNumbers
import CircuitExpr.Proofs.SubtreeWalk
import CircuitExpr.Proofs.DerivativeRecursion
import CircuitExpr.Proofs.BuiltinVocabulary
import CircuitExpr.Proofs.SteadyHosts
import CircuitExpr.Proofs.ExactValues
import CircuitExpr.Proofs.FoldedValues
import CircuitExpr.Proofs.OrderedKeys
import CircuitExpr.Proofs.DerivativeMaps
import CircuitExpr.Proofs.DualNumbers
import CircuitExpr.Proofs.ForwardMode
import CircuitExpr.Proofs.AlikeTrees
import CircuitExpr.Proofs.AlikeDerivatives
import CircuitExpr.Proofs.SignedZeros
import CircuitExpr.Proofs.WalkStates
import CircuitExpr.Proofs.SharedParts
import CircuitExpr.Proofs.FewerVariables
import CircuitExpr.Proofs.KeptVariables
import CircuitExpr.Proofs.EquationVariables
import CircuitExpr.Proofs.GuardedValues
import CircuitExpr.Proofs.QuotientSlope
import CircuitExpr.Proofs.PowerSlope
import CircuitExpr.Proofs.TreeValues
import CircuitExpr.Proofs.Valuations
import CircuitExpr.Proofs.BuildableDerivatives
import CircuitExpr.Proofs.ClosedProperties
import CircuitExpr.Proofs.DerivativesBuild
import CircuitExpr.Proofs.JacobianPaths
import CircuitExpr.Proofs.StackedEquations
import CircuitExpr.Proofs.RealEmbedding
import CircuitExpr.Proofs.ComplexExtension
import CircuitExpr.Proofs.LexerTiling
import CircuitExpr.Proofs.Lookahead
import CircuitExpr.Proofs.ViablePrefixes
import CircuitExpr.Proofs.EvaluatorValues
import CircuitExpr.Proofs.Sessions
import CircuitExpr.Proofs.SharedCells
import CircuitExpr.Proofs.EitherBackend
import CircuitExpr.Proofs.PowerSpellings
import CircuitExpr.Proofs.RepeatedDerivatives
import CircuitExpr.Proofs.SelectedOperands
import CircuitExpr.Proofs.RealSlopes
import CircuitExpr.Proofs.PartialDerivatives
import CircuitExpr.Proofs.FoldedConstants
import CircuitExpr.Proofs.TruncatedQuotients
import CircuitExpr.Proofs.CheckedNumbers
import CircuitExpr.Proofs.CheckedBackends
import CircuitExpr.Proofs.GuardedDivisors
import CircuitExpr.Proofs.LongestTokens
import CircuitExpr.Proofs.MovedTokens
import CircuitExpr.Proofs.Respacing
import CircuitExpr.Proofs.WrittenVariables
import CircuitExpr.Proofs.WrittenRows
import CircuitExpr.Proofs.ReadAssignments
import CircuitExpr.Proofs.NameCase
import CircuitExpr.Proofs.OwnRules
import CircuitExpr.Proofs.TwinDerivatives
import CircuitExpr.Proofs.NamesInAnyCase
import CircuitExpr.Proofs.RepeatedSquaring
import CircuitExpr.Proofs.Traversals
import CircuitExpr.Proofs.FoldingLaws
