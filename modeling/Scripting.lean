import Scripting.ArrayStore
import Scripting.Attempt
import Scripting.Command
import Scripting.Command.Arguments
import Scripting.Cursor
import Scripting.Decimal.Binary
import Scripting.Decimal.Reader
import Scripting.Decimal.Shortest
import Scripting.Evaluation
import Scripting.Evaluation.Builtin
import Scripting.Expr
import Scripting.Expr.Parser
import Scripting.Expr.Printer
import Scripting.Heap
import Scripting.Machine
import Scripting.Main
import Scripting.Operator
import Scripting.Position
import Scripting.RuntimeError
import Scripting.ScopeTree
import Scripting.Session
import Scripting.SyntaxError
import Scripting.Table
import Scripting.Text.Blank
import Scripting.Text.Bytes
import Scripting.Text.LetterCase
import Scripting.Text.Quoted
import Scripting.Text.Split
import Scripting.Text.Utf8
import Scripting.Token
import Scripting.Token.Lexer
import Scripting.Value
import Scripting.Value.Arithmetic
import Scripting.Value.Indexing
import Scripting.Value.Key
import Scripting.Value.Method
import Scripting.Value.Printer
import Scripting.Proofs.Aliasing
import Scripting.Proofs.Table
import Scripting.Proofs.IntegerText
import Scripting.Proofs.Lexing
import Scripting.Proofs.PlainText
import Scripting.Proofs.Parsing
import Scripting.Proofs.ReadBack
import Scripting.Proofs.Discipline
import Scripting.Proofs.Evaluation
import Scripting.Proofs.CallEffects
import Scripting.Proofs.Jumps
import Scripting.Proofs.Chains
import Scripting.Proofs.Layout
import Scripting.Proofs.CursorPositions
import Scripting.Proofs.Scopes
import Scripting.Proofs.Primitives
import Scripting.Proofs.Coupling
import Scripting.Proofs.CoupledEvaluation
import Scripting.Proofs.Cancellation
import Scripting.Proofs.Sessions
import Scripting.Proofs.Intact
import Scripting.Proofs.Strictness
import Scripting.Proofs.ErrorValues
import Scripting.Proofs.LineBreaks
import Scripting.Proofs.Following
import Scripting.Proofs.FollowedParsing
import Scripting.Proofs.Joining
import Scripting.Proofs.Keys
import Scripting.Proofs.LoopExits
import Scripting.Proofs.Names
import Scripting.Proofs.Veils
import Scripting.Proofs.VeiledEvaluation
import Scripting.Proofs.LetBindings
import Scripting.Proofs.LoopHeaders
import Scripting.Proofs.Places
import Scripting.Proofs.TreeForms
import Scripting.Proofs.Reading
import Scripting.Proofs.ReadTrees
import Scripting.Proofs.ParserFuel
import Scripting.Proofs.Balance
import Scripting.Proofs.Tiling
import Scripting.Proofs.Nesting
import Scripting.Proofs.ErrorPlaces
import Scripting.Proofs.ScopeChains
import Scripting.Proofs.Replays
import Scripting.Proofs.TokenPrograms
import Scripting.Proofs.ExpectedTrees
import Scripting.Proofs.Doubles
import Scripting.Proofs.IntegerArithmetic
import Scripting.Proofs.CompoundAssignment
import Scripting.Proofs.Conversions
import Scripting.Proofs.IntegerPrograms
import Scripting.Proofs.Unfoldings
import Scripting.Proofs.Bounds
import Scripting.Proofs.Elements
import Scripting.Proofs.Steps
import Scripting.Proofs.Splitting
import Scripting.Proofs.SpelledTokens
import Scripting.Proofs.TextSlices
import Scripting.Proofs.Releasing
