import Abacus.Files.Tree
import Abacus.Main
import Abacus.Proofs.Grammar.Derivation
import Abacus.Proofs.Grammar.Reading
import Abacus.Proofs.Grammar.Acceptance
import Abacus.Proofs.Grammar.Refusal
import Abacus.Proofs.Segments
import Abacus.Proofs.Expr.Nodes
import Abacus.Proofs.Expr.Relocation
import Abacus.Proofs.Expr.ArityChecks
import Abacus.Proofs.Grammar.Nodes
import Abacus.Proofs.Brackets
import Abacus.Proofs.CallNames
import Abacus.Proofs.Grammar.Slices
import Abacus.Proofs.Grammar.Spelling
import Abacus.Proofs.Normalized
import Abacus.Proofs.FailingPart
import Abacus.Proofs.NodeText
import Abacus.Proofs.Parser.Relocation
import Abacus.Proofs.Spacing
import Abacus.Proofs.Positions
import Abacus.Proofs.AsTyped
import Abacus.Proofs.Binary64
import Abacus.Proofs.Decimal
import Abacus.Proofs.Printing
import Abacus.Proofs.Session
import Abacus.Proofs.VisibleSpan
import Abacus.Proofs.BracketLanguage
import Abacus.Proofs.Tokenization
import Abacus.Proofs.CallSpelling
import Abacus.Proofs.OpenBrackets
import Abacus.Proofs.WholeNumbers
import Abacus.Proofs.ResultText
import Abacus.Proofs.Command
import Abacus.Proofs.Expr.ZeroDivisors
import Abacus.Proofs.Lines
import Abacus.Proofs.Shell
import Abacus.Proofs.Program
import Abacus.Proofs.TypedRanges
import Abacus.Proofs.TypedTokens
import Abacus.Proofs.FewestBrackets
import Abacus.Proofs.QuotedOperands
import Abacus.Proofs.Grammar.NodeRanges
import Abacus.Proofs.Grammar.Bracketing
import Abacus.Proofs.BracketedNodes
import Abacus.Proofs.BlankInput
import Abacus.Proofs.NormalForm
import Abacus.Proofs.PowerCalls
import Abacus.Proofs.DrawnRange
import Abacus.Proofs.StreamedLines
import Abacus.Proofs.Colours
import Abacus.Proofs.ShownTexts
import Abacus.Proofs.CommandWords
import Abacus.Proofs.ExactSums
import Abacus.Proofs.HalfUp
