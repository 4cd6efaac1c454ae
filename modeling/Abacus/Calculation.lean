import Abacus.Brackets
import Abacus.Expr.Evaluation
import Abacus.Normalized
import Abacus.Parser
import Abacus.Token.Lexer
/-!
From a typed text to its value, or to the reason why it has none.
-/

namespace Abacus

/-- The value of an expression, how it is written, and the expression in normal form. -/
structure Evaluation where
  normalized : List Char
  value : Float
  formatted : List Char
deriving DecidableEq, Repr

namespace Evaluation

/-- The tree of a text that is taken as it is: no blank is removed, no bracket checked beforehand. -/
def parseText (text : List Char) : Except Failure Expr := do
  let lexemes ← (Token.lex text).mapError Failure.lex
  (Parser.parse lexemes (byteLength text)).mapError Failure.ofSyntaxError

/-- The value of a text in normal form; positions in a failure are positions in this text. -/
def ofNormal (text : List Char) : Except Failure Evaluation :=
  if isBalanced text then do
    let e ← parseText text
    let value ← e.evaluate.mapError Failure.ofEvalError
    .ok { normalized := text, value, formatted := resultText value }
  else .error .unbalancedBrackets

/-- The value of a typed text; positions in a failure are positions in what was typed. -/
def ofText (typed : List Char) : Except Failure Evaluation :=
  let n := Normalized.ofText typed
  (ofNormal n.text).mapError (Failure.mapSpan n.toTyped)

end Evaluation
end Abacus
