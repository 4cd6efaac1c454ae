import Abacus.Function
import Abacus.Operator
import Abacus.Span
/-!
Tokens of an expression.
-/

namespace Abacus

inductive Token where
  | number (text : List Char)
  | function (f : Function)
  | operator (op : Operator)
  | openBracket
  | closeBracket
  | comma
deriving DecidableEq, Repr

/-- A token and the bytes it was read from. -/
structure Lexeme where
  token : Token
  span : Span
deriving DecidableEq, Repr

namespace Token

def text : Token → List Char
  | number text => text
  | function f => f.name
  | operator op => [op.symbol]
  | openBracket => ['(']
  | closeBracket => [')']
  | comma => [',']

/-- The token as an error message quotes it. -/
def quoted (t : Token) : List Char :=
  '\'' :: t.text ++ ['\'']

/-- Whether an operand has to follow the token. -/
def expectsOperand : Token → Bool
  | operator _ | openBracket | comma => true
  | number _ | function _ | closeBracket => false

/-- Whether an operand can start with the token. -/
def startsOperand : Token → Bool
  | number _ | function _ | openBracket => true
  | operator op => op == .sub
  | closeBracket | comma => false

/-- The token that a character is by itself. -/
def ofSymbol? (c : Char) : Option Token :=
  if c = '(' then some openBracket
  else if c = ')' then some closeBracket
  else if c = ',' then some comma
  else (Operator.ofSymbol? c).map operator

end Token
end Abacus
