import Abacus.Token
/-!
Why an expression has no value, and the text that says so.
-/

namespace Abacus

/-- What is wrong with a piece of text that is no token. -/
inductive LexFault where
  | unknownCharacter
  | unknownFunction
  | malformedNumber
deriving DecidableEq, Repr

structure LexError where
  fault : LexFault
  text : List Char
  span : Span
deriving DecidableEq, Repr

/-- Why a sequence of tokens is no expression. -/
inductive ParseError where
  /-- The token cannot stand here, or the text cannot end here if there is none. -/
  | unexpected (found : Option Token) (span : Span)
  | missingOperand (span : Span)
  | emptyExpression
deriving DecidableEq, Repr

/-- A call of the function with `actual` arguments, which is not its number. -/
structure ArityError where
  function : Function
  actual : Nat
  span : Span
deriving DecidableEq, Repr

/-- A quotient or remainder whose right operand has the value zero, both operands as printed. -/
structure ZeroDivisor where
  dividend : List Char
  divisor : List Char
  span : Span
deriving DecidableEq, Repr

inductive SyntaxError where
  | parse (error : ParseError)
  | arity (error : ArityError)
deriving DecidableEq, Repr

inductive EvalError where
  | arity (error : ArityError)
  | divisionByZero (error : ZeroDivisor)
  | moduloByZero (error : ZeroDivisor)
deriving DecidableEq, Repr

/-- Everything that can keep a typed text from having a value. -/
inductive Failure where
  | unbalancedBrackets
  | lex (error : LexError)
  | parse (error : ParseError)
  | arity (error : ArityError)
  | divisionByZero (error : ZeroDivisor)
  | moduloByZero (error : ZeroDivisor)
deriving DecidableEq, Repr

/-! ## Positions -/

namespace ParseError

def span? : ParseError → Option Span
  | unexpected _ span | missingOperand span => some span
  | emptyExpression => none

def mapSpan (f : Span → Span) : ParseError → ParseError
  | unexpected found span => unexpected found (f span)
  | missingOperand span => missingOperand (f span)
  | emptyExpression => emptyExpression

end ParseError

namespace Failure

def ofSyntaxError : SyntaxError → Failure
  | .parse e => parse e
  | .arity e => arity e

def ofEvalError : EvalError → Failure
  | .arity e => arity e
  | .divisionByZero e => divisionByZero e
  | .moduloByZero e => moduloByZero e

def span? : Failure → Option Span
  | unbalancedBrackets => none
  | lex e => some e.span
  | parse e => e.span?
  | arity e => some e.span
  | divisionByZero e | moduloByZero e => some e.span

def mapSpan (f : Span → Span) : Failure → Failure
  | unbalancedBrackets => unbalancedBrackets
  | lex e => lex { e with span := f e.span }
  | parse e => parse (e.mapSpan f)
  | arity e => arity { e with span := f e.span }
  | divisionByZero e => divisionByZero { e with span := f e.span }
  | moduloByZero e => moduloByZero { e with span := f e.span }

theorem span?_mapSpan (f : Span → Span) (e : Failure) : (e.mapSpan f).span? = e.span?.map f := by
  cases e with
  | parse e => cases e <;> rfl
  | _ => rfl

end Failure

/-! ## Messages -/

def quoteWith (mark : Char) (text : List Char) : List Char :=
  mark :: text ++ [mark]

def natText (n : Nat) : List Char :=
  Nat.toDigits 10 n

def LexFault.message : LexFault → List Char
  | unknownCharacter => "unknown character".toList
  | unknownFunction => "unknown function".toList
  | malformedNumber => "malformed number".toList

def LexError.message (e : LexError) : List Char :=
  e.fault.message ++ ' ' :: quoteWith '\'' e.text

/-- What an error message calls the token at which the text went wrong. -/
def ParseError.foundText (found : Option Token) : List Char :=
  found.elim "end of input".toList Token.quoted

def ParseError.message : ParseError → List Char
  | unexpected found _ => "unexpected ".toList ++ foundText found
  | missingOperand _ => "missing operand".toList
  | emptyExpression => "empty expression".toList

def ArityError.message (e : ArityError) : List Char :=
  "function ".toList ++ quoteWith '\'' e.function.name ++ " expects ".toList ++
    natText e.function.arity ++ " argument(s), but got ".toList ++ natText e.actual

def ZeroDivisor.message (operation : List Char) (op : Operator) (e : ZeroDivisor) : List Char :=
  operation ++ " by zero: ".toList ++ quoteWith '\x60' e.dividend ++ [' ', op.symbol, ' '] ++
    quoteWith '\x60' e.divisor ++ ", divisor evaluates to 0".toList

/-- What went wrong, without the stage at which it did. -/
def Failure.reason : Failure → List Char
  | unbalancedBrackets => "unbalanced brackets: close all of the brackets".toList
  | lex e => e.message
  | parse e => e.message
  | arity e => e.message
  | divisionByZero e => e.message "division".toList .div
  | moduloByZero e => e.message "modulo".toList .mod

/-- The stage that reports the failure, where its reason does not name it. -/
def Failure.stage : Failure → List Char
  | lex _ => "lexical error: ".toList
  | parse _ => "parse error: ".toList
  | arity _ => "arity error: ".toList
  | unbalancedBrackets | divisionByZero _ | moduloByZero _ => []

def Failure.message (e : Failure) : List Char :=
  e.stage ++ e.reason

end Abacus
