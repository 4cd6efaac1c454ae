import Abacus.Failure
/-!
Diagnostics: what is reported to the user about an expression or a command.
-/

namespace Abacus

inductive Level where
  | error
  | warning
deriving DecidableEq, Repr

structure Diagnostic where
  level : Level
  message : List Char
  span : Option Span := none
  label : Option (List Char) := none
  notes : List (List Char) := []
  help : Option (List Char) := none
deriving DecidableEq, Repr

/-- How numbers can be written. -/
def numberHelp : List Char :=
  "write numbers like 2, 2.5 or 0.5".toList

def operatorHelp : List Char :=
  "supported operators are ".toList ++
    [' '].intercalate (Operator.all.map fun op => [op.symbol])

def functionHelp : List Char :=
  "available functions: ".toList ++ [',', ' '].intercalate (Function.all.map Function.name)

def LexFault.help : LexFault → List Char
  | unknownCharacter => operatorHelp
  | unknownFunction => functionHelp
  | malformedNumber => numberHelp

namespace Failure

/-- The text at the place of the failure. -/
def label : Failure → Option (List Char)
  | lex e => some e.fault.message
  | parse (.unexpected _ _) => some "not expected here".toList
  | parse (.missingOperand _) => some "an operand is expected here".toList
  | arity e => some (natText e.actual ++ " argument(s) given".toList)
  | divisionByZero e | moduloByZero e =>
      some (quoteWith '\x60' e.divisor ++ " evaluates to 0".toList)
  | unbalancedBrackets | parse .emptyExpression => none

def notes : Failure → List (List Char)
  | arity e =>
      [quoteWith '\'' e.function.name ++ " takes exactly ".toList ++
        natText e.function.arity ++ " argument(s)".toList]
  | divisionByZero _ | moduloByZero _ => ["division by zero is not allowed".toList]
  | unbalancedBrackets | lex _ | parse _ => []

def help : Failure → Option (List Char)
  | unbalancedBrackets => some "every '(' needs a matching ')'".toList
  | lex e => some e.fault.help
  | parse .emptyExpression => some "type an expression such as 2+2".toList
  | parse _ | arity _ | divisionByZero _ | moduloByZero _ => none

def diagnostic (e : Failure) : Diagnostic where
  level := .error
  message := e.message
  span := e.span?
  label := e.label
  notes := e.notes
  help := e.help

end Failure

/-- The diagnostics collected during a run, in the order in which they were added. -/
abbrev Diagnostics := List Diagnostic

namespace Diagnostics

def add (ds : Diagnostics) (d : Diagnostic) : Diagnostics :=
  ds ++ [d]

def countAt (level : Level) (ds : Diagnostics) : Nat :=
  ds.countP fun d => d.level == level

def errorCount (ds : Diagnostics) : Nat :=
  ds.countAt .error

def hasErrors (ds : Diagnostics) : Bool :=
  ds.any fun d => d.level == .error

theorem hasErrors_iff (ds : Diagnostics) : ds.hasErrors = true ↔ 0 < ds.errorCount := by
  simp [hasErrors, errorCount, countAt, List.countP_pos_iff]

end Diagnostics
end Abacus
