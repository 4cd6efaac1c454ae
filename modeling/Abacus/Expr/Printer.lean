import Abacus.Decimal.Shown
import Abacus.Expr
/-!
The text of an expression, with no bracket that it can do without.
-/

namespace Abacus
namespace Expr

def negatePrecedence : Nat := 4

def atomPrecedence : Nat := 5

/-- How tightly the outermost part of the expression binds. -/
def precedence : Expr → Nat
  | number _ _ | call _ _ _ => atomPrecedence
  | negate _ _ => negatePrecedence
  | binary op _ _ _ => op.precedence

/-- Whether an operand that binds like this needs brackets on the left of the operator. -/
def bracketsLeft (op : Operator) (operand : Nat) : Bool :=
  operand < op.precedence || (operand == op.precedence && op.nestsRight)

/-- Whether an operand that binds like this needs brackets on the right of the operator. -/
def bracketsRight (op : Operator) (operand : Nat) : Bool :=
  operand < op.precedence || (operand == op.precedence && !op.nestsRight)

def bracket (needed : Bool) (text : List Char) : List Char :=
  if needed then '(' :: text ++ [')'] else text

mutual

def text : Expr → List Char
  | number value _ => literalText value
  | negate operand _ => '-' :: bracket (operand.precedence < negatePrecedence) operand.text
  | binary op left right _ =>
      bracket (bracketsLeft op left.precedence) left.text ++ [' ', op.symbol, ' '] ++
        bracket (bracketsRight op right.precedence) right.text
  | call function arguments _ =>
      function.name ++ '(' :: [',', ' '].intercalate (texts arguments) ++ [')']

def texts : List Expr → List (List Char)
  | [] => []
  | e :: rest => e.text :: texts rest

end

theorem texts_eq_map (es : List Expr) : texts es = es.map text := by
  induction es with
  | nil => rfl
  | cons e rest ih => simp [texts, ih]

end Expr
end Abacus
