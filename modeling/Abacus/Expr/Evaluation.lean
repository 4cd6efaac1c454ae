import Abacus.Expr.Printer
import Abacus.Failure
/-!
The value of an expression.
-/

namespace Abacus

/-- What the operators and functions of an expression mean. -/
structure Arithmetic where
  negate : Float → Float
  binary : Operator → Float → Float → Float
  call : Function → List Float → Float

/-- The meaning in binary64 numbers. -/
def Arithmetic.binary64 : Arithmetic where
  negate := Float.neg
  binary := Operator.apply
  call := Function.apply

/-- Whether the number is a zero, of either sign. -/
def isZero (x : Float) : Bool :=
  match x.toModel.unpack with
  | .zero _ => true
  | _ => false

namespace Operator

/-- What dividing by zero is called, for the operators that do not allow it. -/
def zeroDivisor? : Operator → Option (ZeroDivisor → EvalError)
  | div => some .divisionByZero
  | mod => some .moduloByZero
  | add | sub | mul | pow => none

end Operator

namespace Expr

mutual

/--
Left operands and earlier arguments come first, and the first failure is the result. A call with a
wrong number of arguments fails before any of them is looked at.
-/
def evaluateWith (a : Arithmetic) : Expr → Except EvalError Float
  | number value _ => .ok value
  | negate operand _ => do
      let x ← evaluateWith a operand
      .ok (a.negate x)
  | binary op left right span => do
      let x ← evaluateWith a left
      let y ← evaluateWith a right
      match op.zeroDivisor? with
      | some error =>
          if isZero y then .error (error ⟨left.text, right.text, span⟩) else .ok (a.binary op x y)
      | none => .ok (a.binary op x y)
  | call function arguments span =>
      if arguments.length = function.arity then do
        let values ← evaluateAllWith a arguments
        .ok (a.call function values)
      else .error (.arity ⟨function, arguments.length, span⟩)

def evaluateAllWith (a : Arithmetic) : List Expr → Except EvalError (List Float)
  | [] => .ok []
  | e :: rest => do
      let x ← evaluateWith a e
      let xs ← evaluateAllWith a rest
      .ok (x :: xs)

end

def evaluate (e : Expr) : Except EvalError Float :=
  e.evaluateWith .binary64

end Expr
end Abacus
