import Abacus.Expr
import Abacus.Failure
/-!
Whether every call in an expression has as many arguments as its function needs.
-/

namespace Abacus
namespace Expr

mutual

/-- The first call with a wrong number of arguments; a call comes before its arguments. -/
def checkArity : Expr → Except ArityError Unit
  | number _ _ => .ok ()
  | negate operand _ => checkArity operand
  | binary _ left right _ => do
      checkArity left
      checkArity right
  | call function arguments span =>
      if arguments.length = function.arity then checkArities arguments
      else .error ⟨function, arguments.length, span⟩

def checkArities : List Expr → Except ArityError Unit
  | [] => .ok ()
  | e :: rest => do
      checkArity e
      checkArities rest

end

end Expr
end Abacus
