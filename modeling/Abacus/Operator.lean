import Abacus.Arithmetic.Remainder
/-!
The operators between two operands.
-/

namespace Abacus

inductive Operator where
  | add
  | sub
  | mul
  | div
  | mod
  | pow
deriving DecidableEq, Repr

namespace Operator

def all : List Operator :=
  [add, sub, mul, div, mod, pow]

def symbol : Operator → Char
  | add => '+'
  | sub => '-'
  | mul => '*'
  | div => '/'
  | mod => '%'
  | pow => '^'

def ofSymbol? (c : Char) : Option Operator :=
  all.find? fun op => op.symbol == c

/-- How tightly the operator binds. -/
def precedence : Operator → Nat
  | add | sub => 1
  | mul | div | mod => 2
  | pow => 3

/-- Whether a chain of the operator nests to the right. -/
def nestsRight : Operator → Bool
  | pow => true
  | _ => false

def apply : Operator → Float → Float → Float
  | add, x, y => x + y
  | sub, x, y => x - y
  | mul, x, y => x * y
  | div, x, y => x / y
  | mod, x, y => remainder x y
  | pow, x, y => x.pow y

theorem ofSymbol?_symbol (op : Operator) : ofSymbol? op.symbol = some op := by
  cases op <;> decide

theorem ofSymbol?_eq_some_iff {c : Char} {op : Operator} :
    ofSymbol? c = some op ↔ c = op.symbol := by
  constructor
  · intro h
    have := List.find?_some h
    simpa using (by simpa using this : op.symbol = c).symm
  · rintro rfl
    exact ofSymbol?_symbol op

end Operator
end Abacus
