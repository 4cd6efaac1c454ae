import Abacus.Arithmetic.Rounding
import Abacus.Decimal.Literal
import Abacus.Text.Blank
/-!
The functions that an expression can call.
-/

namespace Abacus

inductive Function where
  | sqrt
  | abs
  | power
  | round
deriving DecidableEq, Repr

namespace Function

def all : List Function :=
  [sqrt, abs, power, round]

def name : Function → List Char
  | sqrt => "sqrt".toList
  | abs => "abs".toList
  | power => "power".toList
  | round => "round".toList

/-- How many arguments a call needs. -/
def arity : Function → Nat
  | power => 2
  | sqrt | abs | round => 1

def ofName? (word : List Char) : Option Function :=
  all.find? fun f => f.name == word

/-- The function of this name, in capitals or not. -/
def ofNameAnyCase? (word : List Char) : Option Function :=
  all.find? fun f => sameLetters f.name word

/-- The value of a call; with a wrong number of arguments it is no number. -/
def apply : Function → List Float → Float
  | sqrt, [x] => x.sqrt
  | abs, [x] => x.abs
  | round, [x] => roundHalfUp x
  | power, [base, exponent] => base.pow exponent
  | _, _ => Literal.notANumber

theorem mem_all (f : Function) : f ∈ all := by
  cases f <;> simp [all]

theorem ofName?_name (f : Function) : ofName? f.name = some f := by
  cases f <;> decide

theorem ofName?_eq_some_iff {word : List Char} {f : Function} :
    ofName? word = some f ↔ word = f.name := by
  constructor
  · intro h
    have := List.find?_some h
    simpa using (by simpa using this : f.name = word).symm
  · rintro rfl
    exact ofName?_name f

end Function
end Abacus
