import Abacus.Decimal.Shortest
/-!
The two ways in which a binary64 number is written out: as a literal inside an expression, and
as the result of a calculation.
-/

namespace Abacus

open Float.Model UnpackedFloat

def signText : Sign → List Char
  | .negative => ['-']
  | .positive => []

/-- The spelling of a number inside an expression. Both zeros and the special values keep their sign. -/
def literalText (x : Float) : List Char :=
  match x.toModel.unpack with
  | .notANumber => "NaN".toList
  | .infinity sign => signText sign ++ "inf".toList
  | .zero sign => signText sign ++ ['0']
  | .finite sign significand power _ => signText sign ++ Shortest.text significand power

/-- Whether `significand · 2 ^ power` is an integer. -/
def isWhole (significand : Nat) (power : Int) : Bool :=
  significand % Nat.pow 2 (-power).toNat == 0

/--
The spelling of a result: an integer has all its digits, any other number the fewest that read
back, and zero has no sign.
-/
def resultText (x : Float) : List Char :=
  match x.toModel.unpack with
  | .notANumber => "NaN".toList
  | .infinity sign => signText sign ++ "Infinity".toList
  | .zero _ => ['0']
  | .finite sign significand power _ =>
      signText sign ++
        if isWhole significand power then
          Nat.toDigits 10 (significand * Nat.pow 2 power.toNat / Nat.pow 2 (-power).toNat)
        else Shortest.text significand power

end Abacus
