/-!
The exact remainder of two binary64 numbers.
-/

namespace Abacus

open Float.Model

/--
What is left of the first number after taking away the second as often as its quotient, cut
towards zero, says. The result is exact and has the sign of the first number.
-/
def remainder (x y : Float) : Float :=
  match x.toModel.unpack, y.toModel.unpack with
  | .notANumber, _ | _, .notANumber | .infinity _, _ | _, .zero _ =>
      .ofModel (.pack .notANumber)
  | .zero _, _ | _, .infinity _ => x
  | .finite sign m e _, .finite _ n f _ =>
      let unit := min e f
      let left := m * Nat.pow 2 (e - unit).toNat % (n * Nat.pow 2 (f - unit).toNat)
      .ofModel (.pack (.round Format.binary64 sign left unit))

end Abacus
