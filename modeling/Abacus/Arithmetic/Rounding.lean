/-!
Rounding a binary64 number to an integer.
-/

namespace Abacus

open Float.Model

/-- The greatest integer that is not above the number; an infinity and a zero stay as they are. -/
def floor (x : Float) : Float :=
  match x.toModel.unpack with
  | .finite sign significand power _ =>
      if 0 ≤ power then x
      else .ofModel (.ofInt (sign.apply significand / Int.pow 2 (-power).toNat))
  | _ => x

/-- The nearest integer; halfway between two, the greater. -/
def roundHalfUp (x : Float) : Float :=
  let below := floor x
  if 0.5 ≤ x - below then below + 1 else below

end Abacus
