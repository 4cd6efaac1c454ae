/-!
Decimal numbers and their positional text.
-/

namespace Abacus

/-- The number `digits · 10 ^ exponent`. -/
structure Decimal where
  digits : Nat
  exponent : Int
deriving DecidableEq, Repr

namespace Decimal

/-- The nearest binary64 number; halfway between two, the one with an even last bit. -/
def toFloat (d : Decimal) : Float :=
  .ofModel (.ofScientific d.digits d.exponent)

/-- The decimal that is written `whole.fraction`. -/
def ofDigits (whole fraction : List Char) : Decimal :=
  ⟨Nat.ofDigitChars 10 (whole ++ fraction) 0, -fraction.length⟩

/-- The digits after the point of `fraction / 10 ^ places`, without the zeros at their end. -/
def fractionText (places fraction : Nat) : List Char :=
  (((Nat.toDigits 10 fraction).leftpad places '0').reverse.dropWhile (· == '0')).reverse

/-- All digits in their places: no exponent, no zero at the end of a fraction, no bare point. -/
def text (d : Decimal) : List Char :=
  let places := (-d.exponent).toNat
  let scaled := d.digits * Nat.pow 10 d.exponent.toNat
  let whole := Nat.toDigits 10 (scaled / Nat.pow 10 places)
  match fractionText places (scaled % Nat.pow 10 places) with
  | [] => whole
  | c :: fraction => whole ++ '.' :: c :: fraction

end Decimal
end Abacus
