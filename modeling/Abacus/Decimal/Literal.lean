import Abacus.Decimal.Basic
import Abacus.Text.Blank
/-!
Reading a number: sign, digits with an optional point, optional power of ten, or the name of a
special value.
-/

namespace Abacus
namespace Literal

open Float.Model

def infinity : Float :=
  .ofModel (.pack (.infinity .positive))

def notANumber : Float :=
  .ofModel (.pack .notANumber)

/-- Whether the text starts with a minus sign, and what follows its sign. -/
def takeSign : List Char → Bool × List Char
  | '-' :: rest => (true, rest)
  | '+' :: rest => (false, rest)
  | text => (false, text)

/-- The power of ten that ends the text of a number; an empty text means zero. -/
def readExponent? : List Char → Option Int
  | [] => some 0
  | c :: rest =>
      let (negative, digits) := takeSign rest
      if c.toLower == 'e' && !digits.isEmpty && digits.all Char.isDigit then
        let size : Int := Nat.ofDigitChars 10 digits 0
        some (if negative then -size else size)
      else none

/-- The digits before the point, the digits after it, and the rest of the text. -/
def takeDigits (text : List Char) : List Char × List Char × List Char :=
  let whole := text.takeWhile Char.isDigit
  match text.dropWhile Char.isDigit with
  | '.' :: rest => (whole, rest.takeWhile Char.isDigit, rest.dropWhile Char.isDigit)
  | rest => (whole, [], rest)

/-- An unsigned number; a point needs a digit on one of its sides only. -/
def readDecimal? (text : List Char) : Option Decimal :=
  let (whole, fraction, rest) := takeDigits text
  if whole.isEmpty && fraction.isEmpty then none
  else
    (readExponent? rest).map fun power =>
      let d := Decimal.ofDigits whole fraction
      ⟨d.digits, d.exponent + power⟩

def readMagnitude? (text : List Char) : Option Float :=
  if sameLetters text "inf".toList || sameLetters text "infinity".toList then some infinity
  else if sameLetters text "nan".toList then some notANumber
  else (readDecimal? text).map Decimal.toFloat

/-- The number that the whole text writes. -/
def read? (text : List Char) : Option Float :=
  let (negative, magnitude) := takeSign text
  (readMagnitude? magnitude).map fun x => if negative then -x else x

/-- The number that the text writes, or the special value that is no number. -/
def value (text : List Char) : Float :=
  (read? text).getD notANumber

end Literal
end Abacus
