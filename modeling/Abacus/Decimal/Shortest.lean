import Abacus.Decimal.Literal
/-!
The shortest decimal that reads back as a given binary64 number.

A positive number is given as `significand · 2 ^ power`. For 1, 2, … 17 digits its two neighbours
on that decimal grid are written and read again; the first that reads back is taken, so the text
has no more digits than it needs. The exact expansion stands behind the search, so that every
text reads back whatever the search does.
-/

namespace Abacus
namespace Shortest

open Float.Model

def numerator (significand : Nat) (power : Int) : Nat :=
  significand * Nat.pow 2 power.toNat

def denominator (power : Int) : Nat :=
  Nat.pow 2 (-power).toNat

/-- The least `k` with `num / den < 10 ^ k`, for a positive quotient. -/
def magnitude (num den : Nat) : Int :=
  if den ≤ num then (Nat.toDigits 10 (num / den)).length
  else 1 - (Nat.toDigits 10 ((den - 1) / num)).length

/-- The multiples of `10 ^ grid` next to `num / den`, the nearer first and the upper on a tie. -/
def neighbours (num den : Nat) (grid : Int) : List Decimal :=
  let num := num * Nat.pow 10 (-grid).toNat
  let den := den * Nat.pow 10 grid.toNat
  let below : Decimal := ⟨num / den, grid⟩
  let above : Decimal := ⟨num / den + 1, grid⟩
  if 2 * (num % den) < den then [below, above] else [above, below]

/-- Every digit of the number, as many as it has. -/
def exact (significand : Nat) (power : Int) : Decimal :=
  ⟨significand * Nat.pow 2 power.toNat * Nat.pow 5 (-power).toNat, min power 0⟩

/-- Whether the text reads as `significand · 2 ^ power`. -/
def readsAs (text : List Char) (significand : Nat) (power : Int) : Bool :=
  match Literal.readDecimal? text with
  | none => false
  | some d =>
      match d.toFloat.toModel.unpack with
      | .finite .positive m q _ => m == significand && q == power
      | _ => false

/-- The first decimal of 1, 2, … 17 digits whose text reads back. -/
def find? (significand : Nat) (power : Int) : Option Decimal :=
  let num := numerator significand power
  let den := denominator power
  let top := magnitude num den
  (List.range 17).findSome? fun n : Nat =>
    (neighbours num den (top - (n + 1))).find? fun d => readsAs d.text significand power

def text (significand : Nat) (power : Int) : List Char :=
  ((find? significand power).getD (exact significand power)).text

end Shortest
end Abacus
