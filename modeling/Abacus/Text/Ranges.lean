/-!
Sets of characters, written as the ranges of their numbers.
-/

namespace Abacus

/-- Whether the character lies in one of the ranges; both ends of a range belong to it. -/
def inRanges (ranges : List (Nat × Nat)) (c : Char) : Bool :=
  ranges.any fun (first, last) => first ≤ c.toNat && c.toNat ≤ last

end Abacus
