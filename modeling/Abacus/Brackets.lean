/-!
Pairs of round brackets.
-/

namespace Abacus

/-- Whether the brackets of the text pair up, with `depth` brackets open before it. -/
def closesFrom : Nat → List Char → Bool
  | depth, [] => depth == 0
  | depth, '(' :: text => closesFrom (depth + 1) text
  | 0, ')' :: _ => false
  | depth + 1, ')' :: text => closesFrom depth text
  | depth, _ :: text => closesFrom depth text

/-- Whether every bracket of the text has its partner. -/
def isBalanced (text : List Char) : Bool :=
  closesFrom 0 text

end Abacus
