import Abacus.CallNames
import Abacus.Text.Utf8
/-!
The normal form of a typed text, and the way back to what was typed.

Blanks are taken out and function names of calls are written in small letters. Neither step moves
a byte past another, so one list of byte positions leads back to the typed text.
-/

namespace Abacus

/--
A text without blanks, the byte of the typed text from which each of its bytes came, and the
number of bytes that were typed.
-/
structure Normalized where
  text : List Char
  origins : List Nat
  typedLength : Nat
deriving DecidableEq, Repr

namespace Normalized

/-- The bytes of the characters that are not blank, counted from `offset`. -/
def originsFrom (offset : Nat) : List Char → List Nat
  | [] => []
  | c :: text =>
      let rest := originsFrom (offset + c.utf8Size) text
      if isBlank c then rest else List.range' offset c.utf8Size ++ rest

def ofText (typed : List Char) : Normalized where
  text := CallNames.lowerCalls (typed.filter fun c => !isBlank c)
  origins := originsFrom 0 typed
  typedLength := byteLength typed

/-- Where a byte was typed. Bytes past the end stay as far past the end of the typed text. -/
def origin (n : Normalized) (index : Nat) : Nat :=
  n.origins.getD index (n.typedLength + (index - n.origins.length))

/-- Where a range was typed: from its first byte to just after its last. -/
def toTyped (n : Normalized) (span : Span) : Span :=
  let start := n.origin span.start
  if span.start < span.stop then ⟨start, max start (n.origin (span.stop - 1) + 1)⟩
  else ⟨start, start⟩

end Normalized
end Abacus
