import Abacus.Lines
/-!
The files that can be read.
-/

namespace Abacus

/-- What reading each path gives, and which paths lead to anything at all. -/
structure Files where
  read : List Char → Except ReadError (List UInt8)
  present : List Char → Bool

end Abacus
