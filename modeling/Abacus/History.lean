/-!
The record of what has been calculated.
-/

namespace Abacus

/-- A calculation that succeeded: what was typed, and how its value is written. -/
structure Record where
  input : List Char
  result : List Char
deriving DecidableEq, Repr

def Record.text (r : Record) : List Char :=
  r.input ++ " = ".toList ++ r.result

/-- The records of a session, oldest first. -/
abbrev History := List Record

def History.append (history : History) (input result : List Char) : History :=
  history ++ [⟨input, result⟩]

end Abacus
