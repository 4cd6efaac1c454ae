import Abacus.Text.Blank
import Abacus.Text.Utf8
/-!
What a line typed at the prompt asks for.
-/

namespace Abacus

inductive Command where
  | exit
  | history
  | help
  | blank
  | file (path : List Char)
  | fileMissingPath
  | evaluate (expression : List Char)
deriving DecidableEq, Repr

namespace Command

/-- Keywords are taken in any case; blanks around the line and around a path do not count. -/
def ofLine (line : List Char) : Command :=
  let line := trim line
  if line.isEmpty then blank
  else if sameLetters line "exit".toList then exit
  else if sameLetters line "history".toList then history
  else if sameLetters line "help".toList then help
  else if sameLetters line "file".toList then fileMissingPath
  else
    match splitAtByte? line 5 with
    | some (keyword, rest) =>
        if sameLetters keyword "file ".toList then file (trim rest) else evaluate line
    | none => evaluate line

end Command
end Abacus
