import Abacus.Files
import Abacus.Session
/-!
Many calculations at once: the lines of a list, a stream or a file.
-/

namespace Abacus

/-- The result of one line; lines are numbered from 1, those that are skipped included. -/
structure Outcome where
  line : Nat
  input : List Char
  result : Except Failure Evaluation

structure Summary where
  evaluated : Nat := 0
  failed : Nat := 0
deriving DecidableEq, Repr

namespace Summary

def succeeded (s : Summary) : Nat :=
  s.evaluated - s.failed

/-- One more line, with this result. -/
def count (s : Summary) (result : Except Failure Evaluation) : Summary where
  evaluated := s.evaluated + 1
  failed := if result.isOk then s.failed else s.failed + 1

end Summary

/-- The outcomes of a run in order, the session after it, and its summary unless reading failed. -/
structure Batch where
  outcomes : List Outcome
  session : Session
  summary : Except ReadError Summary

namespace Batch

/-- The lines from line `number` on. A blank line is skipped; one that cannot be read ends the run. -/
def runFrom (number : Nat) (summary : Summary) (session : Session) : List Line → Batch
  | [] => ⟨[], session, .ok summary⟩
  | .error e :: _ => ⟨[], session, .error e⟩
  | .ok line :: lines =>
      let input := trim line
      if input.isEmpty then runFrom (number + 1) summary session lines
      else
        let (result, session) := session.evaluate input
        let rest := runFrom (number + 1) (summary.count result) session lines
        { rest with outcomes := ⟨number, input, result⟩ :: rest.outcomes }

def run (session : Session) (lines : List Line) : Batch :=
  runFrom 1 {} session lines

def runBytes (session : Session) (bytes : List UInt8) : Batch :=
  run session (Lines.ofBytes bytes)

def runFile (files : Files) (session : Session) (path : List Char) : Batch :=
  match files.read path with
  | .ok bytes => runBytes session bytes
  | .error e => ⟨[], session, .error e⟩

/-- What is said about a file that cannot be read to its end. -/
def fileError (path : List Char) (e : ReadError) : List Char :=
  "error reading ".toList ++ quoteWith '\'' path ++ ": ".toList ++ e.message

end Batch
end Abacus
