import Abacus.Calculation
import Abacus.History
/-!
A session: calculations one after another, with their history.
-/

namespace Abacus

structure Session where
  history : History := []
deriving DecidableEq, Repr

namespace Session

/-- The value of a typed text, blanks at its ends aside, and the session after it. Only a success is recorded. -/
def evaluate (s : Session) (typed : List Char) : Except Failure Evaluation × Session :=
  let input := trim typed
  match Evaluation.ofText input with
  | .ok e => (.ok e, { s with history := s.history.append input e.formatted })
  | .error e => (.error e, s)

end Session
end Abacus
