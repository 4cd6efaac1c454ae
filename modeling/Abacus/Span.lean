/-!
Byte ranges of a text.
-/

namespace Abacus

/--
The bytes from `start` up to, not including, `stop`. A range written by hand may have its
ends in the wrong order or lie past the text.
-/
structure Span where
  start : Nat
  stop : Nat
deriving DecidableEq, Repr

namespace Span

/-- The position after a text of `length` bytes, drawn as one byte that the text does not have. -/
def endOf (length : Nat) : Span :=
  ⟨length, length + 1⟩

/-- From the start of the first range to the end of the second. -/
def cover (first last : Span) : Span :=
  ⟨first.start, last.stop⟩

/-- The part that lies in a text of `length` bytes; an end before the start moves up to it. -/
def clamp (span : Span) (length : Nat) : Span :=
  let start := min span.start length
  ⟨start, max start (min span.stop length)⟩

theorem clamp_start_le (span : Span) (length : Nat) :
    (span.clamp length).start ≤ (span.clamp length).stop := by
  simp only [clamp]
  omega

theorem clamp_stop_le (span : Span) (length : Nat) :
    (span.clamp length).stop ≤ length := by
  simp only [clamp]
  omega

end Span
end Abacus
