import Abacus.Proofs.NormalForm
import Abacus.Proofs.Grammar.Bracketing
/-!
Operands that stand in a longer text.

A part of a typed operand that gives a range of the operand's normal form gives the moved range of the
normal form of any text with the operand in it. Brackets around the operand leave its parts where they
are; only the whole operand takes the brackets in.
-/

namespace Abacus

/-- The text in brackets. -/
def inBrackets (text : List Char) : List Char :=
  '(' :: (text ++ [')'])

theorem byteLength_inBrackets (text : List Char) :
    byteLength (inBrackets text) = byteLength text + 2 := by
  show byteLength (['('] ++ (text ++ [')'])) = _
  rw [byteLength_append, byteLength_append, show byteLength ['('] = 1 by decide,
    show byteLength [')'] = 1 by decide]
  omega

namespace Normalized

theorem withoutBlanks_inBrackets (text : List Char) :
    withoutBlanks (inBrackets text) = inBrackets (withoutBlanks text) := by
  show withoutBlanks (['('] ++ (text ++ [')'])) = _
  rw [withoutBlanks_append, withoutBlanks_append]
  rfl

theorem isTrimmed_inBrackets (text : List Char) : IsTrimmed (inBrackets text) := by
  refine ⟨List.cons_ne_nil _ _, ?_, ?_⟩
  · intro c hc
    cases hc
    decide
  · intro c hc
    rw [inBrackets, ← List.cons_append, List.getLast?_concat] at hc
    cases hc
    decide

/-- The range of the operand's normal form is that of the typed piece, which has no outer blanks. -/
structure Selects (operand : List Char) (range : Span) (before piece after : List Char) :
    Prop where
  operand_eq : operand = before ++ piece ++ after
  isTrimmed : IsTrimmed piece
  start : range.start = byteLength (withoutBlanks before)
  stop : range.stop = byteLength (withoutBlanks (before ++ piece))

/-- Where the piece is if its operand starts at byte `start`. -/
def pieceAt (start : Nat) (before piece : List Char) : Span :=
  ⟨start + byteLength before, start + byteLength (before ++ piece)⟩

/--
Where the piece is if its operand is in brackets, the first at byte `opening`. A piece that is all of
the operand apart from blanks is found with the brackets.
-/
def pieceInBrackets (opening : Nat) (before piece after : List Char) : Span :=
  if (before ++ after).all isBlank then
    ⟨opening, opening + byteLength (inBrackets (before ++ piece ++ after))⟩
  else pieceAt (opening + 1) before piece

theorem exists_selects {operand a m b : List Char} (h : (ofText operand).text = a ++ m ++ b)
    (hm : m ≠ []) :
    ∃ before piece after,
      Selects operand ⟨byteLength a, byteLength (a ++ m)⟩ before piece after := by
  obtain ⟨before, piece, after, hoperand, htrimmed, hbefore, hpiece, _⟩ :=
    exists_parts_of_text h hm
  refine ⟨before, piece, after, hoperand, htrimmed, ?_, ?_⟩
  · exact (byteLength_eq_of_sameLetters hbefore).symm
  · show byteLength (a ++ m) = _
    rw [withoutBlanks_append, byteLength_append, byteLength_append,
      byteLength_eq_of_sameLetters hbefore, byteLength_eq_of_sameLetters hpiece]

theorem byteLength_text (typed : List Char) :
    byteLength (ofText typed).text = byteLength (withoutBlanks typed) :=
  byteLength_eq_of_sameLetters (sameLetters_text typed)

section

variable {operand before piece after : List Char} {range : Span}

/-- In a longer text the range has moved by what the normal form has before the operand. -/
theorem Selects.toTyped (h : Selects operand range before piece after) (front back : List Char) :
    (ofText (front ++ (operand ++ back))).toTyped (range.ahead (byteLength (withoutBlanks front))) =
      pieceAt (byteLength front) before piece := by
  have htyped : front ++ (operand ++ back) = front ++ before ++ piece ++ (after ++ back) := by
    rw [h.operand_eq]
    simp only [List.append_assoc]
  have hrange : range.ahead (byteLength (withoutBlanks front)) =
      ⟨byteLength (withoutBlanks (front ++ before)),
        byteLength (withoutBlanks (front ++ before ++ piece))⟩ := by
    rw [Span.ahead, h.start, h.stop, List.append_assoc, withoutBlanks_append front before,
      withoutBlanks_append front (before ++ piece), byteLength_append, byteLength_append]
  rw [htyped, hrange, toTyped_of_isTrimmed (front ++ before) (after ++ back) h.isTrimmed, pieceAt,
    List.append_assoc, byteLength_append, byteLength_append]

/-- The range is that of the whole normal form exactly if only blanks stand around the piece. -/
theorem Selects.whole_iff (h : Selects operand range before piece after) :
    (⟨0, byteLength (ofText operand).text⟩ : Span).Inside range ↔
      (before ++ after).all isBlank = true := by
  have hlength : byteLength (ofText operand).text =
      byteLength (withoutBlanks (before ++ piece)) + byteLength (withoutBlanks after) := by
    rw [byteLength_text, h.operand_eq, withoutBlanks_append, byteLength_append]
  have hblank : (before ++ after).all isBlank = true ↔
      withoutBlanks before = [] ∧ withoutBlanks after = [] := by
    rw [List.all_append, Bool.and_eq_true, List.all_eq_true, List.all_eq_true,
      withoutBlanks_eq_nil_iff, withoutBlanks_eq_nil_iff]
  rw [hblank]
  constructor
  · intro hinside
    have hstart : range.start ≤ 0 := hinside.1
    have hstop : byteLength (ofText operand).text ≤ range.stop := hinside.2
    rw [h.start] at hstart
    rw [h.stop, hlength] at hstop
    constructor
    · by_contra hne
      have := byteLength_pos hne
      omega
    · by_contra hne
      have := byteLength_pos hne
      omega
  · intro hnil
    constructor
    · show range.start ≤ 0
      rw [h.start, hnil.1]
      rfl
    · show byteLength (ofText operand).text ≤ range.stop
      rw [h.stop, hlength, hnil.2]
      rfl

/-- In brackets the range has moved by one more byte, or takes the brackets in. -/
theorem Selects.toTyped_inBrackets (h : Selects operand range before piece after)
    (hinside : range.Inside ⟨0, byteLength (ofText operand).text⟩) (front back : List Char) :
    (ofText (front ++ (inBrackets operand ++ back))).toTyped
        ((Span.bracketed ⟨0, byteLength (ofText operand).text⟩ range).ahead
          (byteLength (withoutBlanks front))) =
      pieceInBrackets (byteLength front) before piece after := by
  by_cases hwhole : (⟨0, byteLength (ofText operand).text⟩ : Span).Inside range
  · -- With its brackets the operand has no outer blanks, so it is a piece of itself.
    have hselects : Selects (inBrackets operand)
        (Span.bracketed ⟨0, byteLength (ofText operand).text⟩ range) [] (inBrackets operand) [] := by
      have hstart : range.start = 0 := Nat.le_zero.mp hwhole.1
      have hstop : range.stop = byteLength (ofText operand).text :=
        Nat.le_antisymm hinside.2 hwhole.2
      rw [Span.bracketed_of_inside hwhole, hstart, hstop]
      refine ⟨(List.append_nil _).symm, isTrimmed_inBrackets operand, rfl, ?_⟩
      rw [List.nil_append, withoutBlanks_inBrackets, byteLength_inBrackets, byteLength_text]
    rw [hselects.toTyped, pieceInBrackets, if_pos (h.whole_iff.mp hwhole), ← h.operand_eq]
    rfl
  · -- The opening bracket counts to what stands before the operand.
    have hrange : (Span.bracketed ⟨0, byteLength (ofText operand).text⟩ range).ahead
        (byteLength (withoutBlanks front)) =
          range.ahead (byteLength (withoutBlanks (front ++ ['(']))) := by
      rw [Span.bracketed_inner hinside hwhole, withoutBlanks_append, byteLength_append]
      simp only [Span.ahead, Nat.add_assoc]
      rfl
    have htyped : front ++ (inBrackets operand ++ back) =
        front ++ ['('] ++ (operand ++ ([')'] ++ back)) := by
      simp only [inBrackets, List.append_assoc, List.cons_append, List.nil_append]
    rw [htyped, hrange, h.toTyped, pieceInBrackets, if_neg (fun hall => hwhole (h.whole_iff.mpr hall)),
      byteLength_append]
    rfl

end

end Normalized
end Abacus
