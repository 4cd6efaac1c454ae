import Abacus.Diagnostic.Snippet
import Abacus.Proofs.Positions
import Abacus.Proofs.Spacing
/-!
The range that is drawn for a failure.

A range is widened to whole characters before it is drawn, and one that lies behind the text is
drawn under the last character. The ranges in failures need no widening: they start and stop at
characters of what was typed, and those are no blanks.
-/

namespace Abacus

/-! ## Boundaries of characters -/

theorem boundaryBefore_append (before after : List Char) :
    boundaryBefore (before ++ after) (byteLength before) = byteLength before := by
  induction before with
  | nil =>
    cases after with
    | nil => rfl
    | cons c after =>
      have := c.utf8Size_pos
      show boundaryBefore (c :: after) 0 = 0
      rw [boundaryBefore, if_neg (by omega)]
  | cons c before ih =>
    rw [List.cons_append, byteLength_cons, boundaryBefore, if_pos (Nat.le_add_right _ _),
      Nat.add_sub_cancel_left, ih]

theorem boundaryAfter_append (before after : List Char) :
    boundaryAfter (before ++ after) (byteLength before) = byteLength before := by
  induction before with
  | nil => cases after <;> rfl
  | cons c before ih =>
    have hpos := c.utf8Size_pos
    rw [List.cons_append, byteLength_cons, boundaryAfter, Nat.add_sub_cancel_left, ih]
    omega

/-- A part of the text that is not empty is drawn as it is. -/
theorem visibleSpan_part (before after : List Char) {piece : List Char} (h : piece ≠ []) :
    visibleSpan ⟨byteLength before, byteLength (before ++ piece)⟩ (before ++ piece ++ after) =
      ⟨byteLength before, byteLength (before ++ piece)⟩ := by
  have hpos := byteLength_pos h
  have hinside : Span.clamp ⟨byteLength before, byteLength (before ++ piece)⟩
      (byteLength (before ++ piece ++ after)) =
        ⟨byteLength before, byteLength (before ++ piece)⟩ := by
    simp only [Span.clamp, byteLength_append, Span.mk.injEq]
    omega
  have hstart : boundaryBefore (before ++ piece ++ after) (byteLength before) =
      byteLength before := by
    rw [List.append_assoc, boundaryBefore_append]
  have hlt : byteLength before < byteLength (before ++ piece) := by
    rw [byteLength_append]
    omega
  rw [visibleSpan, hinside]
  dsimp only
  rw [hstart, boundaryAfter_append, if_pos hlt]

/-- A range from the end of the text on is drawn under the last character. -/
theorem visibleSpan_of_end {span : Span} {front : List Char} {c : Char}
    (h : (span.clamp (byteLength (front ++ [c]))).start = byteLength (front ++ [c])) :
    visibleSpan span (front ++ [c]) = ⟨byteLength front, byteLength (front ++ [c])⟩ := by
  have hinside : span.clamp (byteLength (front ++ [c])) =
      ⟨byteLength (front ++ [c]), byteLength (front ++ [c])⟩ := by
    simp only [Span.clamp, Span.mk.injEq] at h ⊢
    omega
  have hstart := boundaryBefore_append (front ++ [c]) []
  have hstop := boundaryAfter_append (front ++ [c]) []
  rw [List.append_nil] at hstart hstop
  rw [visibleSpan, hinside]
  dsimp only
  rw [hstart, hstop, if_neg (Nat.lt_irrefl _), if_neg (Nat.lt_irrefl _), lastStart,
    List.dropLast_concat]

/-- The end of the text is drawn under its last character. -/
theorem visibleSpan_endOf (front : List Char) (c : Char) :
    visibleSpan (.endOf (byteLength (front ++ [c]))) (front ++ [c]) =
      ⟨byteLength front, byteLength (front ++ [c])⟩ :=
  visibleSpan_of_end (Nat.min_self _)

/-! ## Failures -/

namespace Evaluation

open Normalized

/--
The range in a failure is that of a part of what was typed, with no blank at its ends, and is drawn
as it is; or it stands behind everything that was typed, and the last character is drawn.
-/
theorem visibleSpan_of_failure {typed : List Char} {failure : Failure} {span : Span}
    (h : ofText typed = .error failure) (hspan : failure.span? = some span) :
    (span.start < span.stop ∧ span.stop ≤ byteLength typed ∧
        (∃ before piece after, typed = before ++ piece ++ after ∧ IsTrimmed piece ∧
          span = ⟨byteLength before, byteLength (before ++ piece)⟩) ∧
        visibleSpan span typed = span) ∨
      (span = .endOf (byteLength typed) ∧ ∃ front c, typed = front ++ [c] ∧
        visibleSpan span typed = ⟨byteLength front, byteLength typed⟩) := by
  have hne : typed ≠ [] := by
    rintro rfl
    rw [ofText_nil] at h
    cases h
    contradiction
  obtain ⟨e, hnormal, rfl⟩ := exists_of_ofText_error h
  rw [Failure.span?_mapSpan, Option.map_eq_some_iff] at hspan
  obtain ⟨origin, horigin, rfl⟩ := hspan
  rcases span_of_ofNormal_error hnormal horigin with rfl | ⟨a, m, b, htext, hm, rfl⟩
  · have hend : (Normalized.ofText typed).toTyped
        (.endOf (byteLength (Normalized.ofText typed).text)) = .endOf (byteLength typed) :=
      (toTyped_eq_relocation typed (Nat.lt_succ_self _)).trans (relocation_end typed)
    rw [hend]
    obtain ⟨front, c, rfl⟩ := (List.eq_nil_or_concat' typed).resolve_left hne
    exact .inr ⟨rfl, front, c, rfl, visibleSpan_endOf front c⟩
  · obtain ⟨before, piece, after, rfl, htrimmed, _, hrange⟩ := exists_part_of_text htext hm
    have hpart : Span.IsPartOf ⟨byteLength before, byteLength (before ++ piece)⟩
        (before ++ piece ++ after) := ⟨before, piece, after, rfl, htrimmed.1, rfl⟩
    rw [hrange]
    refine .inl ⟨hpart.start_lt_stop, ?_, ⟨before, piece, after, rfl, htrimmed, rfl⟩,
      visibleSpan_part before after htrimmed.1⟩
    rw [byteLength_append (before ++ piece)]
    exact Nat.le_add_right _ _

/-- A character of two bytes that is no operator, and no operand behind a blank of three bytes. -/
theorem visibleSpan_of_failure_at_wide_characters :
    ofText "2 +\té ".toList = .error (.lex ⟨.unknownCharacter, ['é'], ⟨4, 6⟩⟩) ∧
      visibleSpan ⟨4, 6⟩ "2 +\té ".toList = ⟨4, 6⟩ ∧
      ofText "2 *\u3000".toList = .error (.parse (.missingOperand ⟨6, 7⟩)) ∧
      visibleSpan ⟨6, 7⟩ "2 *\u3000".toList = ⟨3, 6⟩ := by
  have hunknown : ofText "2 +\té ".toList =
      .error (.lex ⟨.unknownCharacter, ['é'], ⟨4, 6⟩⟩) := by
    decide +kernel
  have hmissing : ofText "2 *\u3000".toList = .error (.parse (.missingOperand ⟨6, 7⟩)) := by
    decide +kernel
  refine ⟨hunknown, ?_, hmissing, ?_⟩
  · rcases visibleSpan_of_failure hunknown rfl with ⟨_, _, _, hvisible⟩ | ⟨hend, _⟩
    · exact hvisible
    · cases hend
  · rcases visibleSpan_of_failure hmissing rfl with ⟨_, hstop, _⟩ | ⟨_, front, c, htyped, hvisible⟩
    · revert hstop
      decide
    · have hfront : "2 *".toList = front := by
        have := congrArg List.dropLast htyped
        rwa [List.dropLast_concat] at this
      rw [hvisible, ← hfront]
      rfl

end Evaluation
end Abacus
