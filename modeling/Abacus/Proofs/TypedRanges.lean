import Abacus.Proofs.Spacing
/-!
The way back from the normal form to what was typed.

A range between two boundaries of characters leads back to a part of the typed text that has no
blanks at its ends, and without its blanks that part is the text of the range. Ranges that are not
empty keep their order and stay inside one another, also those that reach past the end.
-/

namespace Abacus

/-! ## Boundaries of characters -/

/-- A position between two characters of the text or at one of its ends. -/
def IsBoundary (text : List Char) (index : Nat) : Prop :=
  ∃ before after, text = before ++ after ∧ byteLength before = index

theorem byteLength_le_of_isPrefix {a b : List Char} (h : a <+: b) :
    byteLength a ≤ byteLength b := by
  obtain ⟨rest, rfl⟩ := h
  rw [byteLength_append]
  exact Nat.le_add_right _ _

/-- What stands between two boundaries. -/
theorem exists_part_of_isBoundary {text : List Char} {i j : Nat} (hi : IsBoundary text i)
    (hj : IsBoundary text j) (hlt : i < j) :
    ∃ front part back, text = front ++ part ++ back ∧ part ≠ [] ∧ byteLength front = i ∧
      byteLength (front ++ part) = j := by
  obtain ⟨front, rest, htext, rfl⟩ := hi
  obtain ⟨longer, back, htext', rfl⟩ := hj
  have hfront : front <+: text := ⟨rest, htext.symm⟩
  have hlonger : longer <+: text := ⟨back, htext'.symm⟩
  rcases List.prefix_or_prefix_of_prefix hfront hlonger with ⟨part, rfl⟩ | hback
  · refine ⟨front, part, back, htext', ?_, rfl, rfl⟩
    rintro rfl
    rw [List.append_nil] at hlt
    exact Nat.lt_irrefl _ hlt
  · exact absurd (byteLength_le_of_isPrefix hback) (Nat.not_le_of_lt hlt)

/-! ## Ranges that are moved -/

namespace Span

/-- All bytes of the first range belong to the second. -/
def Inside (a b : Span) : Prop :=
  b.start ≤ a.start ∧ a.stop ≤ b.stop

/-- The first range ends where the second starts or before. -/
def Precedes (a b : Span) : Prop :=
  a.stop ≤ b.start

end Span

namespace Normalized

theorem toTyped_of_lt (typed : List Char) {span : Span} (h : span.start < span.stop) :
    (ofText typed).toTyped span =
      ⟨(ofText typed).origin span.start, (ofText typed).origin (span.stop - 1) + 1⟩ :=
  toTyped_eq_relocation typed h

theorem start_lt_stop_toTyped (typed : List Char) {span : Span} (h : span.start < span.stop) :
    ((ofText typed).toTyped span).start < ((ofText typed).toTyped span).stop := by
  have hmono := (strictMono_origin typed).monotone (Nat.le_sub_one_of_lt h)
  rw [toTyped_of_lt typed h]
  exact Nat.lt_succ_of_le hmono

theorem inside_toTyped_iff (typed : List Char) {a b : Span} (ha : a.start < a.stop)
    (hb : b.start < b.stop) :
    ((ofText typed).toTyped a).Inside ((ofText typed).toTyped b) ↔ a.Inside b := by
  have hmono := strictMono_origin typed
  rw [toTyped_of_lt typed ha, toTyped_of_lt typed hb, Span.Inside, Span.Inside]
  dsimp only
  rw [Nat.succ_le_succ_iff, hmono.le_iff_le, hmono.le_iff_le]
  omega

theorem precedes_toTyped_iff (typed : List Char) {a b : Span} (ha : a.start < a.stop)
    (hb : b.start < b.stop) :
    ((ofText typed).toTyped a).Precedes ((ofText typed).toTyped b) ↔ a.Precedes b := by
  have hmono := strictMono_origin typed
  rw [toTyped_of_lt typed ha, toTyped_of_lt typed hb, Span.Precedes, Span.Precedes]
  dsimp only
  rw [Nat.succ_le_iff, hmono.lt_iff_lt]
  omega

theorem toTyped_end (typed : List Char) :
    (ofText typed).toTyped (.endOf (byteLength (ofText typed).text)) = .endOf (byteLength typed) :=
  (toTyped_eq_relocation typed (Nat.lt_succ_self _)).trans (relocation_end typed)

/--
A range between two boundaries of the normal form leads back to a part of the typed text. No blank
stands at the ends of the part, and with its blanks taken out it is the text of the range, in
capitals or not. A range that is not empty leads to one that is not empty; one is inside of another,
or before it, exactly if this holds of the ranges that they lead to. The end leads to the end.
-/
theorem toTyped_keeps_text_and_order (typed : List Char) :
    (∀ i j, i < j → IsBoundary (ofText typed).text i → IsBoundary (ofText typed).text j →
      ∃ front part back before piece after,
        (ofText typed).text = front ++ part ++ back ∧ byteLength front = i ∧
        byteLength (front ++ part) = j ∧ typed = before ++ piece ++ after ∧ IsTrimmed piece ∧
        (ofText typed).toTyped ⟨i, j⟩ = ⟨byteLength before, byteLength (before ++ piece)⟩ ∧
        sameLetters (withoutBlanks piece) part = true) ∧
    (∀ a b : Span, a.start < a.stop → b.start < b.stop →
      ((ofText typed).toTyped a).start < ((ofText typed).toTyped a).stop ∧
      (((ofText typed).toTyped a).Inside ((ofText typed).toTyped b) ↔ a.Inside b) ∧
      (((ofText typed).toTyped a).Precedes ((ofText typed).toTyped b) ↔ a.Precedes b)) ∧
    (ofText typed).toTyped (.endOf (byteLength (ofText typed).text)) =
      .endOf (byteLength typed) := by
  refine ⟨?_, ?_, toTyped_end typed⟩
  · intro i j hlt hi hj
    obtain ⟨front, part, back, htext, hpart, rfl, rfl⟩ := exists_part_of_isBoundary hi hj hlt
    obtain ⟨before, piece, after, htyped, htrimmed, hsame, hrange⟩ :=
      exists_part_of_text htext hpart
    exact ⟨front, part, back, before, piece, after, htext, rfl, rfl, htyped, htrimmed, hrange, hsame⟩
  · intro a b ha hb
    exact ⟨start_lt_stop_toTyped typed ha, inside_toTyped_iff typed ha hb,
      precedes_toTyped_iff typed ha hb⟩

/-- A call in capitals with a character of two bytes, its argument, and bytes behind the text. -/
theorem toTyped_keeps_text_and_order_of_call :
    let n := ofText "1+ ABS( é )".toList
    n.text = "1+abs(é)".toList ∧ IsBoundary n.text 2 ∧ IsBoundary n.text 9 ∧
      (∃ before piece after, "1+ ABS( é )".toList = before ++ piece ++ after ∧ IsTrimmed piece ∧
        n.toTyped ⟨2, 9⟩ = ⟨byteLength before, byteLength (before ++ piece)⟩) ∧
      n.toTyped ⟨2, 9⟩ = ⟨3, 12⟩ ∧ (n.toTyped ⟨6, 8⟩).Inside (n.toTyped ⟨2, 9⟩) ∧
      (n.toTyped ⟨2, 9⟩).Precedes (n.toTyped ⟨10, 12⟩) ∧ n.toTyped ⟨9, 10⟩ = .endOf 12 := by
  intro n
  have htext : n.text = "1+abs(é)".toList := by decide +kernel
  have hstart : IsBoundary n.text 2 := ⟨"1+".toList, "abs(é)".toList, htext, rfl⟩
  have hstop : IsBoundary n.text 9 := ⟨"1+abs(é)".toList, [], htext, by decide⟩
  obtain ⟨hpart, horder, hend⟩ := toTyped_keeps_text_and_order "1+ ABS( é )".toList
  obtain ⟨_, _, _, before, piece, after, _, _, _, htyped, htrimmed, hrange, _⟩ :=
    hpart 2 9 (by decide) hstart hstop
  obtain ⟨_, hinside, _⟩ := horder ⟨6, 8⟩ ⟨2, 9⟩ (by decide) (by decide)
  obtain ⟨_, _, hprecedes⟩ := horder ⟨2, 9⟩ ⟨10, 12⟩ (by decide) (by decide)
  refine ⟨htext, hstart, hstop, ⟨before, piece, after, htyped, htrimmed, hrange⟩,
    by decide +kernel, hinside.mpr ⟨by decide, by decide⟩,
    hprecedes.mpr (show 9 ≤ 10 by decide), ?_⟩
  have hlength : byteLength n.text = 9 := by rw [htext]; decide
  rwa [hlength] at hend

end Normalized
end Abacus
