import Abacus.Normalized
import Abacus.Proofs.CallNames
/-!
The normal form of a text, part by part.

Each character that is not blank keeps its bytes, in order. So a part of the normal form comes from
one part of the typed text, and its range leads back to that part without the blanks at its ends.
-/

namespace Abacus
namespace Normalized

/-- What is left of a text when its blanks are taken out. -/
def withoutBlanks (typed : List Char) : List Char :=
  typed.filter fun c => !isBlank c

@[simp] theorem withoutBlanks_append (a b : List Char) :
    withoutBlanks (a ++ b) = withoutBlanks a ++ withoutBlanks b :=
  List.filter_append a b

theorem withoutBlanks_cons_of_not {c : Char} (h : isBlank c = false) (text : List Char) :
    withoutBlanks (c :: text) = c :: withoutBlanks text := by
  rw [withoutBlanks, List.filter_cons_of_pos (by rw [h]; rfl)]
  rfl

theorem withoutBlanks_eq_self {text : List Char} (h : ∀ c ∈ text, isBlank c = false) :
    withoutBlanks text = text := by
  apply List.filter_eq_self.mpr
  intro c hc
  rw [h c hc]
  rfl

theorem withoutBlanks_eq_nil_iff {text : List Char} :
    withoutBlanks text = [] ↔ ∀ c ∈ text, isBlank c = true := by
  rw [withoutBlanks, List.filter_eq_nil_iff]
  simp

theorem isBlank_of_mem_withoutBlanks {typed : List Char} {c : Char} (h : c ∈ withoutBlanks typed) :
    isBlank c = false := by
  have := (List.mem_filter.mp h).2
  simpa using this

theorem isBlank_of_withoutBlanks_eq {text : List Char} (h : withoutBlanks text = text) :
    ∀ c ∈ text, isBlank c = false := by
  intro c hc
  rw [← h] at hc
  exact isBlank_of_mem_withoutBlanks hc

theorem sameLetters_text (typed : List Char) :
    sameLetters (ofText typed).text (withoutBlanks typed) = true :=
  CallNames.sameLetters_lowerCalls (withoutBlanks typed)

/-- No character of the normal form is blank. -/
theorem isBlank_of_mem_text {typed : List Char} {c : Char} (h : c ∈ (ofText typed).text) :
    isBlank c = false := by
  have hall := all_eq_of_sameLetters (p := fun c => !isBlank c)
    (fun c d hcd => congrArg not (isBlank_eq_of_toLower_eq hcd)) (sameLetters_text typed)
  have hright : (withoutBlanks typed).all (fun c => !isBlank c) = true :=
    List.all_eq_true.mpr fun d hd => by rw [isBlank_of_mem_withoutBlanks hd]; rfl
  rw [hright] at hall
  have := List.all_eq_true.mp hall c h
  simpa using this

theorem withoutBlanks_text (typed : List Char) :
    withoutBlanks (ofText typed).text = (ofText typed).text :=
  withoutBlanks_eq_self fun _ hc => isBlank_of_mem_text hc

/-! ## Where a character was typed -/

theorem originsFrom_append (offset : Nat) (a b : List Char) :
    originsFrom offset (a ++ b) = originsFrom offset a ++ originsFrom (offset + byteLength a) b := by
  induction a generalizing offset with
  | nil => rfl
  | cons c a ih =>
    rw [List.cons_append, originsFrom, originsFrom, ih, byteLength_cons, ← Nat.add_assoc]
    by_cases hc : isBlank c = true
    · simp only [hc, if_true]
    · simp only [hc, if_false, Bool.false_eq_true, List.append_assoc]

theorem length_originsFrom (offset : Nat) (typed : List Char) :
    (originsFrom offset typed).length = byteLength (withoutBlanks typed) := by
  induction typed generalizing offset with
  | nil => rfl
  | cons c typed ih =>
    rw [originsFrom]
    by_cases hc : isBlank c = true
    · rw [if_pos hc, ih, withoutBlanks, withoutBlanks, List.filter_cons_of_neg (by rw [hc]; simp)]
    · rw [if_neg hc, List.length_append, List.length_range', ih,
        withoutBlanks_cons_of_not (Bool.eq_false_iff.mpr hc), byteLength_cons]

/-- The bytes of a character that is kept come from the bytes at which it was typed. -/
theorem origin_of_char (before after : List Char) {c : Char} (hc : isBlank c = false) {i : Nat}
    (hi : i < c.utf8Size) :
    (ofText (before ++ c :: after)).origin (byteLength (withoutBlanks before) + i) =
      byteLength before + i := by
  have horigins : (ofText (before ++ c :: after)).origins =
      originsFrom 0 before ++ (List.range' (byteLength before) c.utf8Size ++
        originsFrom (byteLength before + c.utf8Size) after) := by
    show originsFrom 0 (before ++ c :: after) = _
    rw [originsFrom_append, originsFrom, if_neg (Bool.eq_false_iff.mp hc), Nat.zero_add]
  rw [origin, horigins, List.getD_eq_getElem?_getD, ← length_originsFrom 0,
    List.getElem?_append_right (Nat.le_add_right _ _), Nat.add_sub_cancel_left,
    List.getElem?_append_left (by rwa [List.length_range']), List.getElem?_range' hi]
  simp

/-! ## Parts -/

/-- A text with no blanks at its ends, and with something between them. -/
def IsTrimmed (piece : List Char) : Prop :=
  piece ≠ [] ∧ (∀ c ∈ piece.head?, isBlank c = false) ∧ ∀ c ∈ piece.getLast?, isBlank c = false

theorem origin_start_of_isTrimmed (before after : List Char) {piece : List Char}
    (h : IsTrimmed piece) :
    (ofText (before ++ piece ++ after)).origin (byteLength (withoutBlanks before)) =
      byteLength before := by
  obtain ⟨hne, hhead, _⟩ := h
  obtain ⟨c, rest, rfl⟩ := List.exists_cons_of_ne_nil hne
  have := origin_of_char before (rest ++ after) (hhead c rfl) c.utf8Size_pos
  rwa [← List.cons_append, ← List.append_assoc] at this

theorem origin_last_of_isTrimmed (before after : List Char) {piece : List Char}
    (h : IsTrimmed piece) :
    (ofText (before ++ piece ++ after)).origin (byteLength (withoutBlanks (before ++ piece)) - 1) + 1 =
      byteLength (before ++ piece) := by
  obtain ⟨hne, _, hlast⟩ := h
  rcases List.eq_nil_or_concat' piece with rfl | ⟨front, c, rfl⟩
  · exact absurd rfl hne
  · have hc : isBlank c = false := hlast c List.getLast?_concat
    have hsize := c.utf8Size_pos
    have horigin := origin_of_char (before ++ front) after hc (Nat.sub_lt hsize Nat.one_pos)
    have hkept : byteLength (withoutBlanks (before ++ (front ++ [c]))) =
        byteLength (withoutBlanks (before ++ front)) + c.utf8Size := by
      rw [← List.append_assoc, withoutBlanks_append (before ++ front), byteLength_append,
        withoutBlanks_cons_of_not hc]
      rfl
    have htyped : byteLength (before ++ (front ++ [c])) =
        byteLength (before ++ front) + c.utf8Size := by
      rw [← List.append_assoc, byteLength_append]
      rfl
    have htext : before ++ (front ++ [c]) ++ after = before ++ front ++ c :: after := by simp
    rw [hkept, htyped, htext, Nat.add_sub_assoc hsize, horigin]
    omega

theorem IsTrimmed.withoutBlanks_ne_nil {piece : List Char} (h : IsTrimmed piece) :
    withoutBlanks piece ≠ [] := by
  obtain ⟨hne, hhead, _⟩ := h
  obtain ⟨c, rest, rfl⟩ := List.exists_cons_of_ne_nil hne
  rw [withoutBlanks_cons_of_not (hhead c rfl)]
  exact List.cons_ne_nil _ _

/-- The range of a part of the normal form leads back to the part that was typed. -/
theorem toTyped_of_isTrimmed (before after : List Char) {piece : List Char}
    (h : IsTrimmed piece) :
    (ofText (before ++ piece ++ after)).toTyped
        ⟨byteLength (withoutBlanks before), byteLength (withoutBlanks (before ++ piece))⟩ =
      ⟨byteLength before, byteLength (before ++ piece)⟩ := by
  have hlt : byteLength (withoutBlanks before) < byteLength (withoutBlanks (before ++ piece)) := by
    have := byteLength_pos h.withoutBlanks_ne_nil
    rw [withoutBlanks_append, byteLength_append]
    omega
  have hle : byteLength before ≤ byteLength (before ++ piece) := by
    rw [byteLength_append]
    omega
  rw [toTyped, if_pos hlt, origin_start_of_isTrimmed before after h,
    origin_last_of_isTrimmed before after h,
    Nat.max_eq_right hle]

/-- The part of a text from its first to its last character that is not blank. -/
theorem exists_isTrimmed {typed : List Char} (h : withoutBlanks typed ≠ []) :
    ∃ before piece after, typed = before ++ piece ++ after ∧ withoutBlanks before = [] ∧
      withoutBlanks piece = withoutBlanks typed ∧ IsTrimmed piece := by
  obtain ⟨c, rest, hcons⟩ := List.exists_cons_of_ne_nil h
  obtain ⟨before, tail, rfl, hbefore, hc, htail⟩ := List.filter_eq_cons_iff.mp hcons
  have hbefore' : withoutBlanks before = [] := List.filter_eq_nil_iff.mpr hbefore
  have hkept : withoutBlanks (c :: tail) = c :: rest := by
    rwa [withoutBlanks_append, hbefore', List.nil_append] at hcons
  rcases List.eq_nil_or_concat' (c :: rest) with hnil | ⟨front, d, hconcat⟩
  · contradiction
  · rw [hconcat] at hkept
    obtain ⟨a, b, hab, ha, hb⟩ := List.filter_eq_append_iff.mp hkept
    obtain ⟨gap, after, rfl, hgap, hd, hafter⟩ := List.filter_eq_cons_iff.mp hb
    have hd' : isBlank d = false := by simpa using hd
    have htyped : c :: tail = a ++ gap ++ [d] ++ after := by
      rw [hab]
      simp
    refine ⟨before, a ++ gap ++ [d], after, ?_, hbefore', ?_, by simp, ?_, ?_⟩
    · rw [htyped]
      simp
    · have hgap' : withoutBlanks gap = [] := List.filter_eq_nil_iff.mpr hgap
      have ha' : withoutBlanks a = front := ha
      rw [hcons, hconcat, withoutBlanks_append, withoutBlanks_append, hgap', ha',
        withoutBlanks_cons_of_not hd']
      simp [withoutBlanks]
    · have hhead : (a ++ gap ++ [d]).head? = some c := by
        have := congrArg List.head? htyped
        rw [List.head?_append_of_ne_nil _ (by simp)] at this
        exact this.symm
      rintro e he
      rw [hhead] at he
      cases he
      simpa using hc
    · rintro e he
      rw [List.getLast?_concat] at he
      cases he
      exact hd'

/-- A part of a text without blanks comes from a part of the text, and so do its two sides. -/
theorem exists_part_of_withoutBlanks {typed a m b : List Char}
    (h : withoutBlanks typed = a ++ m ++ b) (hm : m ≠ []) :
    ∃ before piece after, typed = before ++ piece ++ after ∧ withoutBlanks before = a ∧
      withoutBlanks piece = m ∧ withoutBlanks after = b ∧ IsTrimmed piece := by
  have hsplit := h
  rw [List.append_assoc] at hsplit
  obtain ⟨ta, rest, htyped, hta, hrest⟩ := List.filter_eq_append_iff.mp hsplit
  obtain ⟨tm, tb, hmiddle, htm, _⟩ := List.filter_eq_append_iff.mp hrest
  subst htm
  obtain ⟨before, piece, after, hpart, hbefore, hpiece, htrimmed⟩ := exists_isTrimmed hm
  have hparts : typed = ta ++ before ++ piece ++ (after ++ tb) := by
    rw [htyped, hmiddle, hpart]
    simp
  have hfront : withoutBlanks (ta ++ before) = a := by
    rw [withoutBlanks_append, hbefore, List.append_nil]
    exact hta
  refine ⟨ta ++ before, piece, after ++ tb, hparts, hfront, hpiece, ?_, htrimmed⟩
  rw [hparts, withoutBlanks_append, withoutBlanks_append (ta ++ before), hfront, hpiece] at h
  exact List.append_cancel_left h

/-- A part of the normal form comes from a part of the typed text, and so do its two sides. -/
theorem exists_parts_of_text {typed a m b : List Char} (h : (ofText typed).text = a ++ m ++ b)
    (hm : m ≠ []) :
    ∃ before piece after, typed = before ++ piece ++ after ∧ IsTrimmed piece ∧
      sameLetters (withoutBlanks before) a = true ∧ sameLetters (withoutBlanks piece) m = true ∧
      sameLetters (withoutBlanks after) b = true := by
  have hsame := sameLetters_symm (sameLetters_text typed)
  rw [h, List.append_assoc] at hsame
  obtain ⟨sa, s, hstrip, hsa, hs⟩ := exists_of_sameLetters_append hsame
  obtain ⟨sm, sb, hsplit, hsm, hsb⟩ := exists_of_sameLetters_append hs
  rw [hsplit, ← List.append_assoc] at hstrip
  have hsmne : sm ≠ [] := by
    intro hnil
    rw [hnil] at hsm
    have hpos := byteLength_pos hm
    rw [← byteLength_eq_of_sameLetters hsm] at hpos
    contradiction
  obtain ⟨before, piece, after, htyped, hbefore, hpiece, hafter, htrimmed⟩ :=
    exists_part_of_withoutBlanks hstrip hsmne
  subst hbefore hpiece hafter
  exact ⟨before, piece, after, htyped, htrimmed, hsa, hsm, hsb⟩

/-- A part of the normal form comes from a part of the typed text, to which its range leads back. -/
theorem exists_part_of_text {typed a m b : List Char} (h : (ofText typed).text = a ++ m ++ b)
    (hm : m ≠ []) :
    ∃ before piece after, typed = before ++ piece ++ after ∧ IsTrimmed piece ∧
      sameLetters (withoutBlanks piece) m = true ∧
      (ofText typed).toTyped ⟨byteLength a, byteLength (a ++ m)⟩ =
        ⟨byteLength before, byteLength (before ++ piece)⟩ := by
  obtain ⟨before, piece, after, rfl, htrimmed, hsa, hsm, _⟩ := exists_parts_of_text h hm
  refine ⟨before, piece, after, rfl, htrimmed, hsm, ?_⟩
  rw [← toTyped_of_isTrimmed before after htrimmed, byteLength_append, withoutBlanks_append,
    byteLength_append, byteLength_eq_of_sameLetters hsa, byteLength_eq_of_sameLetters hsm]

/-- The range of the whole normal form leads back to the whole of a text without outer blanks. -/
theorem toTyped_whole {typed m : List Char} (h : IsTrimmed typed)
    (hm : sameLetters (withoutBlanks typed) m = true) :
    (ofText typed).toTyped ⟨0, byteLength m⟩ = ⟨0, byteLength typed⟩ := by
  have := toTyped_of_isTrimmed [] [] h
  rwa [List.nil_append, List.append_nil, byteLength_eq_of_sameLetters hm] at this

/-! ## The order of the bytes -/

theorem of_mem_originsFrom {offset b : Nat} {typed : List Char}
    (h : b ∈ originsFrom offset typed) : offset ≤ b ∧ b < offset + byteLength typed := by
  induction typed generalizing offset with
  | nil => simp [originsFrom] at h
  | cons c typed ih =>
    have hrest : b ∈ originsFrom (offset + c.utf8Size) typed →
        offset ≤ b ∧ b < offset + byteLength (c :: typed) := by
      intro hb
      have := ih hb
      rw [byteLength_cons]
      omega
    rw [originsFrom] at h
    by_cases hc : isBlank c = true
    · rw [if_pos hc] at h
      exact hrest h
    · rw [if_neg hc, List.mem_append, List.mem_range'_1] at h
      rcases h with h | h
      · rw [byteLength_cons]
        omega
      · exact hrest h

theorem pairwise_originsFrom (offset : Nat) (typed : List Char) :
    (originsFrom offset typed).Pairwise (· < ·) := by
  induction typed generalizing offset with
  | nil => exact List.Pairwise.nil
  | cons c typed ih =>
    rw [originsFrom]
    by_cases hc : isBlank c = true
    · rw [if_pos hc]
      exact ih _
    · rw [if_neg hc]
      refine List.pairwise_append.mpr ⟨List.pairwise_lt_range', ih _, fun a ha b hb => ?_⟩
      have := List.mem_range'_1.mp ha
      have := of_mem_originsFrom hb
      omega

theorem length_origins (typed : List Char) :
    (ofText typed).origins.length = byteLength (ofText typed).text := by
  rw [byteLength_eq_of_sameLetters (sameLetters_text typed)]
  exact length_originsFrom 0 typed

/-- The byte after the normal form comes from the byte after the typed text. -/
theorem origin_end (typed : List Char) :
    (ofText typed).origin (byteLength (ofText typed).text) = byteLength typed := by
  rw [origin, ← length_origins, List.getD_eq_getElem?_getD, List.getElem?_eq_none (Nat.le_refl _),
    Nat.sub_self]
  rfl

/-- No byte moves past another. -/
theorem strictMono_origin (typed : List Char) : StrictMono (ofText typed).origin := by
  intro i j hij
  rw [origin, origin, List.getD_eq_getElem?_getD, List.getD_eq_getElem?_getD]
  by_cases hi : i < (ofText typed).origins.length
  · rw [List.getElem?_eq_getElem hi, Option.getD_some]
    by_cases hj : j < (ofText typed).origins.length
    · rw [List.getElem?_eq_getElem hj, Option.getD_some]
      exact List.pairwise_iff_getElem.mp (pairwise_originsFrom 0 typed) i j hi hj hij
    · have hlast : (ofText typed).origins[i] < 0 + byteLength typed :=
        (of_mem_originsFrom (List.getElem_mem hi)).2
      rw [List.getElem?_eq_none (Nat.not_lt.mp hj), Option.getD_none]
      show (ofText typed).origins[i] < byteLength typed + _
      omega
  · rw [List.getElem?_eq_none (by omega), List.getElem?_eq_none (by omega), Option.getD_none,
      Option.getD_none]
    omega

end Normalized
end Abacus
