import Abacus.Text.Blank
import Abacus.Text.Utf8
import Abacus.Text.Word
import Mathlib
/-!
Characters of a text, and texts that differ in capital letters only.

What the other parts ask about a character (is it a bracket, does it belong to a word, how many
bytes does it take) has the same answer for a letter and its capital.
-/

namespace Abacus

/-- A property of the characters of a short text is checked one by one. -/
theorem forall_mem_of_all {p : Char → Prop} [DecidablePred p] {text : List Char}
    (h : (text.all fun c => p c) = true) : ∀ c ∈ text, p c :=
  fun c hc => of_decide_eq_true (List.all_eq_true.mp h c hc)

theorem takeWhile_append_of_head? {p : Char → Bool} {a b : List Char}
    (hb : ∀ c ∈ b.head?, p c = false) :
    (a ++ b).takeWhile p = a.takeWhile p ∧ (a ++ b).dropWhile p = a.dropWhile p ++ b := by
  induction a with
  | nil =>
    cases b with
    | nil => exact ⟨rfl, rfl⟩
    | cons c b =>
      have hc : ¬ p c = true := Bool.eq_false_iff.mp (hb c rfl)
      rw [List.nil_append, List.takeWhile_cons_of_neg hc, List.dropWhile_cons_of_neg hc]
      exact ⟨rfl, rfl⟩
  | cons c a ih =>
    by_cases hc : p c = true
    · rw [List.cons_append, List.takeWhile_cons_of_pos hc, List.takeWhile_cons_of_pos hc,
        List.dropWhile_cons_of_pos hc, List.dropWhile_cons_of_pos hc, ih.1, ih.2]
      exact ⟨rfl, rfl⟩
    · rw [List.cons_append, List.takeWhile_cons_of_neg hc, List.takeWhile_cons_of_neg hc,
        List.dropWhile_cons_of_neg hc, List.dropWhile_cons_of_neg hc]
      exact ⟨rfl, rfl⟩

/-- A run of characters ends where the first other character stands. -/
theorem takeWhile_run {p : Char → Bool} {a b : List Char} (ha : ∀ c ∈ a, p c = true)
    (hb : ∀ c ∈ b.head?, p c = false) :
    (a ++ b).takeWhile p = a ∧ (a ++ b).dropWhile p = b := by
  obtain ⟨htake, hdrop⟩ := takeWhile_append_of_head? (a := a) hb
  rw [htake, hdrop, List.takeWhile_eq_self_iff.mpr ha, List.dropWhile_eq_nil_iff.mpr ha]
  exact ⟨rfl, rfl⟩

/-- Dropping stops at a character that is not dropped. -/
theorem eq_false_of_mem_head?_dropWhile {p : Char → Bool} {text : List Char} :
    ∀ c ∈ (text.dropWhile p).head?, p c = false := by
  intro c hc
  have := List.head?_dropWhile_not p text
  rw [Option.mem_def.mp hc] at this
  simpa using this

/-! ## Capitals -/

def capitals : List Char :=
  "ABCDEFGHIJKLMNOPQRSTUVWXYZ".toList

theorem toLower_eq_self_or_mem_capitals (c : Char) : c.toLower = c ∨ c ∈ capitals := by
  by_cases h : 'A'.val ≤ c.val ∧ c.val ≤ 'Z'.val
  · refine .inr ?_
    have hrange : ∀ n < 26, Char.ofNat (65 + n) ∈ capitals := by decide
    have hlow : 65 ≤ c.toNat := h.1
    have hhigh : c.toNat ≤ 90 := h.2
    have := hrange (c.toNat - 65) (by omega)
    rwa [show 65 + (c.toNat - 65) = c.toNat by omega, Char.ofNat_toNat] at this
  · refine .inl ?_
    rw [Char.toLower, dif_neg h]

/-- A property that no capital changes is the same for a character and its small letter. -/
theorem apply_toLower {α : Type} {f : Char → α} (h : ∀ c ∈ capitals, f c.toLower = f c) (c : Char) :
    f c.toLower = f c := by
  rcases toLower_eq_self_or_mem_capitals c with hc | hc
  · rw [hc]
  · exact h c hc

theorem apply_eq_of_toLower_eq {α : Type} {f : Char → α} (h : ∀ c ∈ capitals, f c.toLower = f c)
    {c d : Char} (hcd : c.toLower = d.toLower) : f c = f d := by
  rw [← apply_toLower h c, hcd, apply_toLower h d]

theorem utf8Size_toLower (c : Char) : c.toLower.utf8Size = c.utf8Size :=
  apply_toLower (f := Char.utf8Size) (forall_mem_of_all (by decide)) c

theorem isWordStart_eq_of_toLower_eq {c d : Char} (h : c.toLower = d.toLower) :
    isWordStart c = isWordStart d :=
  apply_eq_of_toLower_eq (f := isWordStart) (forall_mem_of_all (by decide)) h

theorem isWordPart_eq_of_toLower_eq {c d : Char} (h : c.toLower = d.toLower) :
    isWordPart c = isWordPart d :=
  apply_eq_of_toLower_eq (f := isWordPart) (forall_mem_of_all (by decide)) h

theorem isBlank_eq_of_toLower_eq {c d : Char} (h : c.toLower = d.toLower) :
    isBlank c = isBlank d :=
  apply_eq_of_toLower_eq (f := isBlank) (forall_mem_of_all (by decide)) h

/-- A character that is no letter has no other spelling. -/
theorem eq_of_toLower_eq {c d : Char} (h : c.toLower = d.toLower) (hd : d.isAlpha = false) :
    c = d := by
  have hlower : d.toLower = d := by
    rcases toLower_eq_self_or_mem_capitals d with hd' | hd'
    · exact hd'
    · have hall : ∀ c ∈ capitals, c.isAlpha = true := forall_mem_of_all (by decide)
      rw [hall d hd'] at hd
      contradiction
  rw [hlower] at h
  rcases toLower_eq_self_or_mem_capitals c with hc | hc
  · exact hc.symm.trans h
  · have hall : ∀ c ∈ capitals, c.toLower.isAlpha = true := forall_mem_of_all (by decide)
    rw [← h, hall c hc] at hd
    contradiction

/-! ## Whole texts -/

theorem sameLetters_iff {a b : List Char} :
    sameLetters a b = true ↔ a.map Char.toLower = b.map Char.toLower := by
  rw [sameLetters, beq_iff_eq]

theorem sameLetters_refl (a : List Char) : sameLetters a a = true :=
  sameLetters_iff.mpr rfl

theorem sameLetters_symm {a b : List Char} (h : sameLetters a b = true) : sameLetters b a = true :=
  sameLetters_iff.mpr (sameLetters_iff.mp h).symm

theorem sameLetters_trans {a b c : List Char} (hab : sameLetters a b = true)
    (hbc : sameLetters b c = true) : sameLetters a c = true :=
  sameLetters_iff.mpr ((sameLetters_iff.mp hab).trans (sameLetters_iff.mp hbc))

theorem sameLetters_append {a b c d : List Char} (hac : sameLetters a c = true)
    (hbd : sameLetters b d = true) : sameLetters (a ++ b) (c ++ d) = true := by
  rw [sameLetters_iff] at hac hbd ⊢
  rw [List.map_append, List.map_append, hac, hbd]

theorem sameLetters_cons (c : Char) {a b : List Char} (h : sameLetters a b = true) :
    sameLetters (c :: a) (c :: b) = true :=
  sameLetters_append (sameLetters_refl [c]) h

theorem exists_of_sameLetters_append {a b s : List Char} (h : sameLetters s (a ++ b) = true) :
    ∃ s₁ s₂, s = s₁ ++ s₂ ∧ sameLetters s₁ a = true ∧ sameLetters s₂ b = true := by
  rw [sameLetters_iff, List.map_append, List.map_eq_append_iff] at h
  obtain ⟨s₁, s₂, rfl, h₁, h₂⟩ := h
  exact ⟨s₁, s₂, rfl, sameLetters_iff.mpr h₁, sameLetters_iff.mpr h₂⟩

theorem exists_of_sameLetters_cons {c : Char} {a s : List Char}
    (h : sameLetters s (c :: a) = true) :
    ∃ d s', s = d :: s' ∧ d.toLower = c.toLower ∧ sameLetters s' a = true := by
  rw [sameLetters_iff, List.map_cons, List.map_eq_cons_iff] at h
  obtain ⟨d, s', rfl, hd, hs⟩ := h
  exact ⟨d, s', rfl, hd, sameLetters_iff.mpr hs⟩

/-- Whether all characters have a property that no capital changes. -/
theorem all_eq_of_sameLetters {p : Char → Bool} (hp : ∀ c d : Char, c.toLower = d.toLower → p c = p d)
    {a b : List Char} (h : sameLetters a b = true) : a.all p = b.all p := by
  induction b generalizing a with
  | nil =>
    rw [sameLetters_iff] at h
    rw [List.map_eq_nil_iff.mp h]
  | cons c b ih =>
    obtain ⟨d, s, rfl, hd, hs⟩ := exists_of_sameLetters_cons h
    rw [List.all_cons, List.all_cons, hp d c hd, ih hs]

theorem byteLength_pos {text : List Char} (h : text ≠ []) : 0 < byteLength text := by
  obtain ⟨c, rest, rfl⟩ := List.exists_cons_of_ne_nil h
  rw [byteLength_cons]
  exact Nat.add_pos_left c.utf8Size_pos _

theorem byteLength_map_toLower (a : List Char) : byteLength (a.map Char.toLower) = byteLength a := by
  induction a with
  | nil => rfl
  | cons c a ih => rw [List.map_cons, byteLength_cons, byteLength_cons, ih, utf8Size_toLower]

theorem byteLength_eq_of_sameLetters {a b : List Char} (h : sameLetters a b = true) :
    byteLength a = byteLength b := by
  rw [← byteLength_map_toLower a, sameLetters_iff.mp h, byteLength_map_toLower]

/-- A text without letters has no other spelling. -/
theorem eq_of_sameLetters {a b : List Char} (h : sameLetters a b = true)
    (hb : ∀ c ∈ b, c.isAlpha = false) : a = b := by
  induction b generalizing a with
  | nil =>
    rw [sameLetters_iff] at h
    exact List.map_eq_nil_iff.mp h
  | cons c b ih =>
    obtain ⟨d, s, rfl, hd, hs⟩ := exists_of_sameLetters_cons h
    rw [eq_of_toLower_eq hd (hb c List.mem_cons_self),
      ih hs fun e he => hb e (List.mem_cons_of_mem c he)]

end Abacus
