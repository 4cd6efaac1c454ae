import Abacus.Text.Blank
import Mathlib
/-!
Texts without the blanks at their ends.
-/

namespace Abacus

theorem trimEnd_eq_rdropWhile (text : List Char) : trimEnd text = text.rdropWhile isBlank := rfl

theorem trim_eq_nil_iff {text : List Char} : trim text = [] ↔ ∀ c ∈ text, isBlank c = true := by
  rw [trim, trimEnd_eq_rdropWhile, List.rdropWhile_eq_nil_iff]
  constructor
  · intro h
    -- A blank text has no first character that is not blank, so nothing was left to trim.
    have hdrop : text.dropWhile isBlank = [] := by
      have hhead := List.head?_dropWhile_not isBlank text
      cases hd : text.dropWhile isBlank with
      | nil => rfl
      | cons c rest =>
        rw [hd] at h hhead
        have hc : isBlank c = false := hhead
        rw [h c List.mem_cons_self] at hc
        contradiction
    exact List.dropWhile_eq_nil_iff.mp hdrop
  · intro h
    rw [List.dropWhile_eq_nil_iff.mpr h]
    simp

theorem all_isBlank_eq (text : List Char) : text.all isBlank = (trim text).isEmpty := by
  rw [Bool.eq_iff_iff, List.all_eq_true, List.isEmpty_iff, trim_eq_nil_iff]

theorem dropWhile_trim (text : List Char) : (trim text).dropWhile isBlank = trim text := by
  rw [List.dropWhile_eq_self_iff]
  intro hpos
  have hsub : trim text <+: text.dropWhile isBlank := List.rdropWhile_prefix isBlank _
  have hlt : 0 < (text.dropWhile isBlank).length := Nat.lt_of_lt_of_le hpos hsub.length_le
  rw [hsub.getElem hpos]
  exact List.dropWhile_eq_self_iff.mp (List.dropWhile_idempotent isBlank text) _

@[simp] theorem trim_trim (text : List Char) : trim (trim text) = trim text := by
  show trimEnd ((trim text).dropWhile isBlank) = trim text
  rw [dropWhile_trim]
  exact List.rdropWhile_idempotent isBlank _

end Abacus
