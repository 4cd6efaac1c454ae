import Abacus.Proofs.Retyping
import Abacus.Proofs.TypedRanges
import Abacus.Proofs.Positions
/-!
The normal form of a text that is in normal form.

Brackets and words are found again in another spelling, so a name that has been written in small
letters is written so again and the others are kept again. A text in normal form is therefore its own
normal form, its ranges lead back to themselves, and it is calculated as it stands.
-/

namespace Abacus

namespace CallNames

theorem opensCall_of_sameLetters {a b : List Char} (h : sameLetters a b = true)
    (hb : opensCall b = true) : opensCall a = true := by
  obtain ⟨body, rest, hopens, hbody⟩ := opensCall_eq_true_iff.mp hb
  rw [hopens] at h
  obtain ⟨c, s, ha, hc, hs⟩ := exists_of_sameLetters_cons h
  obtain ⟨body', s', hs', hbody', hclosing⟩ := exists_of_sameLetters_append hs
  obtain ⟨d, rest', hrest, hd, _⟩ := exists_of_sameLetters_cons hclosing
  rw [eq_of_toLower_eq hc (by decide), hs', hrest, eq_of_toLower_eq hd (by decide)] at ha
  refine opensCall_eq_true_iff.mpr ⟨body', rest', ha, ?_⟩
  rw [isBalanced, Grammar.closesFrom_eq_of_sameLetters hbody']
  exact hbody

theorem opensCall_eq_of_sameLetters {a b : List Char} (h : sameLetters a b = true) :
    opensCall a = opensCall b := by
  rw [Bool.eq_iff_iff]
  exact ⟨opensCall_of_sameLetters (sameLetters_symm h), opensCall_of_sameLetters h⟩

/-- A word that has been spelled is spelled the same before any spelling of what follows it. -/
theorem spelling_spelling (word : List Char) {after after' : List Char}
    (h : sameLetters after' after = true) :
    spelling (spelling word after) after' = spelling word after := by
  have hopens := opensCall_eq_of_sameLetters h
  by_cases ho : opensCall after = true
  · cases hf : Function.ofNameAnyCase? word with
    | none =>
      have hword : spelling word after = word := by
        rw [spelling, if_pos ho, hf, Option.elim_none]
      rw [hword, spelling, hopens, if_pos ho, hf, Option.elim_none]
    | some f =>
      have hword : spelling word after = f.name := by
        rw [spelling, if_pos ho, hf, Option.elim_some]
      have hname : Function.ofNameAnyCase? f.name = some f :=
        ofNameAnyCase?_eq_some_iff.mpr (sameLetters_refl f.name)
      rw [hword, spelling, hopens, if_pos ho, hname, Option.elim_some]
  · have hword : spelling word after = word := by
      rw [spelling, if_neg ho]
    rw [hword, spelling, hopens, if_neg ho]

theorem sameLetters_lowerNames (text : List Char) : sameLetters (lowerNames text) text = true := by
  rw [← lowerCalls_eq_lowerNames]
  exact sameLetters_lowerCalls text

/-- Another spelling starts with a word's letter where the text does. -/
theorem isWordPart_head?_of_sameLetters {a b : List Char} (h : sameLetters a b = true)
    (hb : ∀ c ∈ b.head?, isWordPart c = false) : ∀ c ∈ a.head?, isWordPart c = false := by
  cases b with
  | nil =>
    rw [eq_of_sameLetters h (by simp)]
    exact hb
  | cons d b =>
    obtain ⟨c, s, ha, hc, _⟩ := exists_of_sameLetters_cons h
    subst ha
    intro e he
    rw [List.head?_cons, Option.mem_some_iff] at he
    rw [← he, isWordPart_eq_of_toLower_eq hc]
    exact hb d rfl

/-- A second pass finds the same words before the same brackets, and changes none of them. -/
theorem lowerNames_lowerNames (text : List Char) :
    lowerNames (lowerNames text) = lowerNames text := by
  fun_induction lowerNames text with
  | case1 => rw [lowerNames]
  | case2 c tail hc ih =>
    have hsame := sameLetters_spelling (c :: tail.takeWhile isWordPart) (tail.dropWhile isWordPart)
    obtain ⟨d, word, hword, hd, hparts⟩ := exists_of_sameLetters_cons hsame
    have hstart : isWordStart d = true := by
      rw [isWordStart_eq_of_toLower_eq hd]
      exact hc
    have hpart : ∀ e ∈ word, isWordPart e = true := by
      have hall := all_eq_of_sameLetters (fun _ _ => isWordPart_eq_of_toLower_eq) hparts
      rw [List.all_takeWhile] at hall
      exact List.all_eq_true.mp hall
    have hafter : ∀ e ∈ (lowerNames (tail.dropWhile isWordPart)).head?, isWordPart e = false :=
      isWordPart_head?_of_sameLetters (sameLetters_lowerNames _) eq_false_of_mem_head?_dropWhile
    rw [hword, lowerNames_word hstart hpart hafter, ih, ← hword,
      spelling_spelling _ (sameLetters_lowerNames _)]
  | case3 c tail hc ih =>
    rw [lowerNames_cons_of_not (Bool.eq_false_iff.mpr hc), ih]

end CallNames

namespace Normalized

/-- There is no blank in the text, and the names of its calls are in small letters. -/
def IsNormal (text : List Char) : Prop :=
  (∀ c ∈ text, isBlank c = false) ∧ CallNames.lowerCalls text = text

theorem isNormal_text (typed : List Char) : IsNormal (ofText typed).text := by
  refine ⟨fun c hc => isBlank_of_mem_text hc, ?_⟩
  show CallNames.lowerCalls (CallNames.lowerCalls (withoutBlanks typed)) =
    CallNames.lowerCalls (withoutBlanks typed)
  rw [CallNames.lowerCalls_eq_lowerNames, CallNames.lowerCalls_eq_lowerNames,
    CallNames.lowerNames_lowerNames]

/-- Without blanks each byte of the text comes from itself. -/
theorem originsFrom_eq_range' {text : List Char} (h : ∀ c ∈ text, isBlank c = false)
    (offset : Nat) : originsFrom offset text = List.range' offset (byteLength text) := by
  induction text generalizing offset with
  | nil => rfl
  | cons c text ih =>
    have hc : ¬ isBlank c = true := Bool.eq_false_iff.mp (h c List.mem_cons_self)
    rw [originsFrom, if_neg hc, ih (fun d hd => h d (List.mem_cons_of_mem c hd)), byteLength_cons,
      List.range'_append_1]

variable {text : List Char}

theorem text_of_isNormal (h : IsNormal text) : (ofText text).text = text := by
  show CallNames.lowerCalls (withoutBlanks text) = text
  rw [withoutBlanks_eq_self h.1, h.2]

theorem origin_of_isNormal (h : IsNormal text) (index : Nat) : (ofText text).origin index = index := by
  have horigins : (ofText text).origins = List.range' 0 (byteLength text) :=
    originsFrom_eq_range' h.1 0
  rw [origin, horigins, List.getD_eq_getElem?_getD, List.length_range']
  by_cases hlt : index < byteLength text
  · rw [List.getElem?_range' hlt, Option.getD_some, Nat.zero_add, Nat.one_mul]
  · rw [List.getElem?_eq_none (by rw [List.length_range']; omega), Option.getD_none]
    show byteLength text + (index - byteLength text) = index
    omega

/-- The ranges of a normal text lead back to themselves, also those past its end. -/
theorem toTyped_of_isNormal (h : IsNormal text) {span : Span} (hspan : span.start < span.stop) :
    (ofText text).toTyped span = span := by
  have hstop : span.stop - 1 + 1 = span.stop := by omega
  rw [toTyped_of_lt text hspan, origin_of_isNormal h, origin_of_isNormal h, hstop]

end Normalized

namespace Evaluation

open Normalized

/-- A text in normal form is calculated as it stands. -/
theorem ofText_of_isNormal {text : List Char} (h : IsNormal text) : ofText text = ofNormal text := by
  show (ofNormal (Normalized.ofText text).text).mapError _ = ofNormal text
  rw [text_of_isNormal h]
  cases hnormal : ofNormal text with
  | ok e => rfl
  | error failure =>
    show Except.error (failure.mapSpan (Normalized.ofText text).toTyped) = .error failure
    rw [Failure.mapSpan_eq_self]
    intro span hspan
    apply toTyped_of_isNormal h
    rcases span_of_ofNormal_error hnormal hspan with hend | hpart
    · rw [hend]
      exact Nat.lt_succ_self _
    · exact hpart.start_lt_stop

theorem normalized_of_ofNormal_ok {text : List Char} {e : Evaluation} (h : ofNormal text = .ok e) :
    e.normalized = text := by
  obtain ⟨hbalanced, d, hlex⟩ := exists_derivation_of_ofNormal_ok h
  rw [ofNormal_of_derivation hbalanced hlex] at h
  cases hresult : d.expr.result with
  | error failure =>
    rw [hresult] at h
    contradiction
  | ok value =>
    rw [hresult] at h
    rw [← Except.ok.inj h]

/--
The normal form of a normal form is that text itself, with every range in its place. It has the value
of what was typed, or fails for the same reason.
-/
theorem ofText_normalForm (typed : List Char) :
    let n := Normalized.ofText typed
    let again := Normalized.ofText n.text
    again.text = n.text ∧ (∀ i j, i < j → again.toTyped ⟨i, j⟩ = ⟨i, j⟩) ∧
      (∀ e, ofText typed = .ok e → ofText e.normalized = .ok e) ∧
      ∀ failure, ofText typed = .error failure →
        ∃ failure', ofText n.text = .error failure' ∧ failure'.bare = failure.bare := by
  intro n again
  have hnormal : IsNormal n.text := isNormal_text typed
  refine ⟨text_of_isNormal hnormal, fun i j hlt => toTyped_of_isNormal hnormal hlt, ?_, ?_⟩
  · intro e he
    have hvalue := ofNormal_text_of_ofText_ok he
    rw [normalized_of_ofNormal_ok hvalue, ofText_of_isNormal hnormal]
    exact hvalue
  · intro failure hfailure
    obtain ⟨failure', hfails, hmoved⟩ := exists_of_ofText_error hfailure
    refine ⟨failure', ?_, ?_⟩
    · rw [ofText_of_isNormal hnormal]
      exact hfails
    · rw [hmoved, Failure.bare_mapSpan]

/-- The inner of two calls is closed and written small; the outer is open, also the second time. -/
theorem ofText_normalForm_of_open_call :
    let n := Normalized.ofText "ABS( Power(2, 3 )".toList
    let again := Normalized.ofText n.text
    n.text = "ABS(power(2,3)".toList ∧ again.text = n.text ∧ again.toTyped ⟨4, 20⟩ = ⟨4, 20⟩ ∧
      ofText "ABS( Power(2, 3 )".toList = .error .unbalancedBrackets ∧
      ∃ failure, ofText n.text = .error failure ∧ failure.bare = Failure.unbalancedBrackets.bare := by
  intro n again
  have htext : n.text = "ABS(power(2,3)".toList := by decide +kernel
  have hfails : ofText "ABS( Power(2, 3 )".toList = .error .unbalancedBrackets := by decide +kernel
  obtain ⟨hagain, hranges, _, herror⟩ := ofText_normalForm "ABS( Power(2, 3 )".toList
  exact ⟨htext, hagain, hranges 4 20 (by decide), hfails, herror _ hfails⟩

end Evaluation
end Abacus
