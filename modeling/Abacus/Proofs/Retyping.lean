import Abacus.Proofs.Calculation
import Abacus.Proofs.Grammar.Spelling
import Abacus.Proofs.Normalized
/-!
One expression typed with other blanks and other capitals.

In a text that has a value every name is that of a call, and the normal form writes it in small
letters. So whatever differs from the text in blanks and capitals only has its normal form. Texts
that differ in blanks only share their normal form even if it has no value.
-/

namespace Abacus
namespace Evaluation

open Grammar Normalized

/-- A part of the normal form that is the text of a derivation is the normal form of its spelling. -/
theorem ofText_text_of_derivation {piece m : List Char} {d : Derivation .sum}
    (hlex : Token.lex m = .ok d.lexemes) (hblank : ∀ c ∈ m, isBlank c = false)
    (hsame : sameLetters (Normalized.withoutBlanks piece) m = true) :
    (Normalized.ofText piece).text = m ∧ isBalanced m = true := by
  have hgap : ∀ c ∈ m, Token.isGap c = false :=
    fun c hc => Token.isGap_eq_false (hblank c hc)
  obtain ⟨rfl, hwritten⟩ := eq_joinedText_of_lexFrom hlex hgap
  refine ⟨?_, d.isBalanced_joinedText hwritten⟩
  have := d.isSpelling hwritten hsame []
  rw [List.append_nil, CallNames.lowerNames, List.append_nil] at this
  rw [← this]
  exact CallNames.lowerCalls_eq_lowerNames _

theorem ofNormal_text_of_ofText_ok {typed : List Char} {e : Evaluation} (h : ofText typed = .ok e) :
    ofNormal (Normalized.ofText typed).text = .ok e := by
  cases hnormal : ofNormal (Normalized.ofText typed).text with
  | error failure =>
    rw [ofText, hnormal] at h
    contradiction
  | ok value =>
    rw [ofText, hnormal] at h
    exact h

theorem ofText_eq_ok_of_sameLetters {t u : List Char} {e : Evaluation}
    (h : sameLetters (withoutBlanks u) (withoutBlanks t) = true) (ht : ofText t = .ok e) :
    ofText u = .ok e := by
  have hnormal := ofNormal_text_of_ofText_ok ht
  obtain ⟨_, d, hlex⟩ := exists_derivation_of_ofNormal_ok hnormal
  have hsame : sameLetters (withoutBlanks u) (Normalized.ofText t).text = true :=
    sameLetters_trans h (sameLetters_symm (sameLetters_text t))
  obtain ⟨htext, _⟩ :=
    ofText_text_of_derivation hlex (fun c hc => isBlank_of_mem_text hc) hsame
  show (ofNormal (Normalized.ofText u).text).mapError _ = .ok e
  rw [htext, hnormal]
  rfl

theorem bare_ofText (typed : List Char) :
    (ofText typed).mapError Failure.bare =
      (ofNormal (Normalized.ofText typed).text).mapError Failure.bare := by
  show ((ofNormal (Normalized.ofText typed).text).mapError _).mapError Failure.bare = _
  cases ofNormal (Normalized.ofText typed).text with
  | ok e => rfl
  | error failure => exact congrArg Except.error (failure.bare_mapSpan _)

theorem text_eq_of_withoutBlanks_eq {t u : List Char} (h : withoutBlanks t = withoutBlanks u) :
    (Normalized.ofText t).text = (Normalized.ofText u).text :=
  congrArg CallNames.lowerCalls h

/--
Two texts that are equal when blanks are taken out and capitals written small have the same value,
or none of them has one. If they differ in blanks only, they also fail for the same reason.
-/
theorem ofText_retyped {t u : List Char}
    (h : sameLetters (withoutBlanks t) (withoutBlanks u) = true) :
    (∀ e, ofText t = .ok e ↔ ofText u = .ok e) ∧
      (withoutBlanks t = withoutBlanks u →
        (ofText t).mapError Failure.bare = (ofText u).mapError Failure.bare) := by
  refine ⟨fun e => ⟨?_, ?_⟩, fun hblanks => ?_⟩
  · exact ofText_eq_ok_of_sameLetters (sameLetters_symm h)
  · exact ofText_eq_ok_of_sameLetters h
  · rw [bare_ofText, bare_ofText, text_eq_of_withoutBlanks_eq hblanks]

/-- A call typed in two ways, and a quotient that fails with and without blanks. -/
theorem ofText_retyped_call_and_quotient :
    (sameLetters (withoutBlanks "Abs( 2-\t5 )".toList) (withoutBlanks "ABS(2 - 5)".toList) = true ∧
        ∃ e, ofText "Abs( 2-\t5 )".toList = .ok e ∧ ofText "ABS(2 - 5)".toList = .ok e ∧
          e.normalized = "abs(2-5)".toList ∧ e.formatted = ['3']) ∧
      withoutBlanks " 1 / 0".toList = withoutBlanks "1/0".toList ∧
        ofText " 1 / 0".toList = .error (.divisionByZero ⟨['1'], ['0'], ⟨1, 6⟩⟩) ∧
        (ofText "1/0".toList).mapError Failure.bare =
          .error (.divisionByZero ⟨['1'], ['0'], ⟨0, 0⟩⟩) := by
  have hcall : sameLetters (withoutBlanks "Abs( 2-\t5 )".toList)
      (withoutBlanks "ABS(2 - 5)".toList) = true := by decide
  have hvalue : (ofText "Abs( 2-\t5 )".toList).map (fun e => (e.normalized, e.formatted)) =
      .ok ("abs(2-5)".toList, ['3']) := by decide +kernel
  have hquotient : withoutBlanks " 1 / 0".toList = withoutBlanks "1/0".toList := by decide
  have herror : ofText " 1 / 0".toList = .error (.divisionByZero ⟨['1'], ['0'], ⟨1, 6⟩⟩) := by
    decide +kernel
  refine ⟨⟨hcall, ?_⟩, hquotient, herror, ?_⟩
  · cases he : ofText "Abs( 2-\t5 )".toList with
    | error failure =>
      rw [he] at hvalue
      contradiction
    | ok e =>
      rw [he] at hvalue
      have hfields := Prod.mk.inj (Except.ok.inj hvalue)
      exact ⟨e, rfl, ((ofText_retyped hcall).1 e).mp he, hfields.1, hfields.2⟩
  · have hsame : sameLetters (withoutBlanks " 1 / 0".toList) (withoutBlanks "1/0".toList) = true := by
      decide
    rw [← (ofText_retyped hsame).2 hquotient, herror]
    rfl

end Evaluation
end Abacus
