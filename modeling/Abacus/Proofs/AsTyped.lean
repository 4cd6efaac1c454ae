import Abacus.Proofs.Positions
import Abacus.Proofs.Spacing
/-!
Calculating a text as it was typed.

A text can be cut into tokens and calculated without its normal form. If it is balanced and its blanks
can be taken out, the normal form has the same tokens, each moved. Tree, value and failure move along,
so the way over the normal form and back reports what the typed text itself reports.
-/

namespace Abacus
namespace Evaluation

/-- Moved tokens have the same value, or fail in the same way at the moved place. -/
theorem valueOf_relocate {r : Relocation} (hr : StrictMono r.start) {length length' : Nat}
    (hend : r.span (.endOf length) = .endOf length') (lexemes : List Lexeme) :
    valueOf (lexemes.map (Lexeme.mapSpan r.span)) length' =
      (valueOf lexemes length).mapError (Failure.mapSpan r.span) := by
  rw [valueOf, valueOf, Parser.tree_relocate hr hend]
  cases Parser.tree lexemes length with
  | error p => rfl
  | ok e => exact e.result_mapSpan r.span

/-- The value of a text and how it is written, without a normal form. -/
def asTyped (typed : List Char) : Except Failure (Float × List Char) :=
  (parseText typed >>= fun e => e.evaluate.mapError Failure.ofEvalError).map fun value =>
    (value, resultText value)

theorem start_lt_stop_of_valueOf_error {text : List Char} {lexemes : List Lexeme}
    {failure : Failure} {span : Span} (hlex : Token.lex text = .ok lexemes)
    (h : valueOf lexemes (byteLength text) = .error failure) (hspan : failure.span? = some span) :
    span.start < span.stop := by
  rcases span_of_valueOf_error hlex h hspan with rfl | hpart
  · exact Nat.lt_succ_self _
  · exact hpart.start_lt_stop

/--
A balanced text whose tokens stay apart without blanks has the value that it has as it was typed, and
if it has none, it fails for the same reason at the same place.
-/
theorem ofText_eq_asTyped {typed : List Char} {lexemes : List Lexeme}
    (hbalanced : isBalanced typed = true) (hlex : Token.lex typed = .ok lexemes)
    (hspaced : Token.FreelySpaced lexemes) :
    (ofText typed).map (fun e => (e.value, e.formatted)) = asTyped typed := by
  obtain ⟨packed, hpacked, hmoved⟩ := Normalized.exists_lex_text hlex hspaced
  have hbalanced' : isBalanced (Normalized.ofText typed).text = true := by
    rw [Normalized.isBalanced_text, hbalanced]
  -- Tree, value and failure are those of the normal form, moved to where they were typed.
  have hvalue : valueOf lexemes (byteLength typed) =
      (valueOf packed (byteLength (Normalized.ofText typed).text)).mapError
        (Failure.mapSpan (Normalized.ofText typed).relocation.span) := by
    rw [← hmoved]
    exact valueOf_relocate (Normalized.strictMono_origin typed) (Normalized.relocation_end typed)
      packed
  rw [asTyped, parseText_bind_evaluate hlex, hvalue]
  show ((ofNormal (Normalized.ofText typed).text).mapError _).map _ = _
  rw [ofNormal_of_lex hbalanced' hpacked]
  cases hresult : valueOf packed (byteLength (Normalized.ofText typed).text) with
  | ok value => rfl
  | error failure =>
    refine congrArg Except.error (Failure.mapSpan_congr fun span hspan => ?_)
    exact Normalized.toTyped_eq_relocation typed
      (start_lt_stop_of_valueOf_error hpacked hresult hspan)

/-- A remainder by zero, with blanks between the tokens. -/
theorem ofText_eq_asTyped_of_zeroModulus :
    let typed := " 6 %\t(2 - 2)".toList
    let lexemes : List Lexeme :=
      [⟨.number ['6'], ⟨1, 2⟩⟩, ⟨.operator .mod, ⟨3, 4⟩⟩, ⟨.openBracket, ⟨5, 6⟩⟩,
        ⟨.number ['2'], ⟨6, 7⟩⟩, ⟨.operator .sub, ⟨8, 9⟩⟩, ⟨.number ['2'], ⟨10, 11⟩⟩,
        ⟨.closeBracket, ⟨11, 12⟩⟩]
    isBalanced typed = true ∧ Token.lex typed = .ok lexemes ∧ Token.FreelySpaced lexemes ∧
      (ofText typed).map (fun e => (e.value, e.formatted)) = asTyped typed ∧
      asTyped typed = .error (.moduloByZero ⟨['6'], "2 - 2".toList, ⟨1, 12⟩⟩) := by
  intro typed lexemes
  have hbalanced : isBalanced typed = true := by decide
  have hlex : Token.lex typed = .ok lexemes := by decide +kernel
  have hspaced : Token.FreelySpaced lexemes := by decide
  exact ⟨hbalanced, hlex, hspaced, ofText_eq_asTyped hbalanced hlex hspaced, by decide +kernel⟩

end Evaluation
end Abacus
