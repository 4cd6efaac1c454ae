import Abacus.Proofs.Grammar.Slices
import Abacus.Proofs.Retyping
/-!
The range in a failure selects a text that fails in the same way.

A call with a wrong number of arguments and a zero divisor are nodes of the tree. The range of the
node selects a part of what was typed; the normal form of that part is the text of the node, and its
tree is the node.
-/

namespace Abacus
namespace Evaluation

open Grammar

/--
A wrong number of arguments and a zero divisor are reported with the range of a part of the typed
text. The part is not empty, and evaluated on its own it fails in the same way, from its start to its
end.
-/
theorem ofText_part_of_failure {typed : List Char} {failure : Failure}
    (h : ofText typed = .error failure) (hs : failure.IsSemantic) :
    ∃ before piece after, typed = before ++ piece ++ after ∧ piece ≠ [] ∧
      failure.span? = some ⟨byteLength before, byteLength (before ++ piece)⟩ ∧
      ofText piece = .error (failure.mapSpan fun _ => ⟨0, byteLength piece⟩) := by
  cases hnormal : ofNormal (Normalized.ofText typed).text with
  | ok value =>
    rw [ofText, hnormal] at h
    cases h
  | error e =>
    rw [ofText, hnormal] at h
    cases h
    obtain ⟨_, d, hlex, hresult⟩ :=
      exists_derivation_of_ofNormal hnormal (Failure.isSemantic_of_mapSpan hs)
    obtain ⟨n, hn, hfails, hspan⟩ := Expr.exists_isNode_of_result_error hresult
    obtain ⟨a, m, b, htext, hnspan, d', hlex', hexpr⟩ := exists_slice_of_isNode hlex hn
    have hm : m ≠ [] := by
      rintro rfl
      rw [Token.lex, Token.lexFrom] at hlex'
      exact d'.lexemes_ne_nil (Except.ok.inj hlex').symm
    obtain ⟨before, piece, after, rfl, htrimmed, hsame, hrange⟩ :=
      Normalized.exists_part_of_text htext hm
    -- The normal form of the part is the text of the node.
    have hblank : ∀ c ∈ m, isBlank c = false := by
      intro c hc
      have hc' : c ∈ (Normalized.ofText (before ++ piece ++ after)).text := by
        rw [htext]
        exact List.mem_append_left _ (List.mem_append_right _ hc)
      exact Normalized.isBlank_of_mem_text hc'
    obtain ⟨hpiece, hbalanced⟩ := ofText_text_of_derivation hlex' hblank hsame
    have hnormal' : ofNormal (Normalized.ofText piece).text =
        .error (e.mapSpan (Span.back (byteLength a))) := by
      rw [hpiece, ofNormal_of_derivation hbalanced hlex', hexpr, Expr.result_mapSpan, hfails]
      rfl
    have hback : Span.back (byteLength a) n.span = ⟨0, byteLength m⟩ := by
      rw [hnspan, Span.back, byteLength_append]
      simp only [Nat.sub_self, Nat.add_sub_cancel_left]
    refine ⟨before, piece, after, rfl, htrimmed.1, ?_, ?_⟩
    · rw [Failure.span?_mapSpan, hspan, Option.map_some, hnspan, hrange]
    · rw [ofText, hnormal', Failure.mapSpan_mapSpan]
      refine congrArg Except.error ((Failure.mapSpan_mapSpan _ _ e).trans ?_)
      refine Failure.mapSpan_congr fun span hmem => ?_
      rw [hspan, Option.mem_some_iff] at hmem
      rw [← hmem, hback, Normalized.toTyped_whole htrimmed hsame]

/-- A remainder by zero inside a call, typed with blanks and capitals. -/
theorem ofText_part_of_zeroModulus :
    ofText "1 + ABS( 4 %\t(2 - 2) )".toList =
        .error (.moduloByZero ⟨['4'], "2 - 2".toList, ⟨9, 20⟩⟩) ∧
      ∃ before piece after, "1 + ABS( 4 %\t(2 - 2) )".toList = before ++ piece ++ after ∧
        piece ≠ [] ∧
        some (⟨9, 20⟩ : Span) = some ⟨byteLength before, byteLength (before ++ piece)⟩ ∧
        ofText piece =
          .error (.moduloByZero ⟨['4'], "2 - 2".toList, ⟨0, byteLength piece⟩⟩) := by
  have h : ofText "1 + ABS( 4 %\t(2 - 2) )".toList =
      .error (.moduloByZero ⟨['4'], "2 - 2".toList, ⟨9, 20⟩⟩) := by
    decide +kernel
  exact ⟨h, ofText_part_of_failure h trivial⟩

end Evaluation
end Abacus
