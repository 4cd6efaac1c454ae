import Abacus.Proofs.Grammar.Bracketing
/-!
Redundant brackets.

Brackets may be written around the text of any node of an accepted text: the text is still accepted,
with the same tree up to ranges.
-/

namespace Abacus

namespace Token

/-- Two texts with a symbol between them are read as the tokens of both, and the symbol. -/
theorem lexFrom_around {t : Token} (hn : ∀ text, t ≠ number text) (hf : ∀ f, t ≠ function f)
    {offset : Nat} {a b : List Char} {la lb : List Lexeme} (ha : lexFrom offset a = .ok la)
    (hb : lexFrom (offset + byteLength a + byteLength t.text) b = .ok lb) :
    lexFrom offset (a ++ (t.text ++ b)) = .ok (la ++ ⟨t, ⟨offset + byteLength a,
      offset + byteLength a + byteLength t.text⟩⟩ :: lb) := by
  have hwritten : t.IsWritten := by
    cases t with
    | number text => exact absurd rfl (hn text)
    | _ => exact trivial
  have hends : t.EndsBefore b := by
    cases t with
    | number text => exact absurd rfl (hn text)
    | function f => exact absurd rfl (hf f)
    | _ => exact fun _ _ => rfl
  apply lexFrom_append (fun u => endsBefore_symbol hn hf u b) ha
  rw [lexFrom_text hwritten hends, hb]
  rfl

theorem lexFrom_nil (offset : Nat) : lexFrom offset [] = .ok [] := by
  rw [lexFrom]

/-- Brackets are read as two more tokens around those between them. -/
theorem lexFrom_brackets {offset : Nat} {text after : List Char} {lexemes rest : List Lexeme}
    (h : lexFrom (offset + 1) text = .ok lexemes)
    (hafter : lexFrom (offset + byteLength text + 2) after = .ok rest) :
    lexFrom offset ('(' :: (text ++ ')' :: after)) =
      .ok (⟨.openBracket, ⟨offset, offset + 1⟩⟩ :: (lexemes ++
        ⟨.closeBracket, ⟨offset + byteLength text + 1, offset + byteLength text + 2⟩⟩ :: rest)) := by
  have hend : offset + 1 + byteLength text = offset + byteLength text + 1 := by omega
  have hclosed : lexFrom (offset + 1) (text ++ (closeBracket.text ++ after)) = _ :=
    lexFrom_around (by simp) (by simp) h (by
      rw [hend]
      exact hafter)
  rw [hend] at hclosed
  exact lexFrom_around (t := .openBracket) (by simp) (by simp) (lexFrom_nil offset) hclosed

end Token

namespace Grammar

open Token

/-- Tokens are put in brackets by writing the brackets where their range starts and ends. -/
theorem exists_bracketed_text {text : List Char} {a b : List Lexeme} {n : Span}
    (hlex : Token.lex text = .ok a) (h : Bracketing n a b) :
    ∃ before piece after, text = before ++ piece ++ after ∧
      n = ⟨byteLength before, byteLength (before ++ piece)⟩ ∧
      Token.lex (before ++ '(' :: (piece ++ ')' :: after)) = .ok b := by
  cases h with
  | @around front part back hne hcover =>
    obtain ⟨l, rest, hpart⟩ := List.exists_cons_of_ne_nil hne
    have hsplit : lexFrom 0 text = .ok (front ++ l :: (rest ++ back)) := by
      rwa [hpart, List.cons_append] at hlex
    obtain ⟨before, following, htext, hfront, hfollowing, hstart⟩ := lexFrom_split_before hsplit
    rw [← List.cons_append, ← hpart] at hfollowing
    obtain ⟨piece, after, hpiece, hlexPiece, hlexAfter, hstop⟩ :=
      lexFrom_split_after hne hfollowing
    rw [Nat.zero_add] at hfollowing hlexPiece hlexAfter hstop hstart
    have hspan : n = ⟨byteLength before, byteLength (before ++ piece)⟩ := by
      subst hpart
      rw [← hcover, Span.cover, List.head_cons, hstart, hstop, byteLength_append]
    subst hspan
    have hmovedPiece : lexFrom (byteLength before + 1) piece =
        .ok (part.map (Lexeme.mapSpan (Span.ahead 1))) := by
      rw [Nat.add_comm]
      exact lexFrom_ahead 1 hlexPiece
    have hmovedAfter : lexFrom (byteLength before + byteLength piece + 2) after =
        .ok (back.map (Lexeme.mapSpan (Span.ahead 2))) := by
      rw [Nat.add_comm]
      exact lexFrom_ahead 2 hlexAfter
    have hbrackets := lexFrom_brackets hmovedPiece hmovedAfter
    rw [← byteLength_append] at hbrackets
    refine ⟨before, piece, after, ?_, rfl, ?_⟩
    · rw [htext, hpiece, List.append_assoc]
    · apply lexFrom_append (endsBefore_symbol (u := .openBracket) (by simp) (by simp) · _) hfront
      rw [Nat.zero_add]
      exact hbrackets

end Grammar

namespace Evaluation

open Grammar

/--
Every node of an accepted text can be put in brackets. The text with the brackets is accepted, and
its tree is the old one up to ranges: the node has the range from one bracket to the other, and every
range has moved as `Span.bracketed` says.
-/
theorem parseText_bracketed {text : List Char} {e n : Expr} (h : parseText text = .ok e)
    (hn : n.IsNode e) :
    ∃ before piece after, text = before ++ piece ++ after ∧
      n.span = ⟨byteLength before, byteLength (before ++ piece)⟩ ∧
      ∃ e', parseText (before ++ '(' :: (piece ++ ')' :: after)) = .ok e' ∧
        e'.bare = e.bare ∧ e' = e.mapSpan n.span.bracketed ∧
        (n.mapSpan n.span.bracketed).IsNode e' ∧
        (n.mapSpan n.span.bracketed).span = ⟨n.span.start, n.span.stop + 2⟩ := by
  obtain ⟨d, hlex, hexpr, hcheck⟩ := exists_derivation_of_parseText h
  subst hexpr
  obtain ⟨d', hbrackets, hexpr⟩ := d.exists_bracketed (Token.between_of_lexFrom hlex) hn
  obtain ⟨before, piece, after, htext, hspan, hlex'⟩ := exists_bracketed_text hlex hbrackets
  refine ⟨before, piece, after, htext, hspan, d.expr.mapSpan n.span.bracketed, ?_,
    d.expr.bare_mapSpan _, rfl, Expr.isNode_mapSpan _ hn, ?_⟩
  · rw [parseText_of_derivation hlex', hexpr, Expr.checkArity_mapSpan, hcheck]
    rfl
  · rw [Expr.span_mapSpan]
    exact Span.bracketed_of_inside ⟨Nat.le_refl _, Nat.le_refl _⟩

/-- The inner quotient of a chain, which is an argument, is put in brackets. -/
theorem parseText_bracketed_in_chain :
    let text := "abs(8/4/2)".toList
    let quotient := Expr.binary .div (.number (Literal.value ['8']) ⟨4, 5⟩)
      (.number (Literal.value ['4']) ⟨6, 7⟩) ⟨4, 7⟩
    let e := Expr.call .abs
      [.binary .div quotient (.number (Literal.value ['2']) ⟨8, 9⟩) ⟨4, 9⟩] ⟨0, 10⟩
    parseText text = .ok e ∧ quotient.IsNode e ∧
      ∃ before piece after, text = before ++ piece ++ after ∧
        quotient.span = ⟨byteLength before, byteLength (before ++ piece)⟩ ∧
        ∃ e', parseText (before ++ '(' :: (piece ++ ')' :: after)) = .ok e' ∧ e'.bare = e.bare ∧
          e' = e.mapSpan (Span.bracketed ⟨4, 7⟩) ∧
          (quotient.mapSpan (Span.bracketed ⟨4, 7⟩)).IsNode e' ∧
          (quotient.mapSpan (Span.bracketed ⟨4, 7⟩)).span = ⟨4, 9⟩ := by
  intro text quotient e
  have hlex : Token.lex text = .ok
      [⟨.function .abs, ⟨0, 3⟩⟩, ⟨.openBracket, ⟨3, 4⟩⟩, ⟨.number ['8'], ⟨4, 5⟩⟩,
        ⟨.operator .div, ⟨5, 6⟩⟩, ⟨.number ['4'], ⟨6, 7⟩⟩, ⟨.operator .div, ⟨7, 8⟩⟩,
        ⟨.number ['2'], ⟨8, 9⟩⟩, ⟨.closeBracket, ⟨9, 10⟩⟩] := by
    decide +kernel
  have hparse : parseText text = .ok e := by
    rw [parseText, hlex]
    rfl
  have hnode : quotient.IsNode e :=
    .under (List.mem_singleton_self _) (.under List.mem_cons_self .root)
  exact ⟨hparse, hnode, parseText_bracketed hparse hnode⟩

end Evaluation
end Abacus
