import Abacus.Proofs.Calculation
import Abacus.Proofs.Grammar.Slices
/-!
Where the failures of a text are found.

The lexer stops at a piece of the text, the parser at a token or at the end of the text, and a tree
fails at one of its nodes. So the range in a failure is that of a part of the text that is not empty,
or stands just after the text.
-/

namespace Abacus

namespace Span

/-- The range of a part of the text that is not empty. -/
def IsPartOf (span : Span) (text : List Char) : Prop :=
  ∃ before piece after, text = before ++ piece ++ after ∧ piece ≠ [] ∧
    span = ⟨byteLength before, byteLength (before ++ piece)⟩

theorem IsPartOf.start_lt_stop {span : Span} {text : List Char} (h : span.IsPartOf text) :
    span.start < span.stop := by
  obtain ⟨before, piece, after, _, hne, rfl⟩ := h
  have := byteLength_pos hne
  rw [byteLength_append]
  dsimp only
  omega

end Span

namespace Token

theorem firstPiece_text_ne_nil (c : Char) (rest : List Char) : (firstPiece c rest).text ≠ [] := by
  unfold firstPiece
  split
  · exact List.cons_ne_nil _ _
  · split <;> exact List.cons_ne_nil _ _

/-- The text that is no token is a part of the text that is cut. -/
theorem exists_part_of_lexFrom_error {offset : Nat} {text : List Char} {e : LexError}
    (h : lexFrom offset text = .error e) :
    ∃ before after, text = before ++ e.text ++ after ∧ e.text ≠ [] ∧
      e.span = ⟨offset + byteLength before, offset + byteLength (before ++ e.text)⟩ := by
  fun_induction lexFrom offset text with
  | case1 => contradiction
  | case2 offset c text hc ih =>
    obtain ⟨before, after, htext, hne, hspan⟩ := ih h
    refine ⟨c :: before, after, congrArg (c :: ·) htext, hne, ?_⟩
    rw [hspan, List.cons_append, byteLength_cons, byteLength_cons, Nat.add_assoc, Nat.add_assoc]
  | case3 offset c text hc piece span fault hmeaning =>
    cases h
    exact ⟨[], piece.after, (text_append_after c text).symm, firstPiece_text_ne_nil c text, rfl⟩
  | case4 offset c text hc piece span token hmeaning ih =>
    cases hafter : lexFrom span.stop piece.after with
    | ok lexemes =>
      rw [hafter] at h
      contradiction
    | error e' =>
      rw [hafter] at h
      cases h
      obtain ⟨before, after, htext, hne, hspan⟩ := ih hafter
      have hstop : span.stop = offset + byteLength piece.text := rfl
      refine ⟨piece.text ++ before, after, ?_, hne, ?_⟩
      · rw [← text_append_after c text, List.append_assoc, List.append_assoc,
          ← List.append_assoc before]
        exact congrArg (piece.text ++ ·) htext
      · rw [hspan, hstop, List.append_assoc, byteLength_append piece.text,
          byteLength_append piece.text, Nat.add_assoc, Nat.add_assoc]

theorem isPartOf_of_lex_error {text : List Char} {e : LexError} (h : lex text = .error e) :
    e.span.IsPartOf text := by
  obtain ⟨before, after, htext, hne, hspan⟩ := exists_part_of_lexFrom_error h
  simp only [Nat.zero_add] at hspan
  exact ⟨before, e.text, after, htext, hne, hspan⟩

end Token

namespace Parser

/-- The token that cannot stand at its place is one of those read. -/
theorem mem_of_run_error {s : State} {lexemes : List Lexeme} {l : Lexeme}
    (h : run s lexemes = .error l) : l ∈ lexemes := by
  induction lexemes generalizing s with
  | nil => contradiction
  | cons m rest ih =>
    rw [run] at h
    cases hstep : step s m with
    | none =>
      rw [hstep] at h
      cases h
      exact List.mem_cons_self
    | some t =>
      rw [hstep] at h
      exact List.mem_cons_of_mem m (ih h)

theorem span?_classify (lexemes : List Lexeme) (found : Option Lexeme) (length : Nat) :
    (classify lexemes found length).span? =
      some (found.elim (Span.endOf length) Lexeme.span) := by
  unfold classify
  dsimp only
  split <;> rfl

theorem span_of_tree_error {lexemes : List Lexeme} {length : Nat} {p : ParseError} {span : Span}
    (h : tree lexemes length = .error p) (hspan : p.span? = some span) :
    span = .endOf length ∨ ∃ l ∈ lexemes, span = l.span := by
  unfold tree at h
  by_cases hnil : lexemes.isEmpty = true
  · rw [if_pos hnil] at h
    cases h
    contradiction
  · rw [if_neg hnil] at h
    cases hrun : run (.operand {} []) lexemes with
    | error l =>
      rw [hrun] at h
      cases h
      rw [span?_classify] at hspan
      exact .inr ⟨l, mem_of_run_error hrun, (Option.some.inj hspan).symm⟩
    | ok s =>
      rw [hrun] at h
      dsimp only at h
      cases hfinish : finish? s with
      | some e =>
        rw [hfinish] at h
        contradiction
      | none =>
        rw [hfinish] at h
        cases h
        rw [span?_classify] at hspan
        exact .inl (Option.some.inj hspan).symm

end Parser

namespace Evaluation

open Grammar

theorem isPartOf_of_mem {text : List Char} {lexemes : List Lexeme} {l : Lexeme}
    (hlex : Token.lex text = .ok lexemes) (hl : l ∈ lexemes) : l.span.IsPartOf text := by
  obtain ⟨before, after, rfl⟩ := List.append_of_mem hl
  have hinfix : [l] <:+: before ++ l :: after := ⟨before, after, by simp⟩
  obtain ⟨a, piece, b, htext, hpiece, hspan⟩ :=
    Token.lexFrom_slice hlex hinfix (List.cons_ne_nil l [])
  simp only [Nat.zero_add] at hspan
  exact ⟨a, piece, b, htext, Token.ne_nil_of_lexFrom hpiece (List.cons_ne_nil l []), hspan⟩

theorem isPartOf_of_isNode {text : List Char} {d : Derivation .sum} {n : Expr}
    (hlex : Token.lex text = .ok d.lexemes) (hn : n.IsNode d.expr) : n.span.IsPartOf text := by
  obtain ⟨before, piece, after, htext, hspan, d', hlex', _⟩ := exists_slice_of_isNode hlex hn
  exact ⟨before, piece, after, htext, Token.ne_nil_of_lexFrom hlex' d'.lexemes_ne_nil, hspan⟩

/-- A text that can be cut into tokens fails at one of its parts or at its end. -/
theorem span_of_valueOf_error {text : List Char} {lexemes : List Lexeme} {failure : Failure}
    {span : Span} (hlex : Token.lex text = .ok lexemes)
    (h : valueOf lexemes (byteLength text) = .error failure) (hspan : failure.span? = some span) :
    span = .endOf (byteLength text) ∨ span.IsPartOf text := by
  rcases valueOf_error_cases h with ⟨p, hp, rfl⟩ | ⟨d, rfl, hresult⟩
  · rcases Parser.span_of_tree_error hp hspan with hend | ⟨l, hl, rfl⟩
    · exact .inl hend
    · exact .inr (isPartOf_of_mem hlex hl)
  · obtain ⟨n, hn, _, hnode⟩ := Expr.exists_isNode_of_result_error hresult
    rw [hspan] at hnode
    rw [Option.some.inj hnode]
    exact .inr (isPartOf_of_isNode hlex hn)

/-- Every text fails at one of its parts or at its end. -/
theorem span_of_ofNormal_error {text : List Char} {failure : Failure} {span : Span}
    (h : ofNormal text = .error failure) (hspan : failure.span? = some span) :
    span = .endOf (byteLength text) ∨ span.IsPartOf text := by
  rcases ofNormal_error_cases h with ⟨_, rfl⟩ | ⟨_, ⟨e, hlex, rfl⟩ | ⟨lexemes, hlex, hvalue⟩⟩
  · contradiction
  · rw [← Option.some.inj hspan]
    exact .inr (Token.isPartOf_of_lex_error hlex)
  · exact span_of_valueOf_error hlex hvalue hspan

end Evaluation
end Abacus
