import Abacus.Proofs.Calculation
import Abacus.Proofs.Expr.ArityChecks
import Abacus.Proofs.Grammar.Slices
/-!
Every node of a tree has the range of its own text.

The part of the text that the range selects is accepted by itself and gives the node back. Inside of
that range the operands and arguments of the node stand one after the other.
-/

namespace Abacus

namespace Expr

/-- The ranges of the trees stand one after the other between two positions. -/
structure InOrder (start stop : Nat) (es : List Expr) : Prop where
  bounds : ∀ e ∈ es, start ≤ e.span.start ∧ e.span.stop ≤ stop
  pairwise : es.Pairwise fun a b => a.span.stop ≤ b.span.start

theorem InOrder.nil (start stop : Nat) : InOrder start stop [] :=
  ⟨by simp, List.Pairwise.nil⟩

theorem InOrder.singleton {start stop : Nat} {e : Expr} (hstart : start ≤ e.span.start)
    (hstop : e.span.stop ≤ stop) : InOrder start stop [e] := by
  refine ⟨?_, List.pairwise_singleton _ e⟩
  simpa using ⟨hstart, hstop⟩

theorem InOrder.append {start middle stop : Nat} {as bs : List Expr}
    (ha : InOrder start middle as) (hb : InOrder middle stop bs) (hstart : start ≤ middle)
    (hstop : middle ≤ stop) : InOrder start stop (as ++ bs) := by
  constructor
  · intro e he
    rcases List.mem_append.mp he with he | he
    · have := ha.bounds e he
      omega
    · have := hb.bounds e he
      omega
  · refine List.pairwise_append.mpr ⟨ha.pairwise, hb.pairwise, ?_⟩
    intro a hmema b hmemb
    have := ha.bounds a hmema
    have := hb.bounds b hmemb
    omega

theorem InOrder.mono {start stop start' stop' : Nat} {es : List Expr} (h : InOrder start stop es)
    (hstart : start' ≤ start) (hstop : stop ≤ stop') : InOrder start' stop' es := by
  refine ⟨?_, h.pairwise⟩
  intro e he
  have := h.bounds e he
  omega

end Expr

theorem Token.Between.head_lt_getLast {start stop : Nat} {lexemes : List Lexeme}
    (h : Between stop start lexemes) (hne : lexemes ≠ []) :
    (lexemes.head hne).span.start < (lexemes.getLast hne).span.stop := by
  cases lexemes with
  | nil => exact absurd rfl hne
  | cons l rest =>
    obtain ⟨_, hl, hrest⟩ := h
    by_cases hnil : rest = []
    · subst hnil
      exact hl
    · have := hrest.of_mem (List.getLast_mem hnil)
      rw [List.head_cons, List.getLast_cons hnil]
      omega

namespace Grammar

open Token (Between)

/-- The tree of lexemes that follow each other starts and ends between the same positions. -/
theorem Derivation.span_bounds {k : Nonterminal} (d : Derivation k) {start stop : Nat}
    (h : Between stop start d.lexemes) :
    start ≤ d.expr.span.start ∧ d.expr.span.start < d.expr.span.stop ∧ d.expr.span.stop ≤ stop := by
  have hfirst := h.of_mem (List.head_mem d.lexemes_ne_nil)
  have hlast := h.of_mem (List.getLast_mem d.lexemes_ne_nil)
  rw [d.span_expr]
  exact ⟨hfirst.1, h.head_lt_getLast d.lexemes_ne_nil, hlast.2.2⟩

theorem Arguments.inOrder_exprs (arguments : Arguments) {start stop : Nat}
    (h : Between stop start arguments.lexemes) : Expr.InOrder start stop arguments.exprs := by
  match arguments with
  | .one d =>
    rw [Arguments.lexemes] at h
    have hbounds := d.span_bounds h
    exact .singleton hbounds.1 hbounds.2.2
  | .more before comma d =>
    rw [Arguments.lexemes] at h
    obtain ⟨middle, hbefore, hcomma, hlt, hd⟩ := h.append
    dsimp only at hcomma hlt hd
    have hstart := hbefore.start_le_stop
    have hbounds := d.span_bounds hd
    rw [Arguments.exprs]
    apply (before.inOrder_exprs hbefore).append
    · exact .singleton (by omega) hbounds.2.2
    · exact hstart
    · omega

theorem inOrder_join {kl kr : Nonterminal} (op : Operator) (left : Derivation kl) (sign : Span)
    (right : Derivation kr) {start stop : Nat}
    (h : Between stop start (left.lexemes ++ ⟨.operator op, sign⟩ :: right.lexemes)) :
    Expr.InOrder (Expr.join op left.expr right.expr).span.start
      (Expr.join op left.expr right.expr).span.stop (Expr.join op left.expr right.expr).children := by
  obtain ⟨middle, hleft, hsign, hlt, hright⟩ := h.append
  dsimp only at hsign hlt hright
  have hl := left.span_bounds hleft
  have hr := right.span_bounds hright
  show Expr.InOrder left.expr.span.start right.expr.span.stop ([left.expr] ++ [right.expr])
  have hfirst : Expr.InOrder left.expr.span.start middle [left.expr] :=
    .singleton (Nat.le_refl _) hl.2.2
  have hsecond : Expr.InOrder middle right.expr.span.stop [right.expr] :=
    .singleton (by omega) (Nat.le_refl _)
  exact hfirst.append hsecond (by omega) (by omega)

/-- The operands and arguments of the tree stand one after the other in its range. -/
theorem Derivation.inOrder_children {k : Nonterminal} (d : Derivation k) {start stop : Nat}
    (h : Between stop start d.lexemes) :
    Expr.InOrder d.expr.span.start d.expr.span.stop d.expr.children := by
  match d with
  | .number text span => exact .nil _ _
  | .group opening inner closing =>
    obtain ⟨_, hopening, hrest⟩ := h
    obtain ⟨middle, hinner, hclosing, hlt, _⟩ := hrest.append
    dsimp only at hopening hclosing hlt hinner
    have hbounds := inner.span_bounds hinner
    rw [Derivation.expr, Expr.children_withSpan, Expr.span_withSpan]
    apply (inner.inOrder_children hinner).mono
    · show opening.start ≤ _
      omega
    · show _ ≤ closing.stop
      omega
  | .emptyCall f name opening closing => exact .nil _ _
  | .call f name opening arguments closing =>
    obtain ⟨_, hname, hopening, hlt, hrest⟩ := h
    obtain ⟨middle, harguments, hclosing, hlt', _⟩ := hrest.append
    dsimp only at hname hopening hlt hclosing hlt' harguments
    apply (arguments.inOrder_exprs harguments).mono
    · show name.start ≤ _
      omega
    · show _ ≤ closing.stop
      omega
  | .unsigned operand | .base operand | .factor operand | .term operand =>
    rw [Derivation.expr]
    exact operand.inOrder_children h
  | .minus sign operand =>
    obtain ⟨_, hsign, hoperand⟩ := h
    dsimp only at hsign hoperand
    have hbounds := operand.span_bounds hoperand
    rw [Derivation.expr]
    apply Expr.InOrder.singleton
    · show sign.start ≤ _
      omega
    · exact Nat.le_refl _
  | .raise left sign right => exact inOrder_join .pow left sign right h
  | .multiply left op _ sign right => exact inOrder_join op left sign right h
  | .add left op _ sign right => exact inOrder_join op left sign right h

end Grammar

namespace Evaluation

open Grammar

/-- A text that is accepted has a derivation, and its tree is the one of the derivation. -/
theorem exists_derivation_of_parseText {text : List Char} {e : Expr} (h : parseText text = .ok e) :
    ∃ d : Derivation .sum, Token.lex text = .ok d.lexemes ∧ d.expr = e ∧ e.checkArity = .ok () := by
  rw [parseText, bind_eq_ok_iff] at h
  obtain ⟨lexemes, hlex, hparse⟩ := h
  rw [mapError_eq_ok_iff] at hlex hparse
  obtain ⟨htree, hcheck⟩ := Parser.parse_eq_ok_iff.mp hparse
  obtain ⟨d, rfl, hd⟩ := exists_derivation_of_tree_ok htree
  exact ⟨d, hlex, hd, hcheck⟩

/--
The range of each node of a tree selects a part of the text. Read on its own, that part gives the
node, counted from the start of the part. The operands or arguments of the node stand in its range,
one after the other, and the whole tree runs from the first token of the text to the last.
-/
theorem parseText_part_of_isNode {text : List Char} {e n : Expr} (h : parseText text = .ok e)
    (hn : n.IsNode e) :
    (∃ before piece after, text = before ++ piece ++ after ∧
      n.span = ⟨byteLength before, byteLength (before ++ piece)⟩ ∧
      parseText piece = .ok (n.mapSpan (Span.back n.span.start))) ∧
    (∀ child ∈ n.children,
      n.span.start ≤ child.span.start ∧ child.span.stop ≤ n.span.stop) ∧
    n.children.Pairwise (fun a b => a.span.stop ≤ b.span.start) ∧
    ∃ lexemes, Token.lex text = .ok lexemes ∧ ∃ first ∈ lexemes.head?, ∃ last ∈ lexemes.getLast?,
      e.span = ⟨first.span.start, last.span.stop⟩ := by
  obtain ⟨d, hlex, rfl, hcheck⟩ := exists_derivation_of_parseText h
  have hnode := Expr.checkArity_eq_ok_of_isNode hn hcheck
  obtain ⟨dn, hdn, hinfix⟩ := d.exists_of_isNode hn
  obtain ⟨front, back, hlexemes⟩ := hinfix
  have hbetween := Token.between_of_lexFrom hlex
  rw [← hlexemes] at hbetween
  obtain ⟨_, hfront, _⟩ := hbetween.append
  obtain ⟨_, _, hpart⟩ := hfront.append
  have horder := dn.inOrder_children hpart
  rw [hdn] at horder
  refine ⟨?_, horder.bounds, horder.pairwise, d.lexemes, hlex, d.lexemes.head d.lexemes_ne_nil,
    List.head?_eq_some_head _, d.lexemes.getLast d.lexemes_ne_nil,
    List.getLast?_eq_some_getLast _, d.span_expr⟩
  obtain ⟨before, piece, after, htext, hspan, d', hlex', hexpr⟩ := exists_slice_of_isNode hlex hn
  refine ⟨before, piece, after, htext, hspan, ?_⟩
  rw [parseText_of_derivation hlex', hexpr, Expr.checkArity_mapSpan, hnode, hspan]
  rfl

/-- A call with a group and a sign in its arguments is the tree of the last 14 bytes. -/
theorem parseText_part_of_isNode_in_call :
    let text := "1 - power((2), -3)".toList
    let power := Expr.call .power [.number (Literal.value ['2']) ⟨10, 13⟩,
      .negate (.number (Literal.value ['3']) ⟨16, 17⟩) ⟨15, 17⟩] ⟨4, 18⟩
    let e := Expr.binary .sub (.number (Literal.value ['1']) ⟨0, 1⟩) power ⟨0, 18⟩
    parseText text = .ok e ∧ power.IsNode e ∧
      (∃ before piece after, text = before ++ piece ++ after ∧
        power.span = ⟨byteLength before, byteLength (before ++ piece)⟩ ∧
        parseText piece = .ok (power.mapSpan (Span.back 4))) ∧
      (∀ child ∈ power.children, 4 ≤ child.span.start ∧ child.span.stop ≤ 18) ∧
      power.children.Pairwise (fun a b => a.span.stop ≤ b.span.start) ∧
      ∃ lexemes, Token.lex text = .ok lexemes ∧ ∃ first ∈ lexemes.head?,
        ∃ last ∈ lexemes.getLast?, e.span = ⟨first.span.start, last.span.stop⟩ := by
  intro text power e
  have hlex : Token.lex text = .ok
      [⟨.number ['1'], ⟨0, 1⟩⟩, ⟨.operator .sub, ⟨2, 3⟩⟩, ⟨.function .power, ⟨4, 9⟩⟩,
        ⟨.openBracket, ⟨9, 10⟩⟩, ⟨.openBracket, ⟨10, 11⟩⟩, ⟨.number ['2'], ⟨11, 12⟩⟩,
        ⟨.closeBracket, ⟨12, 13⟩⟩, ⟨.comma, ⟨13, 14⟩⟩, ⟨.operator .sub, ⟨15, 16⟩⟩,
        ⟨.number ['3'], ⟨16, 17⟩⟩, ⟨.closeBracket, ⟨17, 18⟩⟩] := by
    decide +kernel
  have hparse : parseText text = .ok e := by
    rw [parseText, hlex]
    rfl
  have hnode : power.IsNode e := .under (by simp [e, Expr.children]) .root
  exact ⟨hparse, hnode, parseText_part_of_isNode hparse hnode⟩

end Evaluation
end Abacus
