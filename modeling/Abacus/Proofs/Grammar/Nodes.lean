import Abacus.Proofs.Expr.Relocation
import Abacus.Proofs.Grammar.Acceptance
/-!
The nodes of a derived tree are derived themselves, from consecutive lexemes.

A node's range runs from the first of these lexemes to the last, so the lexemes read on their own
give the node back.
-/

namespace Abacus
namespace Grammar

/-- The derivation from `sum` that adds nothing to the derivation. -/
def Derivation.toSum : {k : Nonterminal} → Derivation k → Derivation .sum
  | .sum, d => d
  | .product, d => .term d
  | .power, d => .term (.factor d)
  | .unary, d => .term (.factor (.base d))
  | .primary, d => .term (.factor (.base (.unsigned d)))

@[simp] theorem Derivation.lexemes_toSum {k : Nonterminal} (d : Derivation k) :
    d.toSum.lexemes = d.lexemes := by
  cases k <;> simp only [toSum, lexemes]

@[simp] theorem Derivation.expr_toSum {k : Nonterminal} (d : Derivation k) :
    d.toSum.expr = d.expr := by
  cases k <;> simp only [toSum, expr]

theorem Derivation.exists_sum {k : Nonterminal} (d : Derivation k) :
    ∃ d' : Derivation .sum, d'.expr = d.expr ∧ d'.lexemes <:+: d.lexemes :=
  ⟨d.toSum, d.expr_toSum, d.lexemes_toSum ▸ List.infix_refl _⟩

/-! ## Ranges -/

/-- The tree covers everything from the first lexeme to the last. -/
theorem Derivation.span_expr {k : Nonterminal} (d : Derivation k) :
    d.expr.span = (d.lexemes.head d.lexemes_ne_nil).span.cover
      (d.lexemes.getLast d.lexemes_ne_nil).span := by
  cases d with
  | number text span => rfl
  | group opening inner closing =>
    simp only [expr, lexemes, Expr.span_withSpan, List.cons_append, List.head_cons]
    rw [List.getLast_cons (by simp), List.getLast_concat]
  | emptyCall f name opening closing => rfl
  | call f name opening arguments closing =>
    simp only [expr, lexemes, Expr.span, List.cons_append, List.head_cons]
    rw [List.getLast_cons (by simp), List.getLast_cons (by simp), List.getLast_concat]
  | unsigned operand | base operand | factor operand | term operand =>
    simp only [expr, lexemes]
    exact operand.span_expr
  | minus sign operand =>
    show sign.cover operand.expr.span = _
    simp only [lexemes, List.head_cons]
    rw [List.getLast_cons operand.lexemes_ne_nil, operand.span_expr]
    rfl
  | raise left sign right | multiply left op hop sign right | add left op hop sign right =>
    show left.expr.span.cover right.expr.span = _
    simp only [lexemes]
    rw [List.head_append_of_ne_nil left.lexemes_ne_nil, List.getLast_append_of_ne_nil _ (by simp),
      List.getLast_cons right.lexemes_ne_nil, left.span_expr, right.span_expr]
    rfl

/-! ## Nodes -/

mutual

/-- A node of the tree is the tree of some of the lexemes, which stand next to each other. -/
theorem Derivation.exists_of_isNode {k : Nonterminal} (d : Derivation k) {n : Expr}
    (h : n.IsNode d.expr) : ∃ d' : Derivation .sum, d'.expr = n ∧ d'.lexemes <:+: d.lexemes := by
  have hroot := d.exists_sum
  cases d with
  | number text span =>
    rw [Derivation.expr, Expr.isNode_iff] at h
    rcases h with rfl | ⟨child, hchild, _⟩
    · exact hroot
    · simp [Expr.children] at hchild
  | group opening inner closing =>
    rw [Derivation.expr, Expr.isNode_iff] at h
    rcases h with rfl | ⟨child, hchild, hn⟩
    · exact hroot
    · rw [Expr.children_withSpan] at hchild
      obtain ⟨d', hd', hinfix⟩ := inner.exists_of_isNode (.under hchild hn)
      exact ⟨d', hd', hinfix.trans ⟨[⟨.openBracket, opening⟩], _, rfl⟩⟩
  | emptyCall f name opening closing =>
    rw [Derivation.expr, Expr.isNode_iff] at h
    rcases h with rfl | ⟨child, hchild, _⟩
    · exact hroot
    · simp [Expr.children] at hchild
  | call f name opening arguments closing =>
    rw [Derivation.expr, Expr.isNode_iff] at h
    rcases h with rfl | ⟨child, hchild, hn⟩
    · exact hroot
    · obtain ⟨d', hd', hinfix⟩ := arguments.exists_of_isNode hchild hn
      exact ⟨d', hd', hinfix.trans ⟨[⟨.function f, name⟩, ⟨.openBracket, opening⟩], _, rfl⟩⟩
  | unsigned operand | base operand | factor operand | term operand =>
    rw [Derivation.expr] at h
    rw [Derivation.lexemes]
    exact operand.exists_of_isNode h
  | minus sign operand =>
    rw [Derivation.expr, Expr.isNode_iff] at h
    rcases h with rfl | ⟨child, hchild, hn⟩
    · exact hroot
    · rw [Expr.children, List.mem_singleton] at hchild
      subst hchild
      obtain ⟨d', hd', hinfix⟩ := operand.exists_of_isNode hn
      exact ⟨d', hd', hinfix.trans (List.suffix_cons _ _).isInfix⟩
  | raise left sign right | multiply left op hop sign right | add left op hop sign right =>
    rw [Derivation.expr, Expr.isNode_join_iff] at h
    rw [Derivation.lexemes]
    rcases h with rfl | hn | hn
    · exact hroot
    · obtain ⟨d', hd', hinfix⟩ := left.exists_of_isNode hn
      exact ⟨d', hd', hinfix.trans (List.prefix_append _ _).isInfix⟩
    · obtain ⟨d', hd', hinfix⟩ := right.exists_of_isNode hn
      exact ⟨d', hd', hinfix.trans (List.suffix_append_of_suffix (List.suffix_cons _ _)).isInfix⟩

theorem Arguments.exists_of_isNode (arguments : Arguments) {argument n : Expr}
    (ha : argument ∈ arguments.exprs) (h : n.IsNode argument) :
    ∃ d' : Derivation .sum, d'.expr = n ∧ d'.lexemes <:+: arguments.lexemes := by
  cases arguments with
  | one d =>
    rw [Arguments.exprs, List.mem_singleton] at ha
    subst ha
    rw [Arguments.lexemes]
    exact d.exists_of_isNode h
  | more before comma d =>
    rw [Arguments.exprs, List.mem_append, List.mem_singleton] at ha
    rw [Arguments.lexemes]
    rcases ha with ha | rfl
    · obtain ⟨d', hd', hinfix⟩ := before.exists_of_isNode ha h
      exact ⟨d', hd', hinfix.trans (List.prefix_append _ _).isInfix⟩
    · obtain ⟨d', hd', hinfix⟩ := d.exists_of_isNode h
      exact ⟨d', hd', hinfix.trans (List.suffix_append_of_suffix (List.suffix_cons _ _)).isInfix⟩

end

/-! ## Moved derivations -/

mutual

/-- The derivation with the ranges of all its leaves moved. -/
def Derivation.mapSpan (f : Span → Span) : {k : Nonterminal} → Derivation k → Derivation k
  | _, .number text span => .number text (f span)
  | _, .group opening inner closing => .group (f opening) (inner.mapSpan f) (f closing)
  | _, .emptyCall g name opening closing => .emptyCall g (f name) (f opening) (f closing)
  | _, .call g name opening arguments closing =>
      .call g (f name) (f opening) (arguments.mapSpan f) (f closing)
  | _, .unsigned operand => .unsigned (operand.mapSpan f)
  | _, .minus sign operand => .minus (f sign) (operand.mapSpan f)
  | _, .base operand => .base (operand.mapSpan f)
  | _, .raise left sign right => .raise (left.mapSpan f) (f sign) (right.mapSpan f)
  | _, .factor operand => .factor (operand.mapSpan f)
  | _, .multiply left op h sign right => .multiply (left.mapSpan f) op h (f sign) (right.mapSpan f)
  | _, .term operand => .term (operand.mapSpan f)
  | _, .add left op h sign right => .add (left.mapSpan f) op h (f sign) (right.mapSpan f)

def Arguments.mapSpan (f : Span → Span) : Arguments → Arguments
  | .one argument => .one (argument.mapSpan f)
  | .more before comma argument => .more (before.mapSpan f) (f comma) (argument.mapSpan f)

end

mutual

theorem Derivation.lexemes_mapSpan (f : Span → Span) {k : Nonterminal} (d : Derivation k) :
    (d.mapSpan f).lexemes = d.lexemes.map (Lexeme.mapSpan f) := by
  cases d with
  | number text span => rfl
  | emptyCall g name opening closing => rfl
  | group opening inner closing =>
    simp only [Derivation.mapSpan, Derivation.lexemes, List.map_append, List.map_cons, List.map_nil,
      inner.lexemes_mapSpan f, Lexeme.mapSpan]
  | call g name opening arguments closing =>
    simp only [Derivation.mapSpan, Derivation.lexemes, List.map_append, List.map_cons, List.map_nil,
      arguments.lexemes_mapSpan f, Lexeme.mapSpan]
  | unsigned operand | base operand | factor operand | term operand =>
    simp only [Derivation.mapSpan, Derivation.lexemes, operand.lexemes_mapSpan f]
  | minus sign operand =>
    simp only [Derivation.mapSpan, Derivation.lexemes, List.map_cons, operand.lexemes_mapSpan f,
      Lexeme.mapSpan]
  | raise left sign right | multiply left op hop sign right | add left op hop sign right =>
    simp only [Derivation.mapSpan, Derivation.lexemes, List.map_append, List.map_cons,
      left.lexemes_mapSpan f, right.lexemes_mapSpan f, Lexeme.mapSpan]

theorem Arguments.lexemes_mapSpan (f : Span → Span) (arguments : Arguments) :
    (arguments.mapSpan f).lexemes = arguments.lexemes.map (Lexeme.mapSpan f) := by
  cases arguments with
  | one d => simp only [Arguments.mapSpan, Arguments.lexemes, d.lexemes_mapSpan f]
  | more before comma d =>
    simp only [Arguments.mapSpan, Arguments.lexemes, List.map_append, List.map_cons,
      before.lexemes_mapSpan f, d.lexemes_mapSpan f, Lexeme.mapSpan]

end

mutual

theorem Derivation.expr_mapSpan {f : Span → Span} (hf : Span.Endwise f) {k : Nonterminal}
    (d : Derivation k) : (d.mapSpan f).expr = d.expr.mapSpan f := by
  cases d with
  | number text span => rfl
  | group opening inner closing =>
    simp only [Derivation.mapSpan, Derivation.expr, Expr.mapSpan_withSpan, inner.expr_mapSpan hf,
      hf opening closing]
  | emptyCall g name opening closing =>
    simp only [Derivation.mapSpan, Derivation.expr, Expr.mapSpan, Expr.mapSpans, hf name closing]
  | call g name opening arguments closing =>
    simp only [Derivation.mapSpan, Derivation.expr, Expr.mapSpan, Expr.mapSpans_eq_map,
      arguments.exprs_mapSpan hf, hf name closing]
  | unsigned operand | base operand | factor operand | term operand =>
    simp only [Derivation.mapSpan, Derivation.expr, operand.expr_mapSpan hf]
  | minus sign operand =>
    simp only [Derivation.mapSpan, Derivation.expr, Expr.mapSpan, operand.expr_mapSpan hf,
      Expr.span_mapSpan, hf sign operand.expr.span]
  | raise left sign right | multiply left op hop sign right | add left op hop sign right =>
    simp only [Derivation.mapSpan, Derivation.expr, Expr.mapSpan_join hf, left.expr_mapSpan hf,
      right.expr_mapSpan hf]

theorem Arguments.exprs_mapSpan {f : Span → Span} (hf : Span.Endwise f) (arguments : Arguments) :
    (arguments.mapSpan f).exprs = arguments.exprs.map (Expr.mapSpan f) := by
  cases arguments with
  | one d =>
    simp only [Arguments.mapSpan, Arguments.exprs, List.map_cons, List.map_nil, d.expr_mapSpan hf]
  | more before comma d =>
    simp only [Arguments.mapSpan, Arguments.exprs, List.map_append, List.map_cons, List.map_nil,
      before.exprs_mapSpan hf, d.expr_mapSpan hf]

end

end Grammar
end Abacus
