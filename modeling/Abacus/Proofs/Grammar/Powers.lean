import Abacus.Proofs.BracketedNodes
import Abacus.Proofs.Operands
/-!
Powers as calls and as operators.

The call `power(a,b)` and the operator in `(a)^(b)` have different trees over the same operands, each
moved to where it stands. Both trees compute the left operand before the right one and then the power.
-/

namespace Abacus

/-! ## Trees of powers -/

namespace Expr

/-- The power of what two trees come to; the first failure is the result. -/
def powerOf (base exponent : Except Failure Float) : Except Failure Float := do
  let x ← base
  let y ← exponent
  .ok (x.pow y)

section

variable {left right : Expr} (hleft : left.checkArity = .ok ()) (hright : right.checkArity = .ok ())
include hleft hright

theorem result_join_pow : (join .pow left right).result = powerOf left.result right.result := by
  have hcheck : (join .pow left right).checkArity = .ok () := by
    rw [join, checkArity, hleft]
    exact hright
  rw [result_of_checkArity hcheck, result_of_checkArity hleft, result_of_checkArity hright, evaluate,
    join, evaluateWith, evaluate, evaluate]
  cases left.evaluateWith .binary64 with
  | error x => rfl
  | ok x => cases right.evaluateWith .binary64 <;> rfl

theorem result_call_power (span : Span) :
    (call .power [left, right] span).result = powerOf left.result right.result := by
  have hcheck : (call .power [left, right] span).checkArity = .ok () := by
    rw [checkArity_eq_ok_iff_children]
    refine ⟨rfl, ?_⟩
    simp only [children, List.forall_mem_cons, List.not_mem_nil, false_implies, implies_true,
      and_true]
    exact ⟨hleft, hright⟩
  have harity : [left, right].length = Function.power.arity := rfl
  rw [result_of_checkArity hcheck, result_of_checkArity hleft, result_of_checkArity hright, evaluate,
    evaluateWith, if_pos harity, evaluate, evaluate, evaluateAllWith, evaluateAllWith]
  cases left.evaluateWith .binary64 with
  | error x => rfl
  | ok x => cases right.evaluateWith .binary64 <;> rfl

end

end Expr

/-! ## Texts of powers -/

/-- The call of the power function with the two texts as its arguments. -/
def powerCall (a b : List Char) : List Char :=
  Function.power.name ++ inBrackets (a ++ ',' :: b)

/-- The two texts in brackets, with the operator between them. -/
def raised (a b : List Char) : List Char :=
  inBrackets a ++ '^' :: inBrackets b

namespace Token

theorem lexFrom_inBrackets {offset : Nat} {text : List Char} {lexemes : List Lexeme}
    (h : lexFrom (offset + 1) text = .ok lexemes) :
    lexFrom offset (inBrackets text) = .ok (⟨.openBracket, ⟨offset, offset + 1⟩⟩ :: (lexemes ++
      [⟨.closeBracket, ⟨offset + byteLength text + 1, offset + byteLength text + 2⟩⟩])) :=
  lexFrom_brackets h (lexFrom_nil _)

end Token

namespace Grammar

open Token

/-- A text that starts at a later byte is derived by the moved derivation. -/
theorem lexFrom_ahead_derivation {offset : Nat} {k : Nonterminal} {d : Derivation k}
    {text : List Char} (h : Token.lex text = .ok d.lexemes) :
    lexFrom offset text = .ok (d.mapSpan (Span.ahead offset)).lexemes := by
  rw [d.lexemes_mapSpan]
  exact lexFrom_ahead offset h

theorem span_of_lex {d : Derivation .sum} {text : List Char} (hgap : ∀ c ∈ text, isGap c = false)
    (h : Token.lex text = .ok d.lexemes) : d.expr.span = ⟨0, byteLength text⟩ := by
  rw [d.span_expr, cover_of_lexFrom hgap h d.lexemes_ne_nil, Nat.zero_add]

theorem lex_inBrackets {d : Derivation .sum} {text : List Char}
    (hgap : ∀ c ∈ text, isGap c = false) (h : Token.lex text = .ok d.lexemes) :
    Token.lex (inBrackets text) = .ok d.bracketed.lexemes := by
  have hinner : lexFrom (0 + 1) text = .ok (d.mapSpan (Span.ahead (0 + 1))).lexemes :=
    lexFrom_ahead_derivation h
  have hbracketed := lexFrom_inBrackets hinner
  rw [Nat.zero_add (byteLength text)] at hbracketed
  rw [Derivation.bracketed, span_of_lex hgap h]
  exact hbracketed

section

variable {a b : List Char} {left right : Derivation .sum} (hleft : Token.lex a = .ok left.lexemes)
  (hright : Token.lex b = .ok right.lexemes)
include hleft hright

theorem exists_derivation_powerCall :
    ∃ (d : Derivation .sum) (span : Span), Token.lex (powerCall a b) = .ok d.lexemes ∧
      d.expr = .call .power [left.expr.mapSpan (Span.ahead 6),
        right.expr.mapSpan (Span.ahead (7 + byteLength a))] span := by
  have hname : (Token.function .power).EndsBefore (inBrackets (a ++ ',' :: b)) := by
    intro c hc
    cases hc
    decide
  -- The name and the bracket take six bytes, and the comma one more after the first operand.
  have hfirst : lexFrom 6 a = .ok (left.mapSpan (Span.ahead 6)).lexemes :=
    lexFrom_ahead_derivation hleft
  have hsecond : lexFrom (6 + byteLength a + 1) b =
      .ok (right.mapSpan (Span.ahead (7 + byteLength a))).lexemes := by
    rw [show 6 + byteLength a + 1 = 7 + byteLength a by omega]
    exact lexFrom_ahead_derivation hright
  let arguments : Arguments := .more (.one (left.mapSpan (Span.ahead 6)))
    ⟨6 + byteLength a, 6 + byteLength a + 1⟩ (right.mapSpan (Span.ahead (7 + byteLength a)))
  have harguments : lexFrom 6 (a ++ ',' :: b) = .ok arguments.lexemes :=
    lexFrom_around (t := .comma) (by simp) (by simp) hfirst hsecond
  have hlist : lexFrom 5 (inBrackets (a ++ ',' :: b)) = _ := lexFrom_inBrackets harguments
  have hcall : lexFrom 0 (powerCall a b) = _ := lexFrom_text (t := .function .power) trivial hname 0
  rw [show 0 + byteLength (Token.function .power).text = 5 by decide, hlist] at hcall
  let closing : Span :=
    ⟨5 + byteLength (a ++ ',' :: b) + 1, 5 + byteLength (a ++ ',' :: b) + 2⟩
  refine ⟨.term (.factor (.base (.unsigned (.call .power ⟨0, 5⟩ ⟨5, 6⟩ arguments closing)))),
    .cover ⟨0, 5⟩ closing, hcall, ?_⟩
  have hexprs : arguments.exprs = [left.expr.mapSpan (Span.ahead 6),
      right.expr.mapSpan (Span.ahead (7 + byteLength a))] := by
    rw [← left.expr_mapSpan (Span.endwise_ahead 6), ← right.expr_mapSpan (Span.endwise_ahead _)]
    rfl
  rw [← hexprs]
  rfl

theorem exists_derivation_raised (ha : ∀ c ∈ a, isGap c = false) (hb : ∀ c ∈ b, isGap c = false) :
    ∃ d : Derivation .sum, Token.lex (raised a b) = .ok d.lexemes ∧
      d.expr = .join .pow (left.expr.mapSpan (Span.bracketed ⟨0, byteLength a⟩))
        ((right.expr.mapSpan (Span.bracketed ⟨0, byteLength b⟩)).mapSpan
          (Span.ahead (byteLength a + 3))) := by
  have hsecond : lexFrom (0 + byteLength (inBrackets a) + 1) (inBrackets b) =
      .ok (right.bracketed.mapSpan (Span.ahead (byteLength a + 3))).lexemes := by
    rw [byteLength_inBrackets, show 0 + (byteLength a + 2) + 1 = byteLength a + 3 by omega]
    exact lexFrom_ahead_derivation (lex_inBrackets hb hright)
  have hraised := lexFrom_around (t := .operator .pow) (by simp) (by simp)
    (lex_inBrackets ha hleft) hsecond
  let sign : Span := ⟨0 + byteLength (inBrackets a), 0 + byteLength (inBrackets a) + 1⟩
  let exponent := right.bracketed.mapSpan (Span.ahead (byteLength a + 3))
  refine ⟨.term (.factor (.raise (.unsigned left.bracketed) sign (.base (.unsigned exponent)))),
    hraised, ?_⟩
  show Expr.join .pow left.bracketed.expr exponent.expr = _
  rw [Derivation.expr_mapSpan (Span.endwise_ahead _),
    left.expr_bracketed (between_of_lexFrom hleft), right.expr_bracketed (between_of_lexFrom hright),
    span_of_lex ha hleft, span_of_lex hb hright]

end

end Grammar

end Abacus
