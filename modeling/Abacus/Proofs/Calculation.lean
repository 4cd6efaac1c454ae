import Abacus.Calculation
import Abacus.Proofs.Grammar.Nodes
/-!
A text that is derived is calculated as its derivation says.

The tree of the text is that of the derivation, and its value or failure is that of the tree. A call
with a wrong number of arguments and a zero divisor are found nowhere else.
-/

namespace Abacus

namespace Failure

/-- The failure of a call or an operator in a text that is well formed. -/
def IsSemantic : Failure → Prop
  | arity _ | divisionByZero _ | moduloByZero _ => True
  | unbalancedBrackets | lex _ | parse _ => False

theorem mapSpan_mapSpan (f g : Span → Span) (e : Failure) :
    (e.mapSpan f).mapSpan g = e.mapSpan fun span => g (f span) := by
  cases e with
  | parse e => cases e <;> rfl
  | _ => rfl

theorem mapSpan_congr {f g : Span → Span} {e : Failure} (h : ∀ span ∈ e.span?, f span = g span) :
    e.mapSpan f = e.mapSpan g := by
  cases e with
  | unbalancedBrackets => rfl
  | parse e =>
    cases e with
    | emptyExpression => rfl
    | unexpected found span | missingOperand span =>
      rw [mapSpan, mapSpan, ParseError.mapSpan, ParseError.mapSpan, h span rfl]
  | lex e | arity e | divisionByZero e | moduloByZero e =>
    rw [mapSpan, mapSpan, h e.span rfl]

theorem mapSpan_eq_self {f : Span → Span} {e : Failure} (h : ∀ span ∈ e.span?, f span = span) :
    e.mapSpan f = e := by
  rw [mapSpan_congr (g := id) h]
  cases e with
  | parse e => cases e <;> rfl
  | _ => rfl

/-- The failure without its place in the text. -/
def bare (e : Failure) : Failure :=
  e.mapSpan fun _ => ⟨0, 0⟩

theorem bare_mapSpan (f : Span → Span) (e : Failure) : (e.mapSpan f).bare = e.bare :=
  e.mapSpan_mapSpan f _

theorem isSemantic_of_mapSpan {f : Span → Span} {e : Failure} (h : (e.mapSpan f).IsSemantic) :
    e.IsSemantic := by
  cases e <;> exact h

end Failure

namespace Expr

/-- The value of a tree after its calls have been checked. -/
def result (e : Expr) : Except Failure Float := do
  e.checkArity.mapError Failure.arity
  e.evaluate.mapError Failure.ofEvalError

theorem result_of_checkArity {e : Expr} (h : e.checkArity = .ok ()) :
    e.result = e.evaluate.mapError Failure.ofEvalError := by
  rw [result, h]
  rfl

theorem result_mapSpan (f : Span → Span) (e : Expr) :
    (e.mapSpan f).result = e.result.mapError (Failure.mapSpan f) := by
  rw [result, result, checkArity_mapSpan, evaluate, evaluateWith_mapSpan, evaluate]
  cases e.checkArity with
  | error a => rfl
  | ok _ =>
    cases e.evaluateWith .binary64 with
    | error x => exact congrArg Except.error (EvalError.ofEvalError_mapSpan f x)
    | ok x => rfl

/-- The value of a tree does not depend on its ranges. -/
theorem result_of_bare_eq {a b : Expr} {value : Float} (h : a.bare = b.bare)
    (hb : b.result = .ok value) : a.result = .ok value := by
  have := congrArg result h
  rw [bare, bare, result_mapSpan, result_mapSpan, hb] at this
  cases ha : a.result with
  | ok x =>
    rw [ha] at this
    exact this
  | error failure =>
    rw [ha] at this
    contradiction

/-- A tree fails where one of its nodes fails, and the failure names the range of that node. -/
theorem exists_isNode_of_result_error {e : Expr} {failure : Failure}
    (h : e.result = .error failure) :
    ∃ n, IsNode n e ∧ n.result = .error failure ∧ failure.span? = some n.span := by
  cases hcheck : e.checkArity with
  | error a =>
    rw [result, hcheck] at h
    cases h
    obtain ⟨n, hn, herror, hspan⟩ := exists_isNode_of_checkArity_error hcheck
    refine ⟨n, hn, ?_, congrArg some hspan⟩
    rw [result, herror]
    rfl
  | ok _ =>
    rw [result, hcheck] at h
    cases heval : e.evaluate with
    | ok x =>
      rw [heval] at h
      cases h
    | error x =>
      rw [heval] at h
      cases h
      obtain ⟨n, hn, herror, hspan⟩ := exists_isNode_of_evaluateWith_error heval
      refine ⟨n, hn, ?_, ?_⟩
      · rw [result, checkArity_eq_ok_of_isNode hn hcheck, evaluate, herror]
        rfl
      · rw [EvalError.span?_ofEvalError, hspan]

theorem isSemantic_of_result {e : Expr} {failure : Failure} (h : e.result = .error failure) :
    failure.IsSemantic := by
  rw [result] at h
  cases hcheck : e.checkArity with
  | error a =>
    rw [hcheck] at h
    cases h
    exact trivial
  | ok _ =>
    rw [hcheck] at h
    cases heval : e.evaluate with
    | ok x =>
      rw [heval] at h
      cases h
    | error x =>
      rw [heval] at h
      cases h
      cases x <;> exact trivial

end Expr

/-! ## Texts in normal form -/

namespace Evaluation

open Grammar

/-- A typed text fails as its normal form does, at the place where that was typed. -/
theorem exists_of_ofText_error {typed : List Char} {failure : Failure}
    (h : ofText typed = .error failure) :
    ∃ e, ofNormal (Normalized.ofText typed).text = .error e ∧
      failure = e.mapSpan (Normalized.ofText typed).toTyped := by
  rw [ofText] at h
  cases hnormal : ofNormal (Normalized.ofText typed).text with
  | ok value =>
    rw [hnormal] at h
    contradiction
  | error e =>
    rw [hnormal] at h
    exact ⟨e, rfl, (Except.error.inj h).symm⟩

theorem ofText_nil : ofText [] = .error (.parse .emptyExpression) := by
  decide +kernel

/-- The tree of a text is that of its derivation, if the calls in it have their arities. -/
theorem parseText_of_derivation {text : List Char} {d : Derivation .sum}
    (h : Token.lex text = .ok d.lexemes) :
    parseText text = (d.expr.checkArity.map fun _ => d.expr).mapError Failure.arity := by
  rw [parseText, h]
  show (Parser.parse d.lexemes (byteLength text)).mapError Failure.ofSyntaxError = _
  rw [parse_eq_of_tree_ok (tree_lexemes d _)]
  cases d.expr.checkArity <;> rfl

/-- The value of the tokens of a text of `length` bytes, or why they have none. -/
def valueOf (lexemes : List Lexeme) (length : Nat) : Except Failure Float :=
  (Parser.tree lexemes length).mapError Failure.parse >>= Expr.result

theorem parseText_bind_evaluate {text : List Char} {lexemes : List Lexeme}
    (h : Token.lex text = .ok lexemes) :
    (parseText text >>= fun e => e.evaluate.mapError Failure.ofEvalError) =
      valueOf lexemes (byteLength text) := by
  rw [parseText, h]
  show ((Parser.parse lexemes (byteLength text)).mapError Failure.ofSyntaxError >>= _) = _
  unfold Parser.parse valueOf
  cases Parser.tree lexemes (byteLength text) with
  | error p => rfl
  | ok e =>
    show _ = e.result
    unfold Expr.result
    dsimp only
    cases e.checkArity <;> rfl

theorem valueOf_lexemes (d : Derivation .sum) (length : Nat) :
    valueOf d.lexemes length = d.expr.result := by
  rw [valueOf, tree_lexemes]
  rfl

theorem ofNormal_of_lex {text : List Char} {lexemes : List Lexeme}
    (hbalanced : isBalanced text = true) (h : Token.lex text = .ok lexemes) :
    ofNormal text =
      (valueOf lexemes (byteLength text)).map fun value => ⟨text, value, resultText value⟩ := by
  rw [ofNormal, if_pos hbalanced, ← parseText_bind_evaluate h]
  cases parseText text with
  | error e => rfl
  | ok e =>
    show (e.evaluate.mapError Failure.ofEvalError >>= fun value =>
        Except.ok (⟨text, value, resultText value⟩ : Evaluation)) =
      (e.evaluate.mapError Failure.ofEvalError).map _
    cases e.evaluate <;> rfl

theorem ofNormal_of_derivation {text : List Char} {d : Derivation .sum}
    (hbalanced : isBalanced text = true) (h : Token.lex text = .ok d.lexemes) :
    ofNormal text = d.expr.result.map fun value => ⟨text, value, resultText value⟩ := by
  rw [ofNormal_of_lex hbalanced h, valueOf_lexemes]

/-- Tokens have no value because of a token at its place, or because of a node of their tree. -/
theorem valueOf_error_cases {lexemes : List Lexeme} {length : Nat} {failure : Failure}
    (h : valueOf lexemes length = .error failure) :
    (∃ p, Parser.tree lexemes length = .error p ∧ failure = .parse p) ∨
      ∃ d : Derivation .sum, lexemes = d.lexemes ∧ d.expr.result = .error failure := by
  by_cases hd : Derivable lexemes
  · obtain ⟨d, rfl⟩ := hd
    rw [valueOf_lexemes] at h
    exact .inr ⟨d, rfl, h⟩
  · obtain ⟨p, hp⟩ := exists_tree_error hd length
    rw [valueOf, hp] at h
    cases h
    exact .inl ⟨p, hp, rfl⟩

/-- A text has no value because of its brackets, of a piece that is no token, or of its tokens. -/
theorem ofNormal_error_cases {text : List Char} {failure : Failure}
    (h : ofNormal text = .error failure) :
    (isBalanced text = false ∧ failure = .unbalancedBrackets) ∨
      isBalanced text = true ∧
        ((∃ e, Token.lex text = .error e ∧ failure = .lex e) ∨
          ∃ lexemes, Token.lex text = .ok lexemes ∧
            valueOf lexemes (byteLength text) = .error failure) := by
  by_cases hbalanced : isBalanced text = true
  · refine .inr ⟨hbalanced, ?_⟩
    cases hlex : Token.lex text with
    | error e =>
      rw [ofNormal, if_pos hbalanced, parseText, hlex] at h
      cases h
      exact .inl ⟨e, rfl, rfl⟩
    | ok lexemes =>
      rw [ofNormal_of_lex hbalanced hlex] at h
      refine .inr ⟨lexemes, rfl, ?_⟩
      cases hvalue : valueOf lexemes (byteLength text) with
      | ok value =>
        rw [hvalue] at h
        cases h
      | error e =>
        rw [hvalue] at h
        cases h
        rfl
  · rw [ofNormal, if_neg hbalanced] at h
    exact .inl ⟨Bool.eq_false_iff.mpr hbalanced, (Except.error.inj h).symm⟩

/-- A text that has a value has a derivation. -/
theorem exists_derivation_of_ofNormal_ok {text : List Char} {e : Evaluation}
    (h : ofNormal text = .ok e) :
    isBalanced text = true ∧ ∃ d : Derivation .sum, Token.lex text = .ok d.lexemes := by
  have hbalanced : isBalanced text = true := by
    by_contra hunbalanced
    rw [ofNormal, if_neg hunbalanced] at h
    cases h
  refine ⟨hbalanced, ?_⟩
  cases hlex : Token.lex text with
  | error e =>
    rw [ofNormal, if_pos hbalanced, parseText, hlex] at h
    cases h
  | ok lexemes =>
    by_cases hd : Derivable lexemes
    · obtain ⟨d, rfl⟩ := hd
      exact ⟨d, rfl⟩
    · obtain ⟨p, hp⟩ := exists_tree_error hd (byteLength text)
      rw [ofNormal_of_lex hbalanced hlex, valueOf, hp] at h
      cases h

/-- A text that fails because of a call or an operator has a derivation, and its tree fails. -/
theorem exists_derivation_of_ofNormal {text : List Char} {failure : Failure}
    (h : ofNormal text = .error failure) (hs : failure.IsSemantic) :
    isBalanced text = true ∧
      ∃ d : Derivation .sum, Token.lex text = .ok d.lexemes ∧ d.expr.result = .error failure := by
  rcases ofNormal_error_cases h with ⟨_, rfl⟩ | ⟨hbalanced, ⟨_, _, rfl⟩ | ⟨lexemes, hlex, hvalue⟩⟩
  · exact absurd hs id
  · exact absurd hs id
  · rcases valueOf_error_cases hvalue with ⟨_, _, rfl⟩ | ⟨d, rfl, hresult⟩
    · exact absurd hs id
    · exact ⟨hbalanced, d, hlex, hresult⟩

end Evaluation
end Abacus
