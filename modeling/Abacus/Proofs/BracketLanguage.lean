import Abacus.Proofs.Calculation
import Abacus.Proofs.Spacing
/-!
The language of paired brackets.

A text is balanced when its brackets alone are derived from `D → ε | ( D ) D`. The count of open
brackets decides this language, and every text with a tree belongs to it.
-/

namespace Abacus

open CallNames

/-- The words of the grammar `D → ε | ( D ) D`. -/
inductive Paired : List Char → Prop where
  | empty : Paired []
  | pair {inside after : List Char} (h : Paired inside) (h' : Paired after) :
      Paired ('(' :: inside ++ ')' :: after)

def isBracket (c : Char) : Bool :=
  c == '(' || c == ')'

/-- The brackets of a text, without what stands between them. -/
def brackets (text : List Char) : List Char :=
  text.filter isBracket

theorem brackets_cons_of_not {c : Char} (ho : c ≠ '(') (hc : c ≠ ')') (text : List Char) :
    brackets (c :: text) = brackets text := by
  refine List.filter_cons_of_neg ?_
  simp [isBracket, ho, hc]

theorem brackets_pair (body rest : List Char) :
    brackets ('(' :: (body ++ ')' :: rest)) = '(' :: brackets body ++ ')' :: brackets rest := by
  show '(' :: (body ++ ')' :: rest).filter isBracket = _
  rw [List.filter_append]
  rfl

theorem isBalanced_of_paired {text : List Char} (h : Paired text) : isBalanced text = true := by
  induction h with
  | empty => rfl
  | pair _ _ hinside hafter =>
    have := isBalanced_append (isBalanced_brackets hinside) hafter
    rwa [List.append_assoc, List.singleton_append] at this

/-- The first bracket opens a pair, and both the text inside and the text after it are balanced. -/
theorem exists_pair_of_isBalanced {text : List Char} (h : isBalanced ('(' :: text) = true) :
    ∃ body rest, text = body ++ ')' :: rest ∧ isBalanced body = true ∧ isBalanced rest = true := by
  have hopen : closesFrom (0 + 1) text = true := h
  obtain ⟨⟨body, rest⟩, hclosing⟩ :=
    Option.isSome_iff_exists.mp (isSome_closing?_of_closesFrom hopen (Nat.succ_pos 0))
  obtain rfl := eq_of_closing? hclosing
  have hbody : isBalanced body = true := closesFrom_of_closing? hclosing
  refine ⟨body, rest, rfl, hbody, ?_⟩
  have hrest := closesFrom_append hbody 1 (')' :: rest)
  rw [hopen] at hrest
  exact hrest.symm

theorem paired_of_isBalanced (text : List Char) (h : isBalanced text = true) :
    Paired (brackets text) := by
  match text with
  | [] => exact .empty
  | c :: tail =>
    by_cases ho : c = '('
    · subst ho
      obtain ⟨body, rest, htail, hbody, hrest⟩ := exists_pair_of_isBalanced h
      have hlength : tail.length = body.length + rest.length + 1 := by
        rw [htail, List.length_append, List.length_cons]
        rfl
      rw [htail, brackets_pair]
      exact .pair (paired_of_isBalanced body hbody) (paired_of_isBalanced rest hrest)
    · by_cases hc : c = ')'
      · subst hc
        contradiction
      · have htail : isBalanced tail = true := by
          have := closesFrom_tail h
          rwa [depthAfter, if_neg ho, if_neg hc] at this
        rw [brackets_cons_of_not ho hc]
        exact paired_of_isBalanced tail htail
termination_by text.length
decreasing_by
  all_goals rw [List.length_cons]
  all_goals omega

/-- Counting open brackets decides the language. -/
theorem isBalanced_iff_paired (text : List Char) :
    isBalanced text = true ↔ Paired (brackets text) := by
  constructor
  · intro h
    exact paired_of_isBalanced text h
  · intro h
    have := isBalanced_of_paired h
    rwa [isBalanced, brackets, closesFrom_filter (by decide) (by decide)] at this

namespace Evaluation

open Grammar

/-- Once the brackets are paired, nothing after the check complains about them. -/
theorem ofNormal_eq_unbalanced_iff (text : List Char) :
    ofNormal text = .error .unbalancedBrackets ↔ isBalanced text = false := by
  constructor
  · intro h
    rcases ofNormal_error_cases h with ⟨hunbalanced, _⟩ | ⟨_, ⟨_, _, he⟩ | ⟨lexemes, _, hvalue⟩⟩
    · exact hunbalanced
    · cases he
    · rcases valueOf_error_cases hvalue with ⟨_, _, he⟩ | ⟨d, _, hresult⟩
      · cases he
      · exact absurd (Expr.isSemantic_of_result hresult) id
  · intro h
    rw [ofNormal, if_neg (Bool.eq_false_iff.mp h)]

theorem ofText_eq_unbalanced_iff (typed : List Char) :
    ofText typed = .error .unbalancedBrackets ↔ isBalanced typed = false := by
  rw [← Normalized.isBalanced_text, ← ofNormal_eq_unbalanced_iff]
  constructor
  · intro h
    obtain ⟨e, hnormal, he⟩ := exists_of_ofText_error h
    cases e with
    | unbalancedBrackets => exact hnormal
    | _ => cases he
  · intro h
    rw [ofText, h]
    rfl

/-- A text whose tokens are derivable is balanced. -/
theorem isBalanced_of_derivable {text : List Char} {lexemes : List Lexeme}
    (hlex : Token.lex text = .ok lexemes) (h : Derivable lexemes) : isBalanced text = true := by
  obtain ⟨d, rfl⟩ := h
  rw [isBalanced, closesFrom_of_lexFrom hlex]
  exact d.isBalanced_joinedText (Token.isWritten_of_lexFrom hlex)

theorem exists_derivable_or_parse_error (text : List Char) :
    (∃ lexemes, Token.lex text = .ok lexemes ∧ Derivable lexemes) ∨
      (∃ e, parseText text = .error (.lex e)) ∨ ∃ p, parseText text = .error (.parse p) := by
  cases hlex : Token.lex text with
  | error e =>
    refine .inr (.inl ⟨e, ?_⟩)
    rw [parseText, hlex]
    rfl
  | ok lexemes =>
    by_cases hd : Derivable lexemes
    · exact .inl ⟨lexemes, rfl, hd⟩
    · obtain ⟨p, hp⟩ := exists_tree_error hd (byteLength text)
      refine .inr (.inr ⟨p, ?_⟩)
      rw [parseText, hlex]
      show (Parser.parse lexemes (byteLength text)).mapError Failure.ofSyntaxError = _
      rw [Parser.parse, hp]
      rfl

/--
A text is refused for its brackets exactly when they are no word of the language, whatever else is
wrong with it. A text with a tree, even one with a wrong number of arguments, is never refused for
them.
-/
theorem unbalancedBrackets_iff_not_paired (text : List Char) :
    (ofText text = .error .unbalancedBrackets ↔ ¬ Paired (brackets text)) ∧
      ((∃ e, parseText text = .ok e) ∨ (∃ a, parseText text = .error (.arity a)) →
        isBalanced text = true) := by
  constructor
  · rw [ofText_eq_unbalanced_iff, ← isBalanced_iff_paired, Bool.not_eq_true]
  · intro h
    rcases exists_derivable_or_parse_error text with ⟨lexemes, hlex, hd⟩ | ⟨e, he⟩ | ⟨p, hp⟩
    · exact isBalanced_of_derivable hlex hd
    · rw [he] at h
      simp at h
    · rw [hp] at h
      simp at h

/-- A call with a wrong number of arguments is not refused for its brackets. -/
theorem unbalancedBrackets_iff_not_paired_of_wrongArity :
    (∃ a, parseText "sqrt((1 + 2) * 3, abs(4))".toList = .error (.arity a)) ∧
      isBalanced "sqrt((1 + 2) * 3, abs(4))".toList = true ∧
      Paired (brackets "sqrt((1 + 2) * 3, abs(4))".toList) := by
  have hparse : (parseText "sqrt((1 + 2) * 3, abs(4))".toList).map (fun _ => ()) =
      .error (.arity ⟨.sqrt, 2, ⟨0, 25⟩⟩) := by
    decide +kernel
  have harity : ∃ a, parseText "sqrt((1 + 2) * 3, abs(4))".toList = .error (.arity a) := by
    cases h : parseText "sqrt((1 + 2) * 3, abs(4))".toList with
    | ok e =>
      rw [h] at hparse
      cases hparse
    | error failure =>
      rw [h] at hparse
      exact ⟨_, congrArg Except.error (Except.error.inj hparse)⟩
  have hbalanced := (unbalancedBrackets_iff_not_paired _).2 (.inr harity)
  exact ⟨harity, hbalanced, (isBalanced_iff_paired _).mp hbalanced⟩

end Evaluation
end Abacus
