import Abacus.Proofs.AsTyped
import Abacus.Proofs.Expr.ZeroDivisors
import Abacus.Proofs.LiteralValues
import Abacus.Proofs.Printing
import Abacus.Proofs.Retyping
/-!
The operands that are quoted when a divisor is zero.

They are the printed texts of trees that have values. Typed again, a printed text is read as its tree
if all numbers in it are finite. A number with too many digits is infinite, and it is printed as a
word that occurs in no text with a value.
-/

namespace Abacus

/-! ## Texts of nodes -/

namespace Expr

theorem infix_bracket (needed : Bool) (t : List Char) : t <:+: bracket needed t := by
  cases needed with
  | false => exact List.infix_refl t
  | true => exact ⟨['('], [')'], rfl⟩

theorem infix_intercalate {separator t : List Char} {texts : List (List Char)} (h : t ∈ texts) :
    t <:+: separator.intercalate texts := by
  induction texts with
  | nil => contradiction
  | cons first rest ih =>
    cases rest with
    | nil =>
      rw [List.mem_singleton] at h
      rw [List.intercalate_singleton, h]
    | cons second rest =>
      rw [List.intercalate_cons_cons]
      rcases List.mem_cons.mp h with rfl | hrest
      · rw [List.append_assoc]
        exact (List.prefix_append t _).isInfix
      · exact List.infix_append_of_infix_right (ih hrest)

/-- The text of a node is a part of the text of the tree. -/
theorem text_infix_of_isNode {n e : Expr} (h : IsNode n e) : n.text <:+: e.text := by
  induction h with
  | root => exact List.infix_refl _
  | @under child e hchild _ ih =>
    refine ih.trans ?_
    cases e with
    | number value span => contradiction
    | negate operand span =>
      obtain rfl := List.mem_singleton.mp hchild
      rw [text]
      exact (infix_bracket _ _).trans (List.suffix_cons _ _).isInfix
    | binary op left right span =>
      rw [text]
      rcases List.mem_pair.mp hchild with rfl | rfl
      · rw [List.append_assoc]
        exact (infix_bracket _ _).trans (List.prefix_append _ _).isInfix
      · exact (infix_bracket _ _).trans (List.suffix_append _ _).isInfix
    | call function arguments span =>
      have hmem : child.text ∈ texts arguments := by
        rw [texts_eq_map]
        exact List.mem_map_of_mem hchild
      have hlisted : child.text <:+: [',', ' '].intercalate (texts arguments) :=
        infix_intercalate hmem
      rw [text]
      exact hlisted.trans ⟨function.name ++ ['('], [')'], by simp⟩

/-! ## The node that fails -/

/-- A zero divisor is reported for two operands that have values, the right one of them zero. -/
theorem exists_operands_of_evaluateWith_error {a : Arithmetic} {e : Expr} {x : EvalError}
    {z : ZeroDivisor} (h : e.evaluateWith a = .error x)
    (hz : x = .divisionByZero z ∨ x = .moduloByZero z) :
    ∃ op left right span, IsNode (binary op left right span) e ∧
      z = ⟨left.text, right.text, span⟩ ∧ (∃ v, left.evaluateWith a = .ok v) ∧
      ∃ v, right.evaluateWith a = .ok v ∧ isZero v = true := by
  induction e using Expr.induct with
  | number value span => cases h
  | negate operand span ih =>
    rw [evaluateWith, bind_eq_error_iff] at h
    rcases h with h | ⟨_, _, h⟩
    · obtain ⟨op, left, right, place, hn, hrest⟩ := ih h
      exact ⟨op, left, right, place, .under (List.mem_singleton_self operand) hn, hrest⟩
    · cases h
  | binary op left right span ihl ihr =>
    rw [evaluateWith, bind_eq_error_iff] at h
    rcases h with h | ⟨v, hleft, h⟩
    · obtain ⟨op, l, r, place, hn, hrest⟩ := ihl h
      exact ⟨op, l, r, place, .under (by simp [children]) hn, hrest⟩
    rw [bind_eq_error_iff] at h
    rcases h with h | ⟨w, hright, h⟩
    · obtain ⟨op, l, r, place, hn, hrest⟩ := ihr h
      exact ⟨op, l, r, place, .under (by simp [children]) hn, hrest⟩
    -- Both operands have values, so it is this node that fails.
    cases op with
    | div | mod =>
      by_cases hzero : isZero w = true
      · simp only [Operator.zeroDivisor?, hzero, if_true] at h
        cases h
        refine ⟨_, left, right, span, .root, ?_, ⟨v, hleft⟩, w, hright, hzero⟩
        rcases hz with hz | hz <;> cases hz
        rfl
      · simp only [Operator.zeroDivisor?, hzero] at h
        cases h
    | add | sub | mul | pow => cases h
  | call function arguments span ih =>
    rw [evaluateWith] at h
    by_cases hn : arguments.length = function.arity
    · rw [if_pos hn, bind_eq_error_iff] at h
      rcases h with h | ⟨_, _, h⟩
      · obtain ⟨argument, ha, h⟩ := exists_of_evaluateAllWith_error h
        obtain ⟨op, left, right, place, hn, hrest⟩ := ih argument ha h
        exact ⟨op, left, right, place, .under ha hn, hrest⟩
      · cases h
    · rw [if_neg hn] at h
      cases h
      rcases hz with hz | hz <;> cases hz

theorem result_of_evaluate {e : Expr} {value : Float} (hcheck : e.checkArity = .ok ())
    (hvalue : e.evaluateWith .binary64 = .ok value) : e.result = .ok value := by
  rw [result, hcheck, evaluate, hvalue]
  rfl

/-- The operands of a zero divisor have values as trees on their own. -/
theorem exists_operands_of_result_error {e : Expr} {failure : Failure} {z : ZeroDivisor}
    (h : e.result = .error failure)
    (hz : failure = .divisionByZero z ∨ failure = .moduloByZero z) :
    e.checkArity = .ok () ∧ ∃ op left right span, IsNode (binary op left right span) e ∧
      z = ⟨left.text, right.text, span⟩ ∧ (∃ value, left.result = .ok value) ∧
      ∃ value, right.result = .ok value ∧ isZero value = true := by
  cases hcheck : e.checkArity with
  | error a =>
    rw [result, hcheck] at h
    cases h
    rcases hz with hz | hz <;> cases hz
  | ok _ =>
    rw [result, hcheck] at h
    cases heval : e.evaluate with
    | ok x =>
      rw [heval] at h
      cases h
    | error x =>
      rw [heval] at h
      cases h
      have hx : x = .divisionByZero z ∨ x = .moduloByZero z := by
        cases x with
        | arity _ => rcases hz with hz | hz <;> cases hz
        | divisionByZero _ | moduloByZero _ => simpa [Failure.ofEvalError] using hz
      obtain ⟨op, left, right, span, hn, hquoted, ⟨x, hx⟩, y, hy, hzero⟩ :=
        exists_operands_of_evaluateWith_error heval hx
      have hleft : left.IsNode e := isNode_trans (.under (by simp [children]) .root) hn
      have hright : right.IsNode e := isNode_trans (.under (by simp [children]) .root) hn
      exact ⟨rfl, op, left, right, span, hn, hquoted,
        ⟨x, result_of_evaluate (checkArity_eq_ok_of_isNode hleft hcheck) hx⟩,
        y, result_of_evaluate (checkArity_eq_ok_of_isNode hright hcheck) hy, hzero⟩

end Expr

/-- A failure that is moved quotes the same operands. -/
theorem Failure.quotes_of_mapSpan {f : Span → Span} {failure : Failure} {z : ZeroDivisor}
    (hz : failure.mapSpan f = .divisionByZero z ∨ failure.mapSpan f = .moduloByZero z) :
    ∃ z', (failure = .divisionByZero z' ∨ failure = .moduloByZero z') ∧
      z'.dividend = z.dividend ∧ z'.divisor = z.divisor := by
  cases failure with
  | divisionByZero z' =>
    rcases hz with hz | hz <;> cases hz
    exact ⟨z', .inl rfl, rfl, rfl⟩
  | moduloByZero z' =>
    rcases hz with hz | hz <;> cases hz
    exact ⟨z', .inr rfl, rfl, rfl⟩
  | unbalancedBrackets | lex _ | parse _ | arity _ => rcases hz with hz | hz <;> cases hz

/-! ## Printed texts, typed again -/

/-- The letter is in no name of a function. -/
theorem Token.toLower_ne_of_mem_text {t : Token} (ht : t.IsWritten) :
    ∀ c ∈ t.text, c.toLower ≠ 'f' := by
  by_cases hf : ∃ f, t = .function f
  · obtain ⟨f, rfl⟩ := hf
    cases f <;> exact forall_mem_of_all (by decide)
  · have hall : ∀ c ∈ symbols, c.toLower ≠ 'f' := forall_mem_of_all (by decide)
    exact fun c hc => hall c (mem_symbols_of_mem_text ht (fun f h => hf ⟨f, h⟩) c hc)

namespace Evaluation

open Grammar

/-- A typed text that is derived has the value of its derivation, whatever blanks are in it. -/
theorem ofText_of_derivation {typed : List Char} {d : Derivation .sum} {value : Float}
    (hlex : Token.lex typed = .ok d.lexemes) (hvalue : d.expr.result = .ok value) :
    ofText typed = .ok ⟨(Normalized.ofText typed).text, value, resultText value⟩ := by
  have hbalanced : isBalanced (Normalized.ofText typed).text = true := by
    rw [Normalized.isBalanced_text, isBalanced, closesFrom_of_lexFrom hlex]
    exact d.isBalanced_joinedText (Token.isWritten_of_lexFrom hlex)
  obtain ⟨packed, hpacked, hmoved⟩ := Normalized.exists_lex_text hlex d.keepApart.freelySpaced
  have hpackedValue : valueOf packed (byteLength (Normalized.ofText typed).text) = .ok value := by
    have := valueOf_relocate (Normalized.strictMono_origin typed) (Normalized.relocation_end typed)
      packed
    rw [hmoved, valueOf_lexemes, hvalue] at this
    exact mapError_eq_ok_iff.mp this.symm
  rw [ofText, ofNormal_of_lex hbalanced hpacked, hpackedValue]
  rfl

/-- A tree with a value is calculated from its printed text, if its numbers are finite. -/
theorem ofText_text {e : Expr} {value : Float}
    (hnumbers : ∀ value span, (Expr.number value span).IsNode e → isUnsigned value = true)
    (hvalue : e.result = .ok value) :
    ofText e.text = .ok ⟨(Normalized.ofText e.text).text, value, resultText value⟩ := by
  obtain ⟨d, hd, he⟩ := (reads_text hnumbers).toSum 0
  exact ofText_of_derivation hd.lex (Expr.result_of_bare_eq he hvalue)

/-- A text with a value is made of tokens, so it has no letter that is in none of them. -/
theorem not_mem_of_ofText_ok {typed : List Char} {e : Evaluation} (h : ofText typed = .ok e) :
    'f' ∉ typed := by
  obtain ⟨_, d, hlex⟩ := exists_derivation_of_ofNormal_ok (ofNormal_text_of_ofText_ok h)
  obtain ⟨htext, hwritten⟩ := eq_joinedText_of_lexFrom hlex fun c hc =>
    Token.isGap_eq_false (Normalized.isBlank_of_mem_text hc)
  intro hmem
  have hkept : 'f' ∈ Normalized.withoutBlanks typed :=
    List.mem_filter.mpr ⟨hmem, by decide⟩
  have hsame := Normalized.sameLetters_text typed
  rw [sameLetters, beq_iff_eq] at hsame
  have : 'f' ∈ (Normalized.ofText typed).text.map Char.toLower := by
    rw [hsame]
    exact List.mem_map.mpr ⟨'f', hkept, by decide⟩
  obtain ⟨c, hc, hlower⟩ := List.mem_map.mp this
  rw [htext, joinedText, List.mem_flatMap] at hc
  obtain ⟨l, hl, hc⟩ := hc
  exact Token.toLower_ne_of_mem_text (hwritten l hl) c hc hlower

/-- A printed text with an infinite number has a word in it that is no name. -/
theorem ofText_text_eq_ok_iff {e : Expr} {value : Float} {v : Evaluation}
    (hplus : ∀ value span, (Expr.number value span).IsNode e →
      Binary64.HasPlus value.toModel.unpack) (hvalue : e.result = .ok value) :
    ofText e.text = .ok v ↔
      (∀ value span, (Expr.number value span).IsNode e → value.isFinite = true) ∧
        v = ⟨(Normalized.ofText e.text).text, value, resultText value⟩ := by
  have hok : (∀ value span, (Expr.number value span).IsNode e → value.isFinite = true) →
      ofText e.text = .ok ⟨(Normalized.ofText e.text).text, value, resultText value⟩ :=
    fun hfinite => ofText_text (fun x span hn =>
      isUnsigned_of_hasPlus (hplus x span hn) (hfinite x span hn)) hvalue
  constructor
  · intro h
    have hfinite : ∀ value span, (Expr.number value span).IsNode e → value.isFinite = true := by
      intro x span hn
      refine Bool.eq_true_of_not_eq_false fun hinfinite => not_mem_of_ofText_ok h ?_
      have hword : (Expr.number x span).text = "inf".toList := by
        rw [Expr.text]
        exact literalText_of_hasPlus (hplus x span hn) hinfinite
      refine (Expr.text_infix_of_isNode hn).subset ?_
      rw [hword]
      decide
    exact ⟨hfinite, Except.ok.inj (h.symm.trans (hok hfinite))⟩
  · rintro ⟨hfinite, rfl⟩
    exact hok hfinite

/--
The operands quoted for a zero divisor are those of a quotient or remainder in the text. Each of them
can be typed again exactly if all numbers in it are finite, and the divisor then has the value zero.
-/
theorem ofText_quoted_operands {typed : List Char} {failure : Failure} {z : ZeroDivisor}
    (h : ofText typed = .error failure)
    (hz : failure = .divisionByZero z ∨ failure = .moduloByZero z) :
    ∃ e op left right span, parseText (Normalized.ofText typed).text = .ok e ∧
      (Expr.binary op left right span).IsNode e ∧ z.dividend = left.text ∧
      z.divisor = right.text ∧
      ((∃ v, ofText z.dividend = .ok v) ↔
        ∀ value span, (Expr.number value span).IsNode left → value.isFinite = true) ∧
      ((∃ v, ofText z.divisor = .ok v) ↔
        ∀ value span, (Expr.number value span).IsNode right → value.isFinite = true) ∧
      ∀ v, ofText z.divisor = .ok v → isZero v.value = true := by
  obtain ⟨inner, hnormal, rfl⟩ := exists_of_ofText_error h
  obtain ⟨z', hz', hdividend, hdivisor⟩ := Failure.quotes_of_mapSpan hz
  have hsemantic : inner.IsSemantic := by
    rcases hz' with rfl | rfl <;> exact trivial
  obtain ⟨_, d, hlex, hresult⟩ := exists_derivation_of_ofNormal hnormal hsemantic
  obtain ⟨hcheck, op, left, right, span, hn, rfl, ⟨x, hx⟩, y, hy, hzero⟩ :=
    Expr.exists_operands_of_result_error hresult hz'
  have hplus : ∀ {operand : Expr}, operand ∈ (Expr.binary op left right span).children →
      ∀ value place, (Expr.number value place).IsNode operand →
        Binary64.HasPlus value.toModel.unpack := by
    intro operand hchild value place hnumber
    exact d.hasPlus_of_isNode (Token.isWritten_of_lexFrom hlex)
      (Expr.isNode_trans (.under hchild hnumber) hn)
  have hleft := fun v => ofText_text_eq_ok_iff (v := v) (hplus (by simp [Expr.children])) hx
  have hright := fun v => ofText_text_eq_ok_iff (v := v) (hplus (by simp [Expr.children])) hy
  refine ⟨d.expr, op, left, right, span, ?_, hn, hdividend.symm, hdivisor.symm, ?_, ?_, ?_⟩
  · rw [parseText_of_derivation hlex, hcheck]
    rfl
  · rw [← hdividend]
    simp only [hleft, exists_and_left, exists_eq, and_true]
  · rw [← hdivisor]
    simp only [hright, exists_and_left, exists_eq, and_true]
  · intro v hv
    rw [← hdivisor] at hv
    rw [((hright v).mp hv).2]
    exact hzero

/-- A remainder by zero below a sum, typed with blanks and capitals. -/
theorem ofText_quoted_operands_of_zeroModulus :
    ofText " 1 + ROUND( 7 ) %\t(2 - 2)".toList =
        .error (.moduloByZero ⟨"round(7)".toList, "2 - 2".toList, ⟨5, 25⟩⟩) ∧
      ∃ e op left right span,
        parseText (Normalized.ofText " 1 + ROUND( 7 ) %\t(2 - 2)".toList).text = .ok e ∧
        (Expr.binary op left right span).IsNode e ∧ "round(7)".toList = left.text ∧
        "2 - 2".toList = right.text ∧
        ((∃ v, ofText "round(7)".toList = .ok v) ↔
          ∀ value span, (Expr.number value span).IsNode left → value.isFinite = true) ∧
        ((∃ v, ofText "2 - 2".toList = .ok v) ↔
          ∀ value span, (Expr.number value span).IsNode right → value.isFinite = true) ∧
        ∀ v, ofText "2 - 2".toList = .ok v → isZero v.value = true := by
  have h : ofText " 1 + ROUND( 7 ) %\t(2 - 2)".toList =
      .error (.moduloByZero ⟨"round(7)".toList, "2 - 2".toList, ⟨5, 25⟩⟩) := by
    decide +kernel
  exact ⟨h, ofText_quoted_operands h (.inr rfl)⟩

/-- With one digit too many an operand is quoted as a word that cannot be typed again. -/
theorem ofText_quoted_operands_of_overflow :
    ofText (List.replicate 309 '9' ++ "/0".toList) =
        .error (.divisionByZero ⟨"inf".toList, ['0'], ⟨0, 311⟩⟩) ∧
      ofText "inf".toList = .error (.lex ⟨.unknownFunction, "inf".toList, ⟨0, 3⟩⟩) := by
  decide +kernel

end Evaluation
end Abacus
