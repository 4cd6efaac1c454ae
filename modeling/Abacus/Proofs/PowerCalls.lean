import Abacus.Proofs.Expr.ZeroDivisors
import Abacus.Proofs.Grammar.Powers
/-!
A power can be typed in two ways.

Around the same operands the call `power(a,b)` and the operator in `(a)^(b)` have the same value, or
the same operand fails. The two failures are about the same piece of it.
-/

namespace Abacus

namespace Expr

/-- Where the calls of a tree have their arities, only a zero divisor can keep it from a value. -/
theorem zeroDivisor_of_result_error {e : Expr} {failure : Failure} (hcheck : e.checkArity = .ok ())
    (h : e.result = .error failure) :
    ∃ error z, (error = Failure.divisionByZero ∨ error = Failure.moduloByZero) ∧
      failure = error z := by
  rw [result_of_checkArity hcheck, evaluate, evaluateWith_eq hcheck] at h
  cases hfirst : e.nodes.findSome? (zeroDivision? .binary64) with
  | none =>
    rw [hfirst] at h
    contradiction
  | some x =>
    rw [hfirst] at h
    obtain ⟨n, _, hn⟩ := List.exists_of_findSome?_eq_some hfirst
    obtain ⟨op, left, right, span, _, _, hop⟩ := exists_of_zeroDivision?_eq_some hn
    rw [← Except.error.inj h]
    rcases hop with ⟨_, hx⟩ | ⟨_, hx⟩
    · exact ⟨_, _, .inl rfl, congrArg Failure.ofEvalError hx⟩
    · exact ⟨_, _, .inr rfl, congrArg Failure.ofEvalError hx⟩

end Expr

theorem Failure.mapSpan_zeroDivisor {error : ZeroDivisor → Failure}
    (h : error = divisionByZero ∨ error = moduloByZero) (f : Span → Span) (z : ZeroDivisor) :
    (error z).mapSpan f = error { z with span := f z.span } := by
  rcases h with h | h <;> rw [h] <;> rfl

/-! ## Typed powers -/

namespace Normalized

theorem withoutBlanks_powerCall (a b : List Char) :
    withoutBlanks (powerCall a b) = powerCall (withoutBlanks a) (withoutBlanks b) := by
  rw [powerCall, withoutBlanks_append, withoutBlanks_inBrackets, withoutBlanks_append,
    withoutBlanks_cons_of_not (by decide)]
  rfl

theorem withoutBlanks_raised (a b : List Char) :
    withoutBlanks (raised a b) = raised (withoutBlanks a) (withoutBlanks b) := by
  rw [raised, withoutBlanks_append, withoutBlanks_inBrackets, withoutBlanks_cons_of_not (by decide),
    withoutBlanks_inBrackets]
  rfl

theorem sameLetters_inBrackets {a a' : List Char} (h : sameLetters a a' = true) :
    sameLetters (inBrackets a) (inBrackets a') = true :=
  sameLetters_cons '(' (sameLetters_append h (sameLetters_refl [')']))

theorem sameLetters_powerCall {a a' b b' : List Char} (ha : sameLetters a a' = true)
    (hb : sameLetters b b' = true) : sameLetters (powerCall a b) (powerCall a' b') = true :=
  sameLetters_append (sameLetters_refl _)
    (sameLetters_inBrackets (sameLetters_append ha (sameLetters_cons ',' hb)))

theorem sameLetters_raised {a a' b b' : List Char} (ha : sameLetters a a' = true)
    (hb : sameLetters b b' = true) : sameLetters (raised a b) (raised a' b') = true :=
  sameLetters_append (sameLetters_inBrackets ha) (sameLetters_cons '^' (sameLetters_inBrackets hb))

section

variable {a b before piece after : List Char} {range : Span}

theorem Selects.toTyped_powerCall_left (h : Selects a range before piece after) (b : List Char) :
    (ofText (powerCall a b)).toTyped (range.ahead 6) = pieceAt 6 before piece := by
  have htyped : powerCall a b = "power(".toList ++ (a ++ (',' :: (b ++ [')']))) := by
    show Function.power.name ++ '(' :: ((a ++ ',' :: b) ++ [')']) = _
    rw [List.append_assoc]
    rfl
  rw [htyped]
  exact h.toTyped "power(".toList _

theorem Selects.toTyped_powerCall_right (h : Selects b range before piece after) (a : List Char) :
    (ofText (powerCall a b)).toTyped (range.ahead (7 + byteLength (ofText a).text)) =
      pieceAt (7 + byteLength a) before piece := by
  have htyped : powerCall a b = "power(".toList ++ (a ++ [',']) ++ (b ++ [')']) := by
    show Function.power.name ++ '(' :: ((a ++ ',' :: b) ++ [')']) = _
    simp only [List.append_assoc, List.cons_append, List.nil_append]
    rfl
  have hfront : withoutBlanks ("power(".toList ++ (a ++ [','])) =
      "power(".toList ++ (withoutBlanks a ++ [',']) := by
    rw [withoutBlanks_append, withoutBlanks_append]
    rfl
  have hlength : ∀ x, byteLength ("power(".toList ++ (x ++ [','])) = 7 + byteLength x := by
    intro x
    rw [byteLength_append, byteLength_append, show byteLength "power(".toList = 6 by decide,
      show byteLength [','] = 1 by decide]
    omega
  rw [htyped, byteLength_text, ← hlength a, ← hlength (withoutBlanks a), ← hfront]
  exact h.toTyped _ _

theorem Selects.toTyped_raised_left (h : Selects a range before piece after)
    (hinside : range.Inside ⟨0, byteLength (ofText a).text⟩) (b : List Char) :
    (ofText (raised a b)).toTyped (Span.bracketed ⟨0, byteLength (ofText a).text⟩ range) =
      pieceInBrackets 0 before piece after := by
  have := h.toTyped_inBrackets hinside [] ('^' :: inBrackets b)
  rwa [withoutBlanks, List.filter_nil, byteLength_nil, Span.ahead_zero, List.nil_append] at this

theorem Selects.toTyped_raised_right (h : Selects b range before piece after)
    (hinside : range.Inside ⟨0, byteLength (ofText b).text⟩) (a : List Char) :
    (ofText (raised a b)).toTyped ((Span.bracketed ⟨0, byteLength (ofText b).text⟩ range).ahead
      (byteLength (ofText a).text + 3)) =
      pieceInBrackets (byteLength a + 3) before piece after := by
  have htyped : raised a b = inBrackets a ++ ['^'] ++ (inBrackets b ++ []) := by
    rw [raised, List.append_nil, List.append_assoc]
    rfl
  have hfront : withoutBlanks (inBrackets a ++ ['^']) = inBrackets (withoutBlanks a) ++ ['^'] := by
    rw [withoutBlanks_append, withoutBlanks_inBrackets]
    rfl
  have hlength : ∀ x, byteLength (inBrackets x ++ ['^']) = byteLength x + 3 := by
    intro x
    rw [byteLength_append, byteLength_inBrackets]
    rfl
  rw [htyped, byteLength_text a, ← hlength a, ← hlength (withoutBlanks a), ← hfront]
  exact h.toTyped_inBrackets hinside _ _

end

end Normalized

namespace Evaluation

open Grammar Normalized

/-- The brackets of the text are paired, and it is an expression whose calls have their arities. -/
def PassesSyntax (typed : List Char) : Prop :=
  isBalanced (Normalized.ofText typed).text = true ∧
    (parseText (Normalized.ofText typed).text).isOk = true

instance (typed : List Char) : Decidable (PassesSyntax typed) :=
  inferInstanceAs (Decidable (_ ∧ _))

theorem exists_derivation_of_passesSyntax {typed : List Char} (h : PassesSyntax typed) :
    ∃ d : Derivation .sum, Token.lex (Normalized.ofText typed).text = .ok d.lexemes ∧
      d.expr.checkArity = .ok () := by
  obtain ⟨_, hparses⟩ := h
  cases hparse : parseText (Normalized.ofText typed).text with
  | error failure =>
    rw [hparse] at hparses
    contradiction
  | ok e =>
    obtain ⟨d, hlex, hexpr, hcheck⟩ := exists_derivation_of_parseText hparse
    rw [← hexpr] at hcheck
    exact ⟨d, hlex, hcheck⟩

/-- An operand whose syntax is right fails with a zero divisor, at a piece of what was typed. -/
theorem exists_selects_of_result_error {operand : List Char} {d : Derivation .sum}
    {failure : Failure} (hlex : Token.lex (Normalized.ofText operand).text = .ok d.lexemes)
    (hcheck : d.expr.checkArity = .ok ()) (h : d.expr.result = .error failure) :
    ∃ error dividend divisor range before piece after,
      (error = Failure.divisionByZero ∨ error = Failure.moduloByZero) ∧
      failure = error ⟨dividend, divisor, range⟩ ∧ Selects operand range before piece after ∧
      range.Inside ⟨0, byteLength (Normalized.ofText operand).text⟩ := by
  obtain ⟨error, ⟨dividend, divisor, range⟩, herror, hfailure⟩ :=
    Expr.zeroDivisor_of_result_error hcheck h
  obtain ⟨n, hn, _, hspan⟩ := Expr.exists_isNode_of_result_error h
  have hrange : range = n.span := by
    rw [hfailure] at hspan
    rcases herror with herror | herror <;> rw [herror] at hspan <;> exact Option.some.inj hspan
  obtain ⟨a, m, b, htext, hnspan, d', hlex', _⟩ := exists_slice_of_isNode hlex hn
  obtain ⟨before, piece, after, hselects⟩ :=
    exists_selects htext (Token.ne_nil_of_lexFrom hlex' d'.lexemes_ne_nil)
  rw [← hnspan, ← hrange] at hselects
  refine ⟨error, dividend, divisor, range, before, piece, after, herror, hfailure, hselects, ?_⟩
  rw [hrange, hnspan, htext]
  refine ⟨Nat.zero_le _, ?_⟩
  show byteLength (a ++ m) ≤ byteLength (a ++ m ++ b)
  rw [byteLength_append (a ++ m)]
  exact Nat.le_add_right _ _

/--
The typed text has the power of two results as its value. If one of them is a failure, it fails in
the same way, and `f` or `g` leads from the range in the failure to a range of the typed text.
-/
def HasPower (typed : List Char) (base exponent : Except Failure Float) (f g : Span → Span) : Prop :=
  ∃ normalized, ofText typed =
    (Expr.powerOf (base.mapError (Failure.mapSpan f)) (exponent.mapError (Failure.mapSpan g))).map
      fun value => ⟨normalized, value, resultText value⟩

section

variable {typed : List Char} {base exponent : Except Failure Float} {f g : Span → Span} {x y : Float}
  {failure : Failure}

theorem HasPower.of_ok (h : HasPower typed base exponent f g) (hbase : base = .ok x)
    (hexponent : exponent = .ok y) :
    ∃ e, ofText typed = .ok e ∧ e.value = x.pow y ∧ e.formatted = resultText (x.pow y) := by
  obtain ⟨normalized, h⟩ := h
  rw [hbase, hexponent] at h
  exact ⟨_, h, rfl, rfl⟩

theorem HasPower.of_base_error (h : HasPower typed base exponent f g)
    (hbase : base = .error failure) : ofText typed = .error (failure.mapSpan f) := by
  obtain ⟨normalized, h⟩ := h
  rw [h, hbase]
  rfl

theorem HasPower.of_exponent_error (h : HasPower typed base exponent f g) (hbase : base = .ok x)
    (hexponent : exponent = .error failure) : ofText typed = .error (failure.mapSpan g) := by
  obtain ⟨normalized, h⟩ := h
  rw [h, hbase, hexponent]
  rfl

theorem hasPower_of_derivation {m : List Char} {d : Derivation .sum}
    (hlex : Token.lex m = .ok d.lexemes) (hblank : withoutBlanks m = m)
    (hsame : sameLetters (withoutBlanks typed) m = true)
    (hresult : d.expr.result =
      Expr.powerOf (base.mapError (Failure.mapSpan f)) (exponent.mapError (Failure.mapSpan g))) :
    HasPower typed base exponent (fun span => (Normalized.ofText typed).toTyped (f span))
      (fun span => (Normalized.ofText typed).toTyped (g span)) := by
  obtain ⟨htext, hbalanced⟩ :=
    ofText_text_of_derivation hlex (isBlank_of_withoutBlanks_eq hblank) hsame
  refine ⟨m, ?_⟩
  show (ofNormal (Normalized.ofText typed).text).mapError _ = _
  rw [htext, ofNormal_of_derivation hbalanced hlex, hresult]
  cases base with
  | error failure => exact congrArg Except.error (failure.mapSpan_mapSpan f _)
  | ok x =>
    cases exponent with
    | error failure => exact congrArg Except.error (failure.mapSpan_mapSpan g _)
    | ok y => rfl

end

section

variable {a b : List Char} {left right : Derivation .sum}
  (hleft : Token.lex (Normalized.ofText a).text = .ok left.lexemes)
  (hright : Token.lex (Normalized.ofText b).text = .ok right.lexemes)
  (hcheckLeft : left.expr.checkArity = .ok ()) (hcheckRight : right.expr.checkArity = .ok ())
include hleft hright hcheckLeft hcheckRight

theorem hasPower_powerCall :
    HasPower (powerCall a b) left.expr.result right.expr.result
      (fun span => (Normalized.ofText (powerCall a b)).toTyped (span.ahead 6))
      (fun span => (Normalized.ofText (powerCall a b)).toTyped
        (span.ahead (7 + byteLength (Normalized.ofText a).text))) := by
  obtain ⟨d, span, hlex, hexpr⟩ := exists_derivation_powerCall hleft hright
  apply hasPower_of_derivation hlex
  · rw [withoutBlanks_powerCall, withoutBlanks_text, withoutBlanks_text]
  · rw [withoutBlanks_powerCall]
    exact sameLetters_powerCall (sameLetters_symm (sameLetters_text a))
      (sameLetters_symm (sameLetters_text b))
  · rw [hexpr, Expr.result_call_power (Expr.checkArity_mapSpan_eq_ok _ hcheckLeft)
      (Expr.checkArity_mapSpan_eq_ok _ hcheckRight), Expr.result_mapSpan, Expr.result_mapSpan]

theorem hasPower_raised :
    HasPower (raised a b) left.expr.result right.expr.result
      (fun span => (Normalized.ofText (raised a b)).toTyped
        (Span.bracketed ⟨0, byteLength (Normalized.ofText a).text⟩ span))
      (fun span => (Normalized.ofText (raised a b)).toTyped
        ((Span.bracketed ⟨0, byteLength (Normalized.ofText b).text⟩ span).ahead
          (byteLength (Normalized.ofText a).text + 3))) := by
  have hgap : ∀ typed, ∀ c ∈ (Normalized.ofText typed).text, Token.isGap c = false :=
    fun typed c hc => Token.isGap_eq_false (isBlank_of_mem_text hc)
  obtain ⟨d, hlex, hexpr⟩ := exists_derivation_raised hleft hright (hgap a) (hgap b)
  apply hasPower_of_derivation hlex
  · rw [withoutBlanks_raised, withoutBlanks_text, withoutBlanks_text]
  · rw [withoutBlanks_raised]
    exact sameLetters_raised (sameLetters_symm (sameLetters_text a))
      (sameLetters_symm (sameLetters_text b))
  · rw [hexpr, Expr.mapSpan_mapSpan, Expr.result_join_pow (Expr.checkArity_mapSpan_eq_ok _ hcheckLeft)
      (Expr.checkArity_mapSpan_eq_ok _ hcheckRight), Expr.result_mapSpan, Expr.result_mapSpan]

end

/-- The two ranges are those of one piece of the operand, the second of them after brackets. -/
def LocatesPiece (operand : List Char) (start opening : Nat) (bare bracketed : Span) : Prop :=
  ∃ before piece after, operand = before ++ piece ++ after ∧ IsTrimmed piece ∧
    bare = pieceAt start before piece ∧ bracketed = pieceInBrackets opening before piece after

/-- Two texts that fail where their operand fails have the same zero divisor at the same piece of it. -/
theorem exists_zeroDivisor_of_operand {operand typed typed' : List Char} {d : Derivation .sum}
    {failure : Failure} {f g : Span → Span} {start opening : Nat}
    (hlex : Token.lex (Normalized.ofText operand).text = .ok d.lexemes)
    (hcheck : d.expr.checkArity = .ok ()) (h : d.expr.result = .error failure)
    (hbare : ofText typed = .error (failure.mapSpan f))
    (hbracketed : ofText typed' = .error (failure.mapSpan g))
    (hf : ∀ {range before piece after}, Selects operand range before piece after →
      f range = pieceAt start before piece)
    (hg : ∀ {range before piece after}, Selects operand range before piece after →
      range.Inside ⟨0, byteLength (Normalized.ofText operand).text⟩ →
      g range = pieceInBrackets opening before piece after) :
    ∃ error dividend divisor s t,
      (error = Failure.divisionByZero ∨ error = Failure.moduloByZero) ∧
      ofText typed = .error (error ⟨dividend, divisor, s⟩) ∧
      ofText typed' = .error (error ⟨dividend, divisor, t⟩) ∧
      LocatesPiece operand start opening s t := by
  obtain ⟨error, dividend, divisor, range, before, piece, after, herror, hfailure, hselects,
    hinside⟩ := exists_selects_of_result_error hlex hcheck h
  rw [hfailure, Failure.mapSpan_zeroDivisor herror] at hbare hbracketed
  exact ⟨error, dividend, divisor, _, _, herror, hbare, hbracketed, before, piece, after,
    hselects.operand_eq, hselects.isTrimmed, hf hselects, hg hselects hinside⟩

/--
The call and the operator have the same value, or both fail with the same zero divisor. The ranges in
the two failures are those of one piece of one of the operands; only where the piece is the whole
operand does the second take in the brackets around it.
-/
theorem ofText_powerCall {a b : List Char} (ha : PassesSyntax a) (hb : PassesSyntax b) :
    (∃ x y, ofText (powerCall a b) = .ok x ∧ ofText (raised a b) = .ok y ∧ x.value = y.value ∧
        x.formatted = y.formatted) ∨
      ∃ error dividend divisor s t,
        (error = Failure.divisionByZero ∨ error = Failure.moduloByZero) ∧
        ofText (powerCall a b) = .error (error ⟨dividend, divisor, s⟩) ∧
        ofText (raised a b) = .error (error ⟨dividend, divisor, t⟩) ∧
        (LocatesPiece a 6 0 s t ∨ LocatesPiece b (7 + byteLength a) (byteLength a + 3) s t) := by
  obtain ⟨left, hleft, hcheckLeft⟩ := exists_derivation_of_passesSyntax ha
  obtain ⟨right, hright, hcheckRight⟩ := exists_derivation_of_passesSyntax hb
  have hcall := hasPower_powerCall hleft hright hcheckLeft hcheckRight
  have hraised := hasPower_raised hleft hright hcheckLeft hcheckRight
  cases hbase : left.expr.result with
  | error failure =>
    obtain ⟨error, dividend, divisor, s, t, herror, hs, ht, hpiece⟩ :=
      exists_zeroDivisor_of_operand hleft hcheckLeft hbase (hcall.of_base_error hbase)
        (hraised.of_base_error hbase) (fun h => h.toTyped_powerCall_left b)
        (fun h hinside => h.toTyped_raised_left hinside b)
    exact .inr ⟨error, dividend, divisor, s, t, herror, hs, ht, .inl hpiece⟩
  | ok x =>
    -- The exponent is looked at only if the base has a value.
    cases hexponent : right.expr.result with
    | error failure =>
      obtain ⟨error, dividend, divisor, s, t, herror, hs, ht, hpiece⟩ :=
        exists_zeroDivisor_of_operand hright hcheckRight hexponent
          (hcall.of_exponent_error hbase hexponent) (hraised.of_exponent_error hbase hexponent)
          (fun h => h.toTyped_powerCall_right a) (fun h hinside => h.toTyped_raised_right hinside a)
      exact .inr ⟨error, dividend, divisor, s, t, herror, hs, ht, .inr hpiece⟩
    | ok y =>
      obtain ⟨e, he, hvalue, hformatted⟩ := hcall.of_ok hbase hexponent
      obtain ⟨e', he', hvalue', hformatted'⟩ := hraised.of_ok hbase hexponent
      exact .inl ⟨e, e', he, he', hvalue.trans hvalue'.symm, hformatted.trans hformatted'.symm⟩

/-- A remainder in the second operand, with a sum and blanks around it. -/
theorem ofText_powerCall_of_zeroModulus :
    let a := ['2']
    let b := " 1 + 6 %\t(2-2)".toList
    PassesSyntax a ∧ PassesSyntax b ∧
      ∃ s t, ofText (powerCall a b) = .error (.moduloByZero ⟨['6'], "2 - 2".toList, s⟩) ∧
        ofText (raised a b) = .error (.moduloByZero ⟨['6'], "2 - 2".toList, t⟩) ∧
        (LocatesPiece a 6 0 s t ∨ LocatesPiece b 8 4 s t) := by
  intro a b
  have ha : PassesSyntax a := by decide +kernel
  have hb : PassesSyntax b := by decide +kernel
  have hcall : ofText (powerCall a b) =
      .error (.moduloByZero ⟨['6'], "2 - 2".toList, ⟨13, 22⟩⟩) := by
    decide +kernel
  refine ⟨ha, hb, ?_⟩
  rcases ofText_powerCall ha hb with ⟨x, _, hx, _⟩ | ⟨error, dividend, divisor, s, t, herror, hrest⟩
  · rw [hcall] at hx
    contradiction
  · obtain ⟨hfirst, hsecond, hpiece⟩ := hrest
    rw [hcall] at hfirst
    rcases herror with herror | herror
    · rw [herror] at hfirst
      cases hfirst
    · rw [herror] at hfirst hsecond
      cases hfirst
      exact ⟨_, t, hcall, hsecond, hpiece⟩

/-- In brackets an operand that fails as a whole is no piece of itself: the brackets are selected too. -/
theorem ofText_powerCall_of_whole_operand :
    let a := "1/0".toList
    let b := ['2']
    PassesSyntax a ∧ PassesSyntax b ∧
      ofText (powerCall a b) = .error (.divisionByZero ⟨['1'], ['0'], ⟨6, 9⟩⟩) ∧
      ofText (raised a b) = .error (.divisionByZero ⟨['1'], ['0'], ⟨0, 5⟩⟩) ∧
      ¬ ∃ before piece after,
        a = before ++ piece ++ after ∧ ⟨6, 9⟩ = pieceAt 6 before piece ∧
            ⟨0, 5⟩ = pieceAt 1 before piece ∨
          b = before ++ piece ++ after ∧ ⟨6, 9⟩ = pieceAt (7 + byteLength a) before piece ∧
            ⟨0, 5⟩ = pieceAt (byteLength a + 4) before piece := by
  intro a b
  refine ⟨by decide +kernel, by decide +kernel, by decide +kernel, by decide +kernel, ?_⟩
  rintro ⟨before, piece, after, ⟨_, _, hplace⟩ | ⟨_, _, hplace⟩⟩
  · have hstart : 0 = 1 + byteLength before := congrArg Span.start hplace
    omega
  · have hstart : 0 = byteLength a + 4 + byteLength before := congrArg Span.start hplace
    omega

end Evaluation
end Abacus
