import Abacus.Proofs.Calculation
import Abacus.Proofs.Grammar.Refusal
import Abacus.Proofs.Grammar.Spelling
/-!
The brackets that are open while a balanced text is parsed.

The parser has one frame for every bracket that is open, so it counts as the check for balance does.
After a complete operand in a balanced text, a closing bracket has a frame to close, and at the end
no frame is left. Both are unexpected only after the name of a function.
-/

namespace Abacus

/-- A message about a closing bracket or the end is about that, and not about another token. -/
theorem ParseError.eq_of_foundText {found : Option Token} (hfound : ∀ t ∈ found, t.IsWritten)
    (h : foundText found = "')'".toList ∨ foundText found = "end of input".toList) :
    found = some .closeBracket ∨ found = none := by
  cases found with
  | none => exact .inr rfl
  | some t =>
    rcases h with h | h
    · have htext : t.text ++ ['\''] = Token.closeBracket.text ++ ['\''] :=
        (List.cons_inj_right _).mp h
      have hbracket : t = .closeBracket :=
        Token.eq_of_text (hfound t rfl) (by trivial) (List.append_cancel_right htext)
      exact .inl (congrArg some hbracket)
    · have hquote : '\'' = 'e' := (List.cons.inj h).1
      contradiction

namespace Grammar
namespace Reading

/-! ## Counting frames -/

/-- The number of brackets that are open. -/
def depth : Reading → Nat
  | operand _ _ frames | arguments _ _ _ _ frames | operator _ _ frames => frames.length

theorem depth_close {inside : Option (Derivation .sum)} {closing : Span} {frames : List Frame}
    {r : Reading} (h : close inside closing frames = some r) : frames.length = r.depth + 1 := by
  obtain ⟨_, _, _, rfl, rfl⟩ := eq_operator_of_close h
  rfl

theorem depth_advance {r s : Reading} {l : Lexeme} (h : r.advance l = some s) :
    match l.token with
    | .openBracket => s.depth = r.depth + 1
    | .closeBracket => r.depth = s.depth + 1
    | _ => s.depth = r.depth := by
  obtain ⟨token, span⟩ := l
  cases r with
  | operand p minuses frames =>
    cases token with
    | operator op =>
      cases op with
      | sub => cases h; rfl
      | _ => contradiction
    | closeBracket =>
      simp only [advance] at h
      split at h
      · exact depth_close h
      · contradiction
    | comma => contradiction
    | _ => cases h; rfl
  | arguments f name p minuses frames =>
    cases token with
    | openBracket => cases h; rfl
    | _ => contradiction
  | operator u p frames =>
    cases token with
    | operator op => cases h; rfl
    | closeBracket => exact depth_close h
    | comma =>
      cases frames with
      | nil => contradiction
      | cons frame frames =>
        obtain ⟨opening, outside, minuses⟩ := frame
        cases opening with
        | group opening => contradiction
        | call f name opening before => cases h; rfl
    | _ => contradiction

/-- Reading a token changes the number of frames as its text changes the count of the check. -/
theorem closesFrom_advance {r s : Reading} {l : Lexeme} (h : r.advance l = some s)
    (hl : l.token.IsWritten) (rest : List Char) :
    closesFrom r.depth (l.token.text ++ rest) = closesFrom s.depth rest := by
  have hdepth := depth_advance h
  obtain ⟨token, span⟩ := l
  have hbalanced := fun ho hc => closesFrom_append (Token.isBalanced_text hl ho hc) r.depth rest
  rw [Nat.zero_add] at hbalanced
  cases token with
  | openBracket =>
    rw [hdepth]
    cases r.depth <;> rfl
  | closeBracket =>
    rw [hdepth]
    rfl
  | number text | function f | operator op | comma =>
    rw [hdepth]
    exact hbalanced (by simp) (by simp)

theorem closesFrom_run {r s : Reading} {lexemes : List Lexeme} (h : r.run lexemes = some s)
    (hwritten : ∀ l ∈ lexemes, l.token.IsWritten) (rest : List Char) :
    closesFrom r.depth (joinedText lexemes ++ rest) = closesFrom s.depth rest := by
  induction lexemes generalizing r with
  | nil =>
    cases h
    rfl
  | cons l lexemes ih =>
    rw [run_cons] at h
    obtain ⟨t, ht, hs⟩ := Option.bind_eq_some_iff.mp h
    obtain ⟨hl, hwritten⟩ := List.forall_mem_cons.mp hwritten
    rw [joinedText_cons, List.append_assoc, closesFrom_advance ht hl, ih hs hwritten]

section

variable {text : List Char} {r : Reading}

/-- What was read of a balanced text has as many brackets open as the rest closes. -/
theorem closesFrom_rest {before after : List Lexeme}
    (hlex : Token.lex text = .ok (before ++ after)) (hbalanced : isBalanced text = true)
    (hr : start.run before = some r) : closesFrom r.depth (joinedText after) = true := by
  have hwritten := Token.isWritten_of_lexFrom hlex
  have hjoined : closesFrom 0 (joinedText before ++ joinedText after) = true := by
    rw [← joinedText_append, ← closesFrom_of_lexFrom hlex]
    exact hbalanced
  rw [← hjoined]
  exact (closesFrom_run hr (fun l hl => hwritten l (List.mem_append_left _ hl)) _).symm

theorem depth_pos_of_closeBracket {before after : List Lexeme} {closing : Span}
    (hlex : Token.lex text = .ok (before ++ ⟨.closeBracket, closing⟩ :: after))
    (hbalanced : isBalanced text = true) (hr : start.run before = some r) : 0 < r.depth := by
  have hrest := closesFrom_rest hlex hbalanced hr
  by_contra hzero
  rw [Nat.eq_zero_of_not_pos hzero] at hrest
  contradiction

theorem depth_eq_zero_of_end {lexemes : List Lexeme} (hlex : Token.lex text = .ok lexemes)
    (hbalanced : isBalanced text = true) (hr : start.run lexemes = some r) : r.depth = 0 := by
  rw [← List.append_nil lexemes] at hlex
  exact beq_iff_eq.mp (closesFrom_rest hlex hbalanced hr)

end

/-! ## What is refused without a missing operand -/

theorem advance_closeBracket_isSome {u : Derivation .unary} {p : Pending} {frames : List Frame}
    (h : 0 < frames.length) (closing : Span) :
    ((operator u p frames).advance ⟨.closeBracket, closing⟩).isSome = true := by
  cases frames with
  | nil => contradiction
  | cons frame frames =>
    obtain ⟨opening, outside, minuses⟩ := frame
    cases opening <;> rfl

theorem finish?_isSome {u : Derivation .unary} {p : Pending} {frames : List Frame}
    (h : frames.length = 0) : (operator u p frames).finish?.isSome = true := by
  rw [List.eq_nil_of_length_eq_zero h]
  rfl

/-- The name of a function whose bracket has to follow is the last token that was read. -/
theorem eq_append_name_of_run {lexemes : List Lexeme} {f : Function} {name : Span} {p : Pending}
    {minuses : List Span} {frames : List Frame}
    (h : start.run lexemes = some (arguments f name p minuses frames)) :
    ∃ before, lexemes = before ++ [⟨.function f, name⟩] := by
  have hlexemes := lexemes_run h
  rw [Reading.lexemes, ← List.append_assoc, ← List.append_assoc] at hlexemes
  exact ⟨_, hlexemes.symm⟩

/-- Where no operand is expected, one has just been completed or a function been named. -/
theorem exists_operand_or_name {lexemes : List Lexeme} {r : Reading}
    (hr : start.run lexemes = some r) (he : r.expectsOperand = false) :
    (∃ u p frames, r = operator u p frames) ∨
      ∃ front f name, lexemes = front ++ [⟨.function f, name⟩] := by
  cases r with
  | operand p minuses frames => contradiction
  | arguments f name p minuses frames =>
    obtain ⟨front, hfront⟩ := eq_append_name_of_run hr
    exact .inr ⟨front, f, name, hfront⟩
  | operator u p frames => exact .inl ⟨u, p, frames, rfl⟩

theorem exists_name_of_refused {before : List Lexeme} {r : Reading} {closing : Span}
    (hr : start.run before = some r) (hdepth : 0 < r.depth) (he : r.expectsOperand = false)
    (hl : r.advance ⟨.closeBracket, closing⟩ = none) :
    ∃ front f name, before = front ++ [⟨.function f, name⟩] := by
  rcases exists_operand_or_name hr he with ⟨u, p, frames, rfl⟩ | hname
  · have hsome := advance_closeBracket_isSome (u := u) (p := p) hdepth closing
    rw [hl] at hsome
    contradiction
  · exact hname

theorem exists_name_of_end {lexemes : List Lexeme} {r : Reading}
    (hr : start.run lexemes = some r) (hdepth : r.depth = 0) (he : r.expectsOperand = false)
    (hfinish : r.finish? = none) : ∃ front f name, lexemes = front ++ [⟨.function f, name⟩] := by
  rcases exists_operand_or_name hr he with ⟨u, p, frames, rfl⟩ | hname
  · have hsome := finish?_isSome (u := u) (p := p) hdepth
    rw [hfinish] at hsome
    contradiction
  · exact hname

end Reading

/-- In a balanced text, a closing bracket or the end is unexpected only after a function's name. -/
theorem exists_name_of_tree_error {text : List Char} {lexemes : List Lexeme} {found : Option Token}
    {span : Span} (hlex : Token.lex text = .ok lexemes) (hbalanced : isBalanced text = true)
    (h : Parser.tree lexemes (byteLength text) = .error (.unexpected found span))
    (hfound : ParseError.foundText found = "')'".toList ∨
      ParseError.foundText found = "end of input".toList) :
    ∃ before f name after, lexemes = before ++ ⟨.function f, name⟩ :: after ∧
      after.head?.map Lexeme.token = found ∧
      span = after.head?.elim (.endOf (byteLength text)) Lexeme.span := by
  by_cases hnil : lexemes = []
  · subst hnil
    cases h
  rcases Reading.start.run_or_refused lexemes with ⟨r, hr⟩ | ⟨before, l, after, r, rfl, hr, hl⟩
  · rw [tree_of_run _ hr hnil] at h
    cases hfinish : r.finish? with
    | some d =>
      rw [hfinish] at h
      contradiction
    | none =>
      rw [hfinish, classify_end hlex hr] at h
      by_cases he : r.expectsOperand = true
      · rw [if_pos he] at h
        cases h
      · rw [if_neg he] at h
        cases h
        have hdepth := Reading.depth_eq_zero_of_end hlex hbalanced hr
        obtain ⟨front, f, name, rfl⟩ :=
          Reading.exists_name_of_end hr hdepth (Bool.eq_false_iff.mpr he) hfinish
        exact ⟨front, f, name, [], rfl, rfl, rfl⟩
  · rw [tree_of_refused _ hr hl, classify_refused hlex hr hl] at h
    by_cases he : r.expectsOperand = true
    · rw [if_pos he] at h
      cases h
    · rw [if_neg he] at h
      cases h
      have hwritten : ∀ t ∈ some l.token, t.IsWritten := by
        intro t ht
        cases ht
        exact Token.isWritten_of_lexFrom hlex l (by simp)
      obtain hclose | hnone := ParseError.eq_of_foundText hwritten hfound
      · obtain ⟨token, closing⟩ := l
        cases hclose
        have hdepth := Reading.depth_pos_of_closeBracket hlex hbalanced hr
        obtain ⟨front, f, name, rfl⟩ :=
          Reading.exists_name_of_refused hr hdepth (Bool.eq_false_iff.mpr he) hl
        exact ⟨front, f, name, ⟨.closeBracket, closing⟩ :: after, by simp, rfl, rfl⟩
      · contradiction

end Grammar

namespace Evaluation

/-- A text that the parser refuses is balanced and made of tokens. -/
theorem tree_error_of_ofNormal {text : List Char} {p : ParseError}
    (h : ofNormal text = .error (.parse p)) :
    isBalanced text = true ∧ ∃ lexemes, Token.lex text = .ok lexemes ∧
      Parser.tree lexemes (byteLength text) = .error p := by
  rcases ofNormal_error_cases h with ⟨_, he⟩ | ⟨hbalanced, ⟨_, _, he⟩ | ⟨lexemes, hlex, hvalue⟩⟩
  · cases he
  · cases he
  · rcases valueOf_error_cases hvalue with ⟨q, htree, he⟩ | ⟨d, _, hresult⟩
    · cases he
      exact ⟨hbalanced, lexemes, hlex, htree⟩
    · exact absurd (Expr.isSemantic_of_result hresult) id

/--
When a closing bracket or the end of the input is unexpected, the token just before that place in
the normal form is the name of a function. So after an operand a closing bracket always closes one
that is open, and the end always ends the expression.
-/
theorem functionName_before_unexpected {typed : List Char} {found : Option Token} {span : Span}
    (h : ofText typed = .error (.parse (.unexpected found span)))
    (hfound : ParseError.foundText found = "')'".toList ∨
      ParseError.foundText found = "end of input".toList) :
    let n := Normalized.ofText typed
    ∃ before f name after, Token.lex n.text = .ok (before ++ ⟨.function f, name⟩ :: after) ∧
      after.head?.map Lexeme.token = found ∧
      span = n.toTyped (after.head?.elim (.endOf (byteLength n.text)) Lexeme.span) := by
  intro n
  obtain ⟨e, hnormal, he⟩ := exists_of_ofText_error h
  obtain ⟨inner, rfl, rfl⟩ : ∃ inner, e = .parse (.unexpected found inner) ∧
      span = n.toTyped inner := by
    cases e with
    | parse p =>
      cases p with
      | unexpected found' inner =>
        cases he
        exact ⟨inner, rfl, rfl⟩
      | _ => cases he
    | _ => cases he
  obtain ⟨hbalanced, lexemes, hlex, htree⟩ := tree_error_of_ofNormal hnormal
  obtain ⟨before, f, name, after, rfl, hhead, hspan⟩ :=
    Grammar.exists_name_of_tree_error hlex hbalanced htree hfound
  exact ⟨before, f, name, after, hlex, hhead, congrArg n.toTyped hspan⟩

/-- The name of a function is followed by a closing bracket, blanks apart. -/
theorem functionName_before_unexpected_of_bare_name :
    ofText "2 * ( sqrt )".toList = .error (.parse (.unexpected (some .closeBracket) ⟨11, 12⟩)) ∧
      ∃ before f name after,
        Token.lex (Normalized.ofText "2 * ( sqrt )".toList).text =
          .ok (before ++ ⟨.function f, name⟩ :: after) ∧
        after.head?.map Lexeme.token = some .closeBracket := by
  have h : ofText "2 * ( sqrt )".toList =
      .error (.parse (.unexpected (some .closeBracket) ⟨11, 12⟩)) := by
    decide +kernel
  obtain ⟨before, f, name, after, hlex, hhead, _⟩ := functionName_before_unexpected h (.inl rfl)
  exact ⟨h, before, f, name, after, hlex, hhead⟩

end Evaluation
end Abacus
