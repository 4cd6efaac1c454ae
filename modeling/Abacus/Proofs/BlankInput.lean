import Abacus.Proofs.Normalized
import Abacus.Proofs.Positions
import Abacus.Proofs.Shell
/-!
Which texts are reported as empty.

A text is reported as empty exactly if all its characters are blank. The normal form drops every
blank, so the narrower set of gaps between tokens makes no difference. Runs over lines and the prompt
look at the same set of blanks before they evaluate anything, so neither of them reports a text as
empty.
-/

namespace Abacus

namespace Normalized

theorem text_eq_nil_iff {typed : List Char} :
    (ofText typed).text = [] ↔ ∀ c ∈ typed, isBlank c = true := by
  rw [← withoutBlanks_eq_nil_iff]
  have hsame := sameLetters_text typed
  constructor
  · intro h
    rw [h] at hsame
    exact eq_of_sameLetters (sameLetters_symm hsame) (by simp)
  · intro h
    rw [h] at hsame
    exact eq_of_sameLetters hsame (by simp)

end Normalized

namespace Parser

/-- Only a text without tokens is empty to the parser; every other refusal has a place. -/
theorem tree_eq_emptyExpression_iff {lexemes : List Lexeme} {length : Nat} :
    tree lexemes length = .error .emptyExpression ↔ lexemes = [] := by
  constructor
  · intro h
    by_contra hne
    have hclassify : ∀ found, classify lexemes found length ≠ .emptyExpression := by
      intro found heq
      have hspan := span?_classify lexemes found length
      rw [heq] at hspan
      contradiction
    unfold tree at h
    rw [if_neg (by simpa using hne)] at h
    cases hrun : run (.operand {} []) lexemes with
    | error l =>
      rw [hrun] at h
      exact hclassify _ (Except.error.inj h)
    | ok s =>
      rw [hrun] at h
      dsimp only at h
      cases hfinish : finish? s with
      | some e =>
        rw [hfinish] at h
        contradiction
      | none =>
        rw [hfinish] at h
        exact hclassify _ (Except.error.inj h)
  · intro h
    rw [h]
    rfl

end Parser

theorem Failure.eq_empty_of_mapSpan {f : Span → Span} {e : Failure}
    (h : e.mapSpan f = .parse .emptyExpression) : e = .parse .emptyExpression := by
  cases e with
  | parse p =>
    cases p with
    | emptyExpression => rfl
    | unexpected found span | missingOperand span => cases h
  | _ => cases h

namespace Evaluation

/-- A text in normal form is reported as empty only if nothing is left in it. -/
theorem eq_nil_of_ofNormal_empty {text : List Char} (hblank : ∀ c ∈ text, isBlank c = false)
    (h : ofNormal text = .error (.parse .emptyExpression)) : text = [] := by
  rcases ofNormal_error_cases h with ⟨_, hfailure⟩ | ⟨_, ⟨_, _, hfailure⟩ | ⟨lexemes, hlex, hvalue⟩⟩
  · contradiction
  · contradiction
  · rcases valueOf_error_cases hvalue with ⟨p, hp, hfailure⟩ | ⟨d, _, hresult⟩
    · cases hfailure
      rw [Parser.tree_eq_emptyExpression_iff.mp hp] at hlex
      apply List.eq_nil_iff_forall_not_mem.mpr
      intro c hc
      have hgap := Token.isBlank_of_isGap (Token.lexFrom_eq_nil hlex c hc)
      rw [hblank c hc] at hgap
      contradiction
    · exact absurd (Expr.isSemantic_of_result hresult) id

theorem ofNormal_nil : ofNormal [] = .error (.parse .emptyExpression) := by
  decide +kernel

/-- A typed text is reported as empty exactly if it is blank. -/
theorem ofText_eq_empty_iff {typed : List Char} :
    ofText typed = .error (.parse .emptyExpression) ↔ ∀ c ∈ typed, isBlank c = true := by
  rw [← Normalized.text_eq_nil_iff]
  constructor
  · intro h
    obtain ⟨failure, hnormal, hmoved⟩ := exists_of_ofText_error h
    rw [Failure.eq_empty_of_mapSpan hmoved.symm] at hnormal
    exact eq_nil_of_ofNormal_empty (fun c hc => Normalized.isBlank_of_mem_text hc) hnormal
  · intro h
    show (ofNormal (Normalized.ofText typed).text).mapError _ = _
    rw [h, ofNormal_nil]
    rfl

theorem ofText_trim_ne_empty {line : List Char} (h : (trim line).isEmpty = false) :
    ofText (trim line) ≠ .error (.parse .emptyExpression) := by
  intro hempty
  have hblank := ofText_eq_empty_iff.mp hempty
  rw [← trim_eq_nil_iff, trim_trim] at hblank
  rw [hblank] at h
  contradiction

end Evaluation

namespace Outcome

theorem result_ne_empty {number : Nat} {lines : List (List Char)} {o : Outcome}
    (h : o ∈ ofLines number lines) : o.result ≠ .error (.parse .emptyExpression) := by
  obtain ⟨⟨line, i⟩, _, ho⟩ := List.mem_filterMap.mp h
  change ofLine? i line = some o at ho
  rw [ofLine?_eq_ite] at ho
  by_cases hblank : (trim line).isEmpty = true
  · rw [if_pos hblank] at ho
    contradiction
  · rw [if_neg hblank] at ho
    rw [← Option.some.inj ho]
    exact Evaluation.ofText_trim_ne_empty (Bool.eq_false_iff.mpr hblank)

end Outcome

theorem Batch.result_ne_empty {session : Session} {lines : List Line} {o : Outcome}
    (h : o ∈ (run session lines).outcomes) : o.result ≠ .error (.parse .emptyExpression) := by
  rw [run, runFrom_eq] at h
  exact Outcome.result_ne_empty h

theorem Command.isEmpty_of_ofLine_eq_evaluate {line expression : List Char}
    (h : ofLine line = evaluate expression) : (trim line).isEmpty = false := by
  refine Bool.eq_false_iff.mpr fun hempty => ?_
  simp only [ofLine] at h
  rw [if_pos hempty] at h
  contradiction

theorem Session.evaluate_ne_empty (session : Session) {line expression : List Char}
    (h : Command.ofLine line = .evaluate expression) :
    (session.evaluate expression).1 ≠ .error (.parse .emptyExpression) := by
  rw [Command.eq_trim_of_ofLine_eq_evaluate h, fst_evaluate_trim]
  exact Evaluation.ofText_trim_ne_empty (Command.isEmpty_of_ofLine_eq_evaluate h)

namespace Shell

/-- A line at the prompt evaluates no blank text, be it an expression or a command about a file. -/
theorem evaluated_ne_empty (files : Files) (session : Session) (line : List Char) :
    ∀ r ∈ evaluated files session (Command.ofLine line),
      r.2 ≠ .error (.parse .emptyExpression) := by
  intro r hr
  cases hcommand : Command.ofLine line with
  | evaluate expression =>
    rw [hcommand, evaluated, List.mem_singleton] at hr
    rw [hr]
    exact session.evaluate_ne_empty hcommand
  | file path =>
    rw [hcommand, evaluated] at hr
    obtain ⟨o, ho, hor⟩ := List.mem_map.mp hr
    rw [Batch.runFile_eq_run] at ho
    rw [← hor]
    exact Batch.result_ne_empty ho
  | exit | history | help | blank | fileMissingPath =>
    rw [hcommand, evaluated] at hr
    exact absurd hr List.not_mem_nil

theorem evaluations_ne_empty (files : Files) (config : Config) (session : Session)
    (lines : List (List Char)) :
    ∀ r ∈ evaluations files config session lines, r.2 ≠ .error (.parse .emptyExpression) := by
  induction lines generalizing session with
  | nil =>
    intro r hr
    exact absurd hr List.not_mem_nil
  | cons line lines ih =>
    intro r hr
    rw [evaluations] at hr
    rcases hturn : turn files config session (.ok line) with ⟨_, session'⟩ | ⟨_, _⟩
    · rw [hturn] at hr
      rcases List.mem_append.mp hr with hr | hr
      · exact evaluated_ne_empty files session line r hr
      · exact ih session' r hr
    · rw [hturn] at hr
      exact absurd hr List.not_mem_nil

end Shell

/--
A text is reported as empty exactly if all its characters are blank. So nothing that a run over lines
or over a file reports, and nothing that the lines of a session evaluate, is reported as empty.
-/
theorem Evaluation.emptyExpression_iff_blank :
    (∀ typed, ofText typed = .error (.parse .emptyExpression) ↔ ∀ c ∈ typed, isBlank c = true) ∧
      (∀ session lines, ∀ o ∈ (Batch.run session lines).outcomes,
        o.result ≠ .error (.parse .emptyExpression)) ∧
      (∀ files session path, ∀ o ∈ (Batch.runFile files session path).outcomes,
        o.result ≠ .error (.parse .emptyExpression)) ∧
      (∀ (session : Session) line expression, Command.ofLine line = .evaluate expression →
        (session.evaluate expression).1 ≠ .error (.parse .emptyExpression)) ∧
      ∀ files config session lines, ∀ r ∈ Shell.evaluations files config session lines,
        r.2 ≠ .error (.parse .emptyExpression) := by
  refine ⟨fun typed => ofText_eq_empty_iff, fun session lines o ho => Batch.result_ne_empty ho, ?_,
    fun session line expression h => session.evaluate_ne_empty h, Shell.evaluations_ne_empty⟩
  intro files session path o ho
  rw [Batch.runFile_eq_run] at ho
  exact Batch.result_ne_empty ho

end Abacus
