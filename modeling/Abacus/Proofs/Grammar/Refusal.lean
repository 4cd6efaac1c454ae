import Abacus.Calculation
import Abacus.Proofs.Grammar.Acceptance
import Abacus.Proofs.Lexing
/-!
Where the parser stops in a sequence that is not derivable, and what it says there.

Everything that could be read can be completed: an operand where one is missing, then a closing
bracket for every open one. So the first lexeme that cannot be read is the first after which no
continuation is derivable. The kind of the error follows from the last lexeme that was read.
-/

namespace Abacus
namespace Grammar

/-! ## Viable sequences -/

namespace Reading

theorem exists_finish_of_operator (u : Derivation .unary) (p : Pending) (frames : List Frame) :
    ∃ rest s d, (operator u p frames).run rest = some s ∧ s.finish? = some d := by
  induction frames generalizing u p with
  | nil => exact ⟨[], _, _, rfl, rfl⟩
  | cons frame frames ih =>
    obtain ⟨opening, outside, minuses⟩ := frame
    cases opening with
    | group opening =>
      obtain ⟨rest, s, d, hs, hd⟩ := ih _ outside
      exact ⟨⟨.closeBracket, ⟨0, 0⟩⟩ :: rest, s, d, hs, hd⟩
    | call f name opening before =>
      obtain ⟨rest, s, d, hs, hd⟩ := ih _ outside
      exact ⟨⟨.closeBracket, ⟨0, 0⟩⟩ :: rest, s, d, hs, hd⟩

theorem exists_finish_of_operand (p : Pending) (minuses : List Span) (frames : List Frame) :
    ∃ rest s d, (operand p minuses frames).run rest = some s ∧ s.finish? = some d := by
  obtain ⟨rest, s, d, hs, hd⟩ := exists_finish_of_operator
    (applyMinuses minuses (.unsigned (.number ['0'] ⟨0, 0⟩))) p frames
  exact ⟨⟨.number ['0'], ⟨0, 0⟩⟩ :: rest, s, d, hs, hd⟩

/-- Whatever was read can be continued to a derivable sequence. -/
theorem exists_finish (r : Reading) :
    ∃ rest s d, r.run rest = some s ∧ s.finish? = some d := by
  cases r with
  | operand p minuses frames => exact exists_finish_of_operand p minuses frames
  | operator u p frames => exact exists_finish_of_operator u p frames
  | arguments f name p minuses frames =>
    obtain ⟨rest, s, d, hs, hd⟩ :=
      exists_finish_of_operand {} [] (⟨.call f name ⟨0, 0⟩ none, p, minuses⟩ :: frames)
    exact ⟨⟨.openBracket, ⟨0, 0⟩⟩ :: rest, s, d, hs, hd⟩

end Reading

theorem viable_iff_run (lexemes : List Lexeme) :
    Viable lexemes ↔ ∃ r, Reading.start.run lexemes = some r := by
  constructor
  · rintro ⟨rest, hrest⟩
    obtain ⟨s, d, hs, _⟩ := (derivable_iff_finish? _).mp hrest
    rw [Reading.run_append] at hs
    obtain ⟨r, hr, _⟩ := Option.bind_eq_some_iff.mp hs
    exact ⟨r, hr⟩
  · rintro ⟨r, hr⟩
    obtain ⟨rest, s, d, hs, hd⟩ := r.exists_finish
    refine ⟨rest, (derivable_iff_finish? _).mpr ⟨s, d, ?_, hd⟩⟩
    rw [Reading.run_append, hr]
    exact hs

theorem Viable.of_append {a b : List Lexeme} (h : Viable (a ++ b)) : Viable a := by
  obtain ⟨rest, hrest⟩ := h
  exact ⟨b ++ rest, by rwa [← List.append_assoc]⟩

/-- The first `index` lexemes can be continued, but not those up to and with the one there, if
there is one. -/
def StopsAt (lexemes : List Lexeme) (index : Nat) : Prop :=
  (∀ j < index, Viable (lexemes.take (j + 1))) ∧
    (index = lexemes.length ∨ index < lexemes.length ∧ ¬ Viable (lexemes.take (index + 1)))

theorem StopsAt.le_of_stopsAt {lexemes : List Lexeme} {i j : Nat} (hi : StopsAt lexemes i)
    (hj : StopsAt lexemes j) : i ≤ j := by
  by_contra hlt
  have hviable := hi.1 j (by omega)
  rcases hj.2 with hj | ⟨_, hj⟩
  · rcases hi.2 with hi | ⟨hi, _⟩ <;> omega
  · exact hj hviable

theorem StopsAt.eq_of_stopsAt {lexemes : List Lexeme} {i j : Nat} (hi : StopsAt lexemes i)
    (hj : StopsAt lexemes j) : j = i :=
  Nat.le_antisymm (hj.le_of_stopsAt hi) (hi.le_of_stopsAt hj)

/-! ## What is expected -/

namespace Reading

def expectsOperand : Reading → Bool
  | operand _ _ _ => true
  | arguments _ _ _ _ _ | operator _ _ _ => false

/-- A closing bracket ends an operand, and what waits outside of the bracket waits for it. -/
theorem eq_operator_of_close {inside : Option (Derivation .sum)} {closing : Span}
    {frames : List Frame} {r : Reading} (h : close inside closing frames = some r) :
    ∃ frame outer u, frames = frame :: outer ∧ r = operator u frame.outside outer := by
  cases frames with
  | nil => contradiction
  | cons frame frames =>
    obtain ⟨opening, outside, minuses⟩ := frame
    cases opening with
    | group opening =>
      cases inside with
      | none => contradiction
      | some e =>
        cases h
        exact ⟨_, frames, _, rfl, rfl⟩
    | call f name opening before =>
      cases inside with
      | some e =>
        cases h
        exact ⟨_, frames, _, rfl, rfl⟩
      | none =>
        cases before with
        | none =>
          cases h
          exact ⟨_, frames, _, rfl, rfl⟩
        | some before => contradiction

theorem expectsOperand_close {inside : Option (Derivation .sum)} {closing : Span}
    {frames : List Frame} {r : Reading} (h : close inside closing frames = some r) :
    r.expectsOperand = false := by
  obtain ⟨_, _, _, _, rfl⟩ := eq_operator_of_close h
  rfl

/-- An operand is expected exactly after a lexeme that needs one. -/
theorem expectsOperand_advance {r s : Reading} {l : Lexeme} (h : r.advance l = some s) :
    s.expectsOperand = l.token.expectsOperand := by
  obtain ⟨token, span⟩ := l
  cases r with
  | operand p minuses frames =>
    cases token with
    | operator op =>
      cases op with
      | sub => cases h; rfl
      | _ => contradiction
    | closeBracket =>
      simp only [advance] at h
      split at h
      · exact expectsOperand_close h
      · contradiction
    | comma => contradiction
    | _ => cases h; rfl
  | arguments f name p minuses frames =>
    cases token with
    | openBracket => cases h; rfl
    | _ => contradiction
  | operator u p frames =>
    cases token with
    | operator op => cases h; rfl
    | closeBracket => exact expectsOperand_close h
    | comma =>
      cases frames with
      | nil => contradiction
      | cons frame frames =>
        obtain ⟨opening, outside, minuses⟩ := frame
        cases opening with
        | group opening => contradiction
        | call f name opening before => cases h; rfl
    | _ => contradiction

theorem expectsOperand_run {r : Reading} {lexemes : List Lexeme} (h : start.run lexemes = some r) :
    r.expectsOperand = lexemes.getLast?.all fun l => l.token.expectsOperand := by
  rcases List.eq_nil_or_concat lexemes with rfl | ⟨before, l, rfl⟩
  · cases h
    rfl
  · rw [List.concat_eq_append, run_append] at h
    obtain ⟨s, _, hl⟩ := Option.bind_eq_some_iff.mp h
    rw [run_cons] at hl
    obtain ⟨t, ht, hr⟩ := Option.bind_eq_some_iff.mp hl
    cases hr
    simp [expectsOperand_advance ht]

/-- Where an operand is expected, nothing that can start one is refused. -/
theorem startsOperand_of_refused {r : Reading} {l : Lexeme} (hr : r.expectsOperand = true)
    (hl : r.advance l = none) : l.token.startsOperand = false := by
  obtain ⟨token, span⟩ := l
  cases r with
  | operand p minuses frames =>
    cases token with
    | operator op =>
      cases op with
      | sub => contradiction
      | _ => rfl
    | closeBracket | comma => rfl
    | number text => contradiction
    | function f => contradiction
    | openBracket => contradiction
  | arguments f name p minuses frames => contradiction
  | operator u p frames => contradiction

end Reading

/-! ## The error -/

section

variable {text : List Char} {before after : List Lexeme} {l : Lexeme}

theorem takeWhile_before (h : Token.lex text = .ok (before ++ l :: after)) :
    (before ++ l :: after).takeWhile (fun m => m.span.start < l.span.start) = before := by
  obtain ⟨middle, hbefore, hmiddle, _, _⟩ := (Token.between_of_lexFrom h).append
  rw [List.takeWhile_append_of_pos, List.takeWhile_cons_of_neg, List.append_nil]
  · simp
  · intro m hm
    have := hbefore.of_mem hm
    rw [decide_eq_true_eq]
    omega

theorem takeWhile_end {lexemes : List Lexeme} (h : Token.lex text = .ok lexemes) :
    lexemes.takeWhile (fun m => m.span.start < byteLength text) = lexemes := by
  rw [List.takeWhile_eq_self_iff]
  intro m hm
  have := (Token.between_of_lexFrom h).of_mem hm
  rw [decide_eq_true_eq]
  omega

theorem classify_eq (lexemes : List Lexeme) (found : Option Lexeme) (length : Nat)
    (h : lexemes.takeWhile (fun m => m.span.start <
      (found.elim (Span.endOf length) Lexeme.span).start) = before) :
    Parser.classify lexemes found length =
      if (before.getLast?.all fun m => m.token.expectsOperand) &&
          !found.any fun m => m.token.startsOperand then
        .missingOperand (found.elim (Span.endOf length) Lexeme.span)
      else .unexpected (found.map Lexeme.token) (found.elim (Span.endOf length) Lexeme.span) := by
  subst h
  rfl

/-- The error at a lexeme that cannot be read after the others. -/
theorem classify_refused {r : Reading} (hlex : Token.lex text = .ok (before ++ l :: after))
    (hr : Reading.start.run before = some r) (hl : r.advance l = none) (length : Nat) :
    Parser.classify (before ++ l :: after) (some l) length =
      if r.expectsOperand then .missingOperand l.span else .unexpected (some l.token) l.span := by
  rw [classify_eq _ (some l) length (takeWhile_before hlex), ← Reading.expectsOperand_run hr]
  by_cases he : r.expectsOperand = true
  · simp [he, Reading.startsOperand_of_refused he hl]
  · simp [he]

/-- The error at the end of a text whose lexemes could all be read. -/
theorem classify_end {r : Reading} {lexemes : List Lexeme} (hlex : Token.lex text = .ok lexemes)
    (hr : Reading.start.run lexemes = some r) :
    Parser.classify lexemes none (byteLength text) =
      if r.expectsOperand then .missingOperand (.endOf (byteLength text))
      else .unexpected none (.endOf (byteLength text)) := by
  rw [classify_eq lexemes none (byteLength text) (takeWhile_end hlex),
    ← Reading.expectsOperand_run hr]
  simp

end

/-- The tokens after which an operand has to follow. -/
def NeedsOperand (t : Token) : Prop :=
  (∃ op, t = .operator op) ∨ t = .openBracket ∨ t = .comma

theorem needsOperand_iff (t : Token) : NeedsOperand t ↔ t.expectsOperand = true := by
  cases t <;> simp [NeedsOperand, Token.expectsOperand]

/-- Nothing stands before the place, or a token that needs an operand. -/
def OperandMissingAt (lexemes : List Lexeme) (index : Nat) : Prop :=
  index = 0 ∨ ∃ l, lexemes[index - 1]? = some l ∧ NeedsOperand l.token

theorem operandMissingAt_iff {before after : List Lexeme} {r : Reading}
    (h : Reading.start.run before = some r) :
    OperandMissingAt (before ++ after) before.length ↔ r.expectsOperand = true := by
  rw [Reading.expectsOperand_run h, OperandMissingAt]
  rcases List.eq_nil_or_concat before with rfl | ⟨front, l, rfl⟩
  · simp
  · simp [needsOperand_iff]

theorem stopsAt_refused {before after : List Lexeme} {l : Lexeme} {r : Reading}
    (hr : Reading.start.run before = some r) (hl : r.advance l = none) :
    StopsAt (before ++ l :: after) before.length := by
  refine ⟨fun j hj => ?_, .inr ⟨by simp, ?_⟩⟩
  · rw [List.take_append_of_le_length hj]
    have hviable : Viable before := (viable_iff_run before).mpr ⟨r, hr⟩
    rw [← List.take_append_drop (j + 1) before] at hviable
    exact hviable.of_append
  · rw [viable_iff_run, List.take_length_add_append, List.take_succ_cons, List.take_zero]
    rintro ⟨s, hs⟩
    rw [Reading.run_append, hr, Option.bind_some, Reading.run_cons, hl] at hs
    cases hs

theorem stopsAt_end {lexemes : List Lexeme} {r : Reading}
    (hr : Reading.start.run lexemes = some r) : StopsAt lexemes lexemes.length := by
  refine ⟨fun j hj => ?_, .inl rfl⟩
  have hviable : Viable lexemes := (viable_iff_run lexemes).mpr ⟨r, hr⟩
  rw [← List.take_append_drop (j + 1) lexemes] at hviable
  exact hviable.of_append

/--
A text whose tokens are not derivable fails at the first token after which nothing derivable
follows, or at the end if there is no such token. An operand is missing there if none was read since
the start, an operator, an open bracket or a comma; no token that starts an operand is at fault
then. Otherwise the error names what was found.
-/
theorem parseText_of_not_derivable {text : List Char} {lexemes : List Lexeme}
    (hlex : Token.lex text = .ok lexemes) (hne : lexemes ≠ []) (h : ¬ Derivable lexemes) :
    ∃ index, StopsAt lexemes index ∧ (∀ other, StopsAt lexemes other → other = index) ∧
      let found := lexemes[index]?
      let span := found.elim (Span.endOf (byteLength text)) Lexeme.span
      (OperandMissingAt lexemes index →
        Evaluation.parseText text = .error (.parse (.missingOperand span)) ∧
          ∀ l ∈ found, l.token.startsOperand = false) ∧
      (¬ OperandMissingAt lexemes index →
        Evaluation.parseText text = .error (.parse (.unexpected (found.map Lexeme.token) span))) := by
  have hparse : ∀ {p}, Parser.tree lexemes (byteLength text) = .error p →
      Evaluation.parseText text = .error (.parse p) := by
    intro p hp
    rw [Evaluation.parseText, hlex]
    change (Parser.parse lexemes (byteLength text)).mapError Failure.ofSyntaxError = _
    rw [Parser.parse, hp]
    rfl
  rcases Reading.start.run_or_refused lexemes with ⟨r, hr⟩ | ⟨before, l, after, r, rfl, hr, hl⟩
  · have htree := tree_of_run (byteLength text) hr hne
    have hfinish : r.finish? = none := by
      cases hd : r.finish? with
      | none => rfl
      | some d => exact absurd ((derivable_iff_finish? lexemes).mpr ⟨r, d, hr, hd⟩) h
    rw [hfinish, classify_end hlex hr] at htree
    have hmissing : OperandMissingAt lexemes lexemes.length ↔ r.expectsOperand = true := by
      rw [← operandMissingAt_iff hr, List.append_nil]
    have hfound : lexemes[lexemes.length]? = none := List.getElem?_eq_none (Nat.le_refl _)
    have hstops := stopsAt_end hr
    refine ⟨lexemes.length, hstops, fun other => hstops.eq_of_stopsAt, ?_⟩
    simp only [hfound, Option.elim_none, Option.map_none, hmissing]
    constructor
    · intro he
      rw [if_pos he] at htree
      exact ⟨hparse htree, by simp⟩
    · intro he
      rw [if_neg he] at htree
      exact hparse htree
  · have htree := tree_of_refused (byteLength text) hr hl after
    rw [classify_refused hlex hr hl] at htree
    have hstops : StopsAt (before ++ l :: after) before.length := stopsAt_refused hr hl
    refine ⟨before.length, hstops, fun other => hstops.eq_of_stopsAt, ?_⟩
    have hfound : (before ++ l :: after)[before.length]? = some l := by simp
    simp only [hfound, Option.elim_some, Option.map_some, operandMissingAt_iff hr]
    constructor
    · intro he
      rw [if_pos he] at htree
      refine ⟨hparse htree, ?_⟩
      rintro m hm
      cases hm
      exact Reading.startsOperand_of_refused he hl
    · intro he
      rw [if_neg he] at htree
      exact hparse htree

/-- After a comma the bracket of a call cannot be closed. -/
theorem parseText_of_trailing_comma :
    ∃ lexemes, Token.lex "power(2,)".toList = .ok lexemes ∧ lexemes ≠ [] ∧ ¬ Derivable lexemes ∧
      ∃ index, StopsAt lexemes index ∧ OperandMissingAt lexemes index ∧
        Evaluation.parseText "power(2,)".toList = .error (.parse (.missingOperand ⟨8, 9⟩)) := by
  have hparse : (Evaluation.parseText "power(2,)".toList).map (fun _ => ()) =
      .error (.parse (.missingOperand ⟨8, 9⟩)) := by
    decide +kernel
  obtain ⟨lexemes, hlex, hne, hnot⟩ : ∃ lexemes, Token.lex "power(2,)".toList = .ok lexemes ∧
      lexemes ≠ [] ∧ ¬ Derivable lexemes := by
    refine ⟨[⟨.function .power, ⟨0, 5⟩⟩, ⟨.openBracket, ⟨5, 6⟩⟩, ⟨.number ['2'], ⟨6, 7⟩⟩,
      ⟨.comma, ⟨7, 8⟩⟩, ⟨.closeBracket, ⟨8, 9⟩⟩], by decide +kernel, List.cons_ne_nil _ _, ?_⟩
    rw [derivable_iff_finish?]
    rintro ⟨r, d, hr, _⟩
    cases hr
  obtain ⟨index, hstops, _, hmissing, hunexpected⟩ := parseText_of_not_derivable hlex hne hnot
  refine ⟨lexemes, hlex, hne, hnot, index, hstops, ?_⟩
  by_cases hm : OperandMissingAt lexemes index
  · obtain ⟨hspan, _⟩ := hmissing hm
    rw [hspan] at hparse ⊢
    injection hparse with hfailure
    exact ⟨hm, congrArg Except.error hfailure⟩
  · rw [hunexpected hm] at hparse
    cases hparse

end Grammar
end Abacus
