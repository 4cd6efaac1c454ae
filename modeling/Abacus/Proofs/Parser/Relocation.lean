import Abacus.Parser
import Abacus.Proofs.Expr.Relocation
/-!
The same tokens, read from other bytes.

The parser decides by the tokens and only carries along where they start and stop. When all starts
and all stops are moved, every state of its run is moved, and so is the tree. An error looks at the
tokens that start before it, so it moves along if the order of the starts is kept.
-/

namespace Abacus

/-- Where the starts and the stops of ranges are moved to. -/
structure Relocation where
  start : Nat → Nat
  stop : Nat → Nat

def Relocation.span (r : Relocation) (span : Span) : Span :=
  ⟨r.start span.start, r.stop span.stop⟩

theorem Relocation.endwise_span (r : Relocation) : Span.Endwise r.span :=
  fun _ _ => rfl

namespace Parser

/-! ## Moved states -/

def Waiting.relocate (r : Relocation) (w : Waiting) : Waiting where
  sum := w.sum.map fun left => (left.1.mapSpan r.span, left.2)
  product := w.product.map fun left => (left.1.mapSpan r.span, left.2)
  powers := w.powers.map (Expr.mapSpan r.span)
  minuses := w.minuses.map r.start

def Opening.relocate (r : Relocation) : Opening → Opening
  | .group start => .group (r.start start)
  | .call f start arguments => .call f (r.start start) (arguments.map (Expr.mapSpan r.span))

def Frame.relocate (r : Relocation) (frame : Frame) : Frame :=
  ⟨frame.opening.relocate r, frame.outside.relocate r⟩

def State.relocate (r : Relocation) : State → State
  | .operand w frames => .operand (w.relocate r) (frames.map (Frame.relocate r))
  | .arguments f start w frames =>
      .arguments f (r.start start) (w.relocate r) (frames.map (Frame.relocate r))
  | .operator e w frames =>
      .operator (e.mapSpan r.span) (w.relocate r) (frames.map (Frame.relocate r))

variable (r : Relocation)

namespace Waiting

theorem isEmpty_relocate (w : Waiting) : (w.relocate r).isEmpty = w.isEmpty := by
  simp [isEmpty, relocate]

theorem applyMinuses_relocate (w : Waiting) (e : Expr) :
    (w.relocate r).applyMinuses (e.mapSpan r.span) = (w.applyMinuses e).mapSpan r.span := by
  obtain ⟨sum, product, powers, minuses⟩ := w
  show (minuses.map r.start).foldl (fun e start => .negate e ⟨start, e.span.stop⟩) _ =
    (minuses.foldl (fun e start => Expr.negate e ⟨start, e.span.stop⟩) e).mapSpan r.span
  induction minuses generalizing e with
  | nil => rfl
  | cons start minuses ih =>
    rw [List.map_cons, List.foldl_cons, List.foldl_cons, ← ih, Expr.mapSpan, Expr.span_mapSpan]
    rfl

theorem closePowers_relocate (w : Waiting) (e : Expr) :
    (w.relocate r).closePowers (e.mapSpan r.span) = (w.closePowers e).mapSpan r.span := by
  obtain ⟨sum, product, powers, minuses⟩ := w
  show (powers.map (Expr.mapSpan r.span)).foldl (fun right left => .join .pow left right) _ =
    (powers.foldl (fun right left => Expr.join .pow left right) e).mapSpan r.span
  induction powers generalizing e with
  | nil => rfl
  | cons left powers ih =>
    rw [List.map_cons, List.foldl_cons, List.foldl_cons, ← ih, Expr.mapSpan_join r.endwise_span]

theorem closeProduct_relocate (w : Waiting) (e : Expr) :
    (w.relocate r).closeProduct (e.mapSpan r.span) = (w.closeProduct e).mapSpan r.span := by
  have hpowers := w.closePowers_relocate r e
  obtain ⟨sum, product, powers, minuses⟩ := w
  cases product with
  | none => exact hpowers
  | some left =>
    show Expr.join left.2 (left.1.mapSpan r.span) _ = (Expr.join left.2 left.1 _).mapSpan r.span
    rw [Expr.mapSpan_join r.endwise_span, ← hpowers]

theorem closeSum_relocate (w : Waiting) (e : Expr) :
    (w.relocate r).closeSum (e.mapSpan r.span) = (w.closeSum e).mapSpan r.span := by
  have hproduct := w.closeProduct_relocate r e
  obtain ⟨sum, product, powers, minuses⟩ := w
  cases sum with
  | none => exact hproduct
  | some left =>
    show Expr.join left.2 (left.1.mapSpan r.span) _ = (Expr.join left.2 left.1 _).mapSpan r.span
    rw [Expr.mapSpan_join r.endwise_span, ← hproduct]

theorem push_relocate (w : Waiting) (e : Expr) (op : Operator) :
    (w.relocate r).push (e.mapSpan r.span) op = (w.push e op).relocate r := by
  cases op with
  | pow => rfl
  | mul | div | mod =>
    simp only [push, closeProduct_relocate]
    rfl
  | add | sub =>
    simp only [push, closeSum_relocate]
    rfl

end Waiting

theorem complete_relocate (e : Expr) (w : Waiting) (frames : List Frame) :
    complete (e.mapSpan r.span) (w.relocate r) (frames.map (Frame.relocate r)) =
      (complete e w frames).relocate r := by
  rw [complete, Waiting.applyMinuses_relocate]
  rfl

theorem close_relocate (inside : Option Expr) (stop : Nat) (frames : List Frame) :
    close (inside.map (Expr.mapSpan r.span)) (r.stop stop) (frames.map (Frame.relocate r)) =
      (close inside stop frames).map (State.relocate r) := by
  cases frames with
  | nil => rfl
  | cons frame frames =>
    obtain ⟨opening, outside⟩ := frame
    cases opening with
    | group start =>
      cases inside with
      | none => rfl
      | some e =>
        refine congrArg some (Eq.trans ?_ (complete_relocate r _ outside frames))
        rw [Expr.mapSpan_withSpan]
        rfl
    | call f start arguments =>
      cases inside with
      | some e =>
        refine congrArg some (Eq.trans ?_ (complete_relocate r _ outside frames))
        rw [Expr.mapSpan, Expr.mapSpans_eq_map, List.map_append]
        rfl
      | none =>
        show (if (arguments.map (Expr.mapSpan r.span)).isEmpty = true then _ else _) =
          Option.map _ (if arguments.isEmpty = true then _ else _)
        rw [List.isEmpty_map]
        by_cases h : arguments.isEmpty = true
        · rw [if_pos h, if_pos h]
          refine congrArg some (Eq.trans ?_ (complete_relocate r _ outside frames))
          rw [Expr.mapSpan]
          rfl
        · rw [if_neg h, if_neg h]
          rfl

/-- A step of the parser takes a moved state and a moved token to the moved state after it. -/
theorem step_relocate (s : State) (l : Lexeme) :
    step (s.relocate r) (l.mapSpan r.span) = (step s l).map (State.relocate r) := by
  obtain ⟨token, span⟩ := l
  cases s with
  | operand w frames =>
    cases token with
    | number text => exact congrArg some (complete_relocate r (.number _ span) w frames)
    | function f => rfl
    | openBracket => rfl
    | comma => rfl
    | operator op => cases op <;> rfl
    | closeBracket =>
      show (if (w.relocate r).isEmpty = true then _ else _) =
        Option.map _ (if w.isEmpty = true then _ else _)
      rw [Waiting.isEmpty_relocate]
      by_cases h : w.isEmpty = true
      · rw [if_pos h, if_pos h]
        exact close_relocate r none span.stop frames
      · rw [if_neg h, if_neg h]
        rfl
  | arguments f start w frames => cases token <;> rfl
  | operator e w frames =>
    cases token with
    | number text => rfl
    | function f => rfl
    | openBracket => rfl
    | operator op => exact congrArg (fun w => some (State.operand w _)) (w.push_relocate r e op)
    | closeBracket =>
      show close (some ((w.relocate r).closeSum (e.mapSpan r.span))) _ _ = _
      rw [Waiting.closeSum_relocate]
      exact close_relocate r (some (w.closeSum e)) span.stop frames
    | comma =>
      cases frames with
      | nil => rfl
      | cons frame frames =>
        obtain ⟨opening, outside⟩ := frame
        cases opening with
        | group start => rfl
        | call f start arguments =>
          simp only [State.relocate, Lexeme.mapSpan, step, List.map_cons, Frame.relocate,
            Opening.relocate, Option.map_some, Waiting.closeSum_relocate, List.map_append,
            List.map_nil]
          rfl

/-! ## Moved runs -/

theorem run_relocate (s : State) (lexemes : List Lexeme) :
    run (s.relocate r) (lexemes.map (Lexeme.mapSpan r.span)) =
      ((run s lexemes).map (State.relocate r)).mapError (Lexeme.mapSpan r.span) := by
  induction lexemes generalizing s with
  | nil => rfl
  | cons l rest ih =>
    rw [List.map_cons, run, run, step_relocate]
    cases step s l with
    | none => rfl
    | some t => exact ih t

theorem finish?_relocate (s : State) :
    finish? (s.relocate r) = (finish? s).map (Expr.mapSpan r.span) := by
  cases s with
  | operand w frames => rfl
  | arguments f start w frames => rfl
  | operator e w frames =>
    cases frames with
    | nil => exact congrArg some (w.closeSum_relocate r e)
    | cons frame frames => rfl

variable {r}

theorem classify_relocate (hr : StrictMono r.start) {length length' : Nat}
    (hend : r.span (.endOf length) = .endOf length') (lexemes : List Lexeme)
    (found : Option Lexeme) :
    classify (lexemes.map (Lexeme.mapSpan r.span)) (found.map (Lexeme.mapSpan r.span)) length' =
      (classify lexemes found length).mapSpan r.span := by
  have hspan : (found.map (Lexeme.mapSpan r.span)).elim (Span.endOf length') Lexeme.span =
      r.span (found.elim (Span.endOf length) Lexeme.span) := by
    cases found with
    | none => exact hend.symm
    | some l => rfl
  have hbefore : ∀ span : Span,
      (lexemes.map (Lexeme.mapSpan r.span)).takeWhile (fun l => l.span.start < (r.span span).start) =
        (lexemes.takeWhile fun l => l.span.start < span.start).map (Lexeme.mapSpan r.span) := by
    intro span
    rw [List.takeWhile_map]
    refine congrArg _ (congrArg (fun p => lexemes.takeWhile p) (funext fun l => ?_))
    exact decide_eq_decide.mpr hr.lt_iff_lt
  have htoken : (found.map (Lexeme.mapSpan r.span)).map Lexeme.token = found.map Lexeme.token := by
    cases found <;> rfl
  unfold classify
  simp only [hspan, hbefore, htoken, List.getLast?_map, Option.all_map, Option.any_map]
  rw [apply_ite (ParseError.mapSpan r.span)]
  rfl

/-- The tree of moved tokens is moved, and so is the error if there is none. -/
theorem tree_relocate (hr : StrictMono r.start) {length length' : Nat}
    (hend : r.span (.endOf length) = .endOf length') (lexemes : List Lexeme) :
    tree (lexemes.map (Lexeme.mapSpan r.span)) length' =
      ((tree lexemes length).map (Expr.mapSpan r.span)).mapError (ParseError.mapSpan r.span) := by
  unfold tree
  rw [List.isEmpty_map]
  by_cases hnil : lexemes.isEmpty = true
  · rw [if_pos hnil, if_pos hnil]
    rfl
  · rw [if_neg hnil, if_neg hnil]
    have hrun := run_relocate r (.operand {} []) lexemes
    change run (.operand {} []) _ = _ at hrun
    rw [hrun]
    cases run (.operand {} []) lexemes with
    | error l => exact congrArg Except.error (classify_relocate hr hend lexemes (some l))
    | ok s =>
      dsimp only [Except.map, Except.mapError]
      rw [finish?_relocate]
      cases finish? s with
      | some e => rfl
      | none => exact congrArg Except.error (classify_relocate hr hend lexemes none)

end Parser
end Abacus
