import Abacus.Proofs.Grammar.Derivation
/-!
The derivations behind the parser's stack.

Between two tokens the parser holds expressions. Here the same stack holds the derivations of those
expressions, with every lexeme that was read on the way. A step on derivations is a step of the
parser with the spans and the grouping kept, so the stack always says which lexemes were read, and
a derivation that is read leaves itself on the stack. The parser then accepts what has a derivation,
and no sequence has two.
-/

namespace Abacus
namespace Grammar

/-- A left operand and the operator after it. -/
structure Left (n : Nonterminal) (ops : List Operator) where
  operand : Derivation n
  op : Operator
  mem : op ∈ ops
  sign : Span

/-- The operands inside one pair of brackets that wait for an operand to their right. -/
structure Pending where
  sum : Option (Left .sum Operator.additive) := none
  product : Option (Left .product Operator.multiplicative) := none
  powers : List (Derivation .unary × Span) := []

/-- An open bracket, and the arguments before it with the comma after them. -/
inductive Opening where
  | group (opening : Span)
  | call (f : Function) (name opening : Span) (before : Option (Arguments × Span))

/-- An open bracket with the operands and minus signs that wait outside of it. -/
structure Frame where
  opening : Opening
  outside : Pending
  minuses : List Span

/-- What was read, and what the next token has to be. -/
inductive Reading where
  | operand (pending : Pending) (minuses : List Span) (frames : List Frame)
  | arguments (f : Function) (name : Span) (pending : Pending) (minuses : List Span)
      (frames : List Frame)
  | operator (operand : Derivation .unary) (pending : Pending) (frames : List Frame)

/-- The operand under the minus signs before it, the nearest sign first. -/
def applyMinuses (minuses : List Span) (u : Derivation .unary) : Derivation .unary :=
  minuses.foldl (fun u sign => .minus sign u) u

/-- The power with these left operands, the nearest first. -/
def closePowers (powers : List (Derivation .unary × Span)) (u : Derivation .unary) :
    Derivation .power :=
  powers.foldl (fun right left => .raise left.1 left.2 right) (.base u)

namespace Pending

def closeProduct (p : Pending) (u : Derivation .unary) : Derivation .product :=
  match p.product with
  | none => .factor (closePowers p.powers u)
  | some left => .multiply left.operand left.op left.mem left.sign (closePowers p.powers u)

def closeSum (p : Pending) (u : Derivation .unary) : Derivation .sum :=
  match p.sum with
  | none => .term (p.closeProduct u)
  | some left => .add left.operand left.op left.mem left.sign (p.closeProduct u)

def push (p : Pending) (u : Derivation .unary) (sign : Span) : Operator → Pending
  | .pow => { p with powers := (u, sign) :: p.powers }
  | .mul => { sum := p.sum, product := some ⟨p.closeProduct u, .mul, by decide, sign⟩ }
  | .div => { sum := p.sum, product := some ⟨p.closeProduct u, .div, by decide, sign⟩ }
  | .mod => { sum := p.sum, product := some ⟨p.closeProduct u, .mod, by decide, sign⟩ }
  | .add => { sum := some ⟨p.closeSum u, .add, by decide, sign⟩ }
  | .sub => { sum := some ⟨p.closeSum u, .sub, by decide, sign⟩ }

/-- Nothing has been read since the bracket was opened or the last comma was read. -/
def isEmpty (p : Pending) : Bool :=
  p.sum.isNone && p.product.isNone && p.powers.isEmpty

end Pending

/-- The arguments before a comma and the one after it. -/
def appendArgument (before : Option (Arguments × Span)) (e : Derivation .sum) : Arguments :=
  match before with
  | none => .one e
  | some (arguments, comma) => .more arguments comma e

namespace Reading

def start : Reading :=
  .operand {} [] []

/-- After a complete operand. -/
def complete (p : Derivation .primary) (pending : Pending) (minuses : List Span)
    (frames : List Frame) : Reading :=
  .operator (applyMinuses minuses (.unsigned p)) pending frames

/-- After a closing bracket, with the last operand inside if there is one. -/
def close (inside : Option (Derivation .sum)) (closing : Span) : List Frame → Option Reading
  | [] => none
  | ⟨.group opening, outside, minuses⟩ :: frames =>
      inside.map fun e => complete (.group opening e closing) outside minuses frames
  | ⟨.call f name opening before, outside, minuses⟩ :: frames =>
      match inside, before with
      | some e, before =>
          some (complete (.call f name opening (appendArgument before e) closing) outside minuses
            frames)
      | none, none => some (complete (.emptyCall f name opening closing) outside minuses frames)
      | none, some _ => none

/-- What was read together with one more lexeme, if it can stand here. -/
def advance : Reading → Lexeme → Option Reading
  | .operand p minuses frames, ⟨token, span⟩ =>
      match token with
      | .number text => some (complete (.number text span) p minuses frames)
      | .function f => some (.arguments f span p minuses frames)
      | .openBracket => some (.operand {} [] (⟨.group span, p, minuses⟩ :: frames))
      | .operator .sub => some (.operand p (span :: minuses) frames)
      | .closeBracket => if p.isEmpty && minuses.isEmpty then close none span frames else none
      | .operator _ | .comma => none
  | .arguments f name p minuses frames, ⟨token, span⟩ =>
      match token with
      | .openBracket => some (.operand {} [] (⟨.call f name span none, p, minuses⟩ :: frames))
      | _ => none
  | .operator u p frames, ⟨token, span⟩ =>
      match token with
      | .operator op => some (.operand (p.push u span op) [] frames)
      | .closeBracket => close (some (p.closeSum u)) span frames
      | .comma =>
          match frames with
          | ⟨.call f name opening before, outside, minuses⟩ :: frames =>
              some (.operand {} []
                (⟨.call f name opening (some (appendArgument before (p.closeSum u), span)),
                  outside, minuses⟩ :: frames))
          | _ => none
      | _ => none

/-- What was read together with more lexemes. -/
def run (r : Reading) (lexemes : List Lexeme) : Option Reading :=
  lexemes.foldlM advance r

theorem run_append (r : Reading) (a b : List Lexeme) :
    r.run (a ++ b) = (r.run a).bind fun s => s.run b := by
  simp only [run, List.foldlM_append]
  rfl

theorem run_cons (r : Reading) (l : Lexeme) (rest : List Lexeme) :
    r.run (l :: rest) = (r.advance l).bind fun s => s.run rest := rfl

/-- The derivation of all lexemes, if they can end here. -/
def finish? : Reading → Option (Derivation .sum)
  | .operator u p [] => some (p.closeSum u)
  | _ => none

end Reading

/-! ## The parser's state -/

def Left.pair {n : Nonterminal} {ops : List Operator} (left : Left n ops) : Expr × Operator :=
  (left.operand.expr, left.op)

def Pending.waiting (p : Pending) (minuses : List Span) : Parser.Waiting where
  sum := p.sum.map Left.pair
  product := p.product.map Left.pair
  powers := p.powers.map fun left => left.1.expr
  minuses := minuses.map Span.start

/-- The expressions of the arguments before a comma. -/
def exprsBefore (before : Option (Arguments × Span)) : List Expr :=
  before.elim [] fun b => b.1.exprs

def Opening.state : Opening → Parser.Opening
  | .group opening => .group opening.start
  | .call f name _ before => .call f name.start (exprsBefore before)

def Frame.state (frame : Frame) : Parser.Frame :=
  ⟨frame.opening.state, frame.outside.waiting frame.minuses⟩

/-- The state of the parser when it has read the same lexemes. -/
def Reading.state : Reading → Parser.State
  | .operand p minuses frames => .operand (p.waiting minuses) (frames.map Frame.state)
  | .arguments f name p minuses frames =>
      .arguments f name.start (p.waiting minuses) (frames.map Frame.state)
  | .operator u p frames => .operator u.expr (p.waiting []) (frames.map Frame.state)

theorem expr_applyMinuses (p : Pending) (minuses : List Span) (u : Derivation .unary) :
    (applyMinuses minuses u).expr = (p.waiting minuses).applyMinuses u.expr := by
  simp only [Parser.Waiting.applyMinuses, Pending.waiting]
  induction minuses generalizing u with
  | nil => rfl
  | cons sign minuses ih => exact ih (.minus sign u)

theorem expr_closePowers (p : Pending) (minuses : List Span) (u : Derivation .unary) :
    (closePowers p.powers u).expr = (p.waiting minuses).closePowers u.expr := by
  have h : ∀ (powers : List (Derivation .unary × Span)) (right : Derivation .power),
      (powers.foldl (fun right left => Derivation.raise left.1 left.2 right) right).expr =
        (powers.map fun left => left.1.expr).foldl (fun right left => .join .pow left right)
          right.expr := by
    intro powers
    induction powers with
    | nil => intro right; rfl
    | cons left powers ih => intro right; exact ih (.raise left.1 left.2 right)
  exact h p.powers (.base u)

theorem expr_closeProduct (p : Pending) (minuses : List Span) (u : Derivation .unary) :
    (p.closeProduct u).expr = (p.waiting minuses).closeProduct u.expr := by
  have h := expr_closePowers p minuses u
  obtain ⟨sum, product, powers⟩ := p
  cases product with
  | none => exact h
  | some left => exact congrArg (Expr.join left.op left.operand.expr) h

theorem expr_closeSum (p : Pending) (minuses : List Span) (u : Derivation .unary) :
    (p.closeSum u).expr = (p.waiting minuses).closeSum u.expr := by
  have h := expr_closeProduct p minuses u
  obtain ⟨sum, product, powers⟩ := p
  cases sum with
  | none => exact h
  | some left => exact congrArg (Expr.join left.op left.operand.expr) h

theorem waiting_push (p : Pending) (u : Derivation .unary) (sign : Span) (op : Operator) :
    (p.push u sign op).waiting [] = (p.waiting []).push u.expr op := by
  cases op with
  | pow => rfl
  | mul | div | mod =>
    simp [Pending.push, Parser.Waiting.push, Pending.waiting, Left.pair,
      expr_closeProduct p []]
  | add | sub =>
    simp [Pending.push, Parser.Waiting.push, Pending.waiting, Left.pair, expr_closeSum p []]

theorem isEmpty_waiting (p : Pending) (minuses : List Span) :
    (p.waiting minuses).isEmpty = (p.isEmpty && minuses.isEmpty) := by
  simp [Parser.Waiting.isEmpty, Pending.isEmpty, Pending.waiting, Bool.and_assoc]

theorem exprs_appendArgument (before : Option (Arguments × Span)) (e : Derivation .sum) :
    (appendArgument before e).exprs = exprsBefore before ++ [e.expr] := by
  cases before <;> rfl

theorem Arguments.exprs_ne_nil (a : Arguments) : a.exprs ≠ [] := by
  cases a <;> simp [Arguments.exprs]

namespace Reading

theorem state_complete (p : Derivation .primary) (pending : Pending) (minuses : List Span)
    (frames : List Frame) :
    (complete p pending minuses frames).state =
      Parser.complete p.expr (pending.waiting minuses) (frames.map Frame.state) := by
  simp only [complete, state, Parser.complete, expr_applyMinuses pending]
  rfl

theorem state_close (inside : Option (Derivation .sum)) (closing : Span) (frames : List Frame) :
    Parser.close (inside.map Derivation.expr) closing.stop (frames.map Frame.state) =
      (close inside closing frames).map state := by
  cases frames with
  | nil => rfl
  | cons frame frames =>
    obtain ⟨opening, outside, minuses⟩ := frame
    cases opening with
    | group opening =>
      cases inside with
      | none => rfl
      | some e => simp [close, state_complete, Parser.close, Frame.state, Opening.state,
          Derivation.expr, Span.cover]
    | call f name opening before =>
      cases inside with
      | some e => simp [close, state_complete, Parser.close, Frame.state, Opening.state,
          Derivation.expr, Span.cover, exprs_appendArgument]
      | none =>
        cases before with
        | none => simp [close, state_complete, Parser.close, Frame.state, Opening.state,
            Derivation.expr, Span.cover, exprsBefore]
        | some before =>
          simp [close, Parser.close, Frame.state, Opening.state, exprsBefore,
            Arguments.exprs_ne_nil]

/-- Reading a lexeme is a step of the parser. -/
theorem state_advance (r : Reading) (l : Lexeme) :
    Parser.step r.state l = (r.advance l).map state := by
  obtain ⟨token, span⟩ := l
  cases r with
  | operand p minuses frames =>
    cases token with
    | number text => exact congrArg some (state_complete (.number text span) p minuses frames).symm
    | function f => rfl
    | openBracket => rfl
    | operator op => cases op <;> rfl
    | comma => rfl
    | closeBracket =>
      simp only [state, Parser.step, advance, isEmpty_waiting]
      split
      · exact state_close none span frames
      · rfl
  | arguments f name p minuses frames => cases token <;> rfl
  | operator u p frames =>
    cases token with
    | operator op => simp only [state, Parser.step, advance, Option.map_some, waiting_push]
    | closeBracket =>
      simp only [state, Parser.step, advance, ← expr_closeSum]
      exact state_close (some (p.closeSum u)) span frames
    | comma =>
      cases frames with
      | nil => rfl
      | cons frame frames =>
        obtain ⟨opening, outside, minuses⟩ := frame
        cases opening with
        | group opening => rfl
        | call f name opening before =>
          simp [state, Parser.step, advance, Frame.state, Opening.state, exprsBefore,
            exprs_appendArgument, expr_closeSum p []]
          rfl
    | number text => rfl
    | function f => rfl
    | openBracket => rfl

end Reading
end Grammar
end Abacus
