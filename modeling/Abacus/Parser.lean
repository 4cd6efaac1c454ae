import Abacus.Expr.Arity
/-!
From tokens to an expression tree.

The parser reads the tokens once, from left to right. Between two tokens it holds the left operands
that still wait for a right one, and the brackets that are still open. A token that cannot stand
at its place is refused when it is read, so the token named in an error is the first one after
which no continuation of the text could be an expression.
-/

namespace Abacus
namespace Parser

/--
The operands and signs inside one pair of brackets that wait for an operand to their right. Of
each kind of operator the innermost comes first; only `^` can have several waiting.
-/
structure Waiting where
  sum : Option (Expr × Operator) := none
  product : Option (Expr × Operator) := none
  powers : List Expr := []
  minuses : List Nat := []

/-- An open bracket: where it, or the function before it, starts, and the arguments read so far. -/
inductive Opening where
  | group (start : Nat)
  | call (function : Function) (start : Nat) (arguments : List Expr)

/-- An open bracket and what waits outside of it. -/
structure Frame where
  opening : Opening
  outside : Waiting

/-- What the next token has to be, and what was read before it. -/
inductive State where
  /-- An operand has to follow. -/
  | operand (waiting : Waiting) (frames : List Frame)
  /-- The bracket of a call has to follow the function's name. -/
  | arguments (function : Function) (start : Nat) (waiting : Waiting) (frames : List Frame)
  /-- An operator or the end of a bracket has to follow the operand. -/
  | operator (operand : Expr) (waiting : Waiting) (frames : List Frame)

namespace Waiting

/-- Nothing waits: the bracket has just been opened, or a comma been read. -/
def isEmpty (w : Waiting) : Bool :=
  w.sum.isNone && w.product.isNone && w.powers.isEmpty && w.minuses.isEmpty

/-- The operand under the minus signs before it. -/
def applyMinuses (w : Waiting) (e : Expr) : Expr :=
  w.minuses.foldl (fun e start => .negate e ⟨start, e.span.stop⟩) e

/-- The power that ends with the operand. -/
def closePowers (w : Waiting) (e : Expr) : Expr :=
  w.powers.foldl (fun right left => .join .pow left right) e

/-- The product that ends with the operand. -/
def closeProduct (w : Waiting) (e : Expr) : Expr :=
  let e := w.closePowers e
  w.product.elim e fun (left, op) => .join op left e

/-- The sum that ends with the operand. -/
def closeSum (w : Waiting) (e : Expr) : Expr :=
  let e := w.closeProduct e
  w.sum.elim e fun (left, op) => .join op left e

/-- What waits after the operand and an operator. -/
def push (w : Waiting) (e : Expr) : Operator → Waiting
  | .pow => { w with powers := e :: w.powers }
  | .mul => { sum := w.sum, product := some (w.closeProduct e, .mul) }
  | .div => { sum := w.sum, product := some (w.closeProduct e, .div) }
  | .mod => { sum := w.sum, product := some (w.closeProduct e, .mod) }
  | .add => { sum := some (w.closeSum e, .add) }
  | .sub => { sum := some (w.closeSum e, .sub) }

end Waiting

/-- After a complete operand. -/
def complete (e : Expr) (w : Waiting) (frames : List Frame) : State :=
  .operator (w.applyMinuses e) { w with minuses := [] } frames

/-- After a closing bracket that ends at byte `stop`, with the last operand inside if there is one. -/
def close (inside : Option Expr) (stop : Nat) : List Frame → Option State
  | [] => none
  | ⟨.group start, outside⟩ :: frames =>
      inside.map fun e => complete (e.withSpan ⟨start, stop⟩) outside frames
  | ⟨.call function start arguments, outside⟩ :: frames =>
      match inside with
      | some e => some (complete (.call function (arguments ++ [e]) ⟨start, stop⟩) outside frames)
      | none =>
          if arguments.isEmpty then some (complete (.call function [] ⟨start, stop⟩) outside frames)
          else none

/-- The state after one more token, if the token can stand here. -/
def step : State → Lexeme → Option State
  | .operand w frames, ⟨token, span⟩ =>
      match token with
      | .number text => some (complete (.number (Literal.value text) span) w frames)
      | .function f => some (.arguments f span.start w frames)
      | .openBracket => some (.operand {} (⟨.group span.start, w⟩ :: frames))
      | .operator .sub => some (.operand { w with minuses := span.start :: w.minuses } frames)
      | .closeBracket => if w.isEmpty then close none span.stop frames else none
      | .operator _ | .comma => none
  | .arguments f start w frames, ⟨token, _⟩ =>
      match token with
      | .openBracket => some (.operand {} (⟨.call f start [], w⟩ :: frames))
      | _ => none
  | .operator e w frames, ⟨token, span⟩ =>
      match token with
      | .operator op => some (.operand (w.push e op) frames)
      | .closeBracket => close (some (w.closeSum e)) span.stop frames
      | .comma =>
          match frames with
          | ⟨.call f start arguments, outside⟩ :: frames =>
              some (.operand {} (⟨.call f start (arguments ++ [w.closeSum e]), outside⟩ :: frames))
          | _ => none
      | _ => none

/-- The state after all tokens, or the first token that cannot stand at its place. -/
def run (s : State) : List Lexeme → Except Lexeme State
  | [] => .ok s
  | lexeme :: rest =>
      match step s lexeme with
      | some s => run s rest
      | none => .error lexeme

/-- The tree of the tokens read, if they can end here. -/
def finish? : State → Option Expr
  | .operator e w [] => some (w.closeSum e)
  | _ => none

/-- The error at a token that cannot stand at its place, or at the end of the text. -/
def classify (lexemes : List Lexeme) (found : Option Lexeme) (length : Nat) : ParseError :=
  let span := found.elim (Span.endOf length) Lexeme.span
  let before := lexemes.takeWhile fun l => l.span.start < span.start
  let operandExpected := before.getLast?.all fun l => l.token.expectsOperand
  let operandFound := found.any fun l => l.token.startsOperand
  if operandExpected && !operandFound then .missingOperand span
  else .unexpected (found.map Lexeme.token) span

/-- The tree of the tokens, before the calls are checked. -/
def tree (lexemes : List Lexeme) (length : Nat) : Except ParseError Expr :=
  if lexemes.isEmpty then .error .emptyExpression
  else
    match run (.operand {} []) lexemes with
    | .error lexeme => .error (classify lexemes (some lexeme) length)
    | .ok s =>
        match finish? s with
        | some e => .ok e
        | none => .error (classify lexemes none length)

/-- The tree of the tokens of a text of `length` bytes. -/
def parse (lexemes : List Lexeme) (length : Nat) : Except SyntaxError Expr :=
  match tree lexemes length with
  | .error e => .error (.parse e)
  | .ok e =>
      match e.checkArity with
      | .error a => .error (.arity a)
      | .ok () => .ok e

end Parser
end Abacus
