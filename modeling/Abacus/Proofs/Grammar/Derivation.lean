import Abacus.Parser
import Mathlib
/-!
Derivations in the grammar of expressions, and the tree that a derivation stands for.

    sum     -> product (('+' | '-') product)*
    product -> power (('*' | '/' | '%') power)*
    power   -> unary ('^' power)?
    unary   -> '-' unary | primary
    primary -> number | name '(' [sum (',' sum)*] ')' | '(' sum ')'

The grammar looks at tokens only. A derivation also keeps the span of each of its tokens, so that
its leaves are exactly the lexemes it derives and its tree has the spans of the parser's tree. A
repetition is its first member alone, or a shorter repetition with one more member at its end.
-/

namespace Abacus

namespace Operator

/-- The operators between the members of a sum. -/
def additive : List Operator :=
  [add, sub]

/-- The operators between the members of a product. -/
def multiplicative : List Operator :=
  [mul, div, mod]

end Operator

namespace Grammar

inductive Nonterminal where
  | sum
  | product
  | power
  | unary
  | primary

mutual

/-- A derivation from the nonterminal. -/
inductive Derivation : Nonterminal → Type where
  | number (text : List Char) (span : Span) : Derivation .primary
  | group (opening : Span) (inner : Derivation .sum) (closing : Span) : Derivation .primary
  | emptyCall (f : Function) (name opening closing : Span) : Derivation .primary
  | call (f : Function) (name opening : Span) (arguments : Arguments) (closing : Span) :
      Derivation .primary
  | unsigned (operand : Derivation .primary) : Derivation .unary
  | minus (sign : Span) (operand : Derivation .unary) : Derivation .unary
  | base (operand : Derivation .unary) : Derivation .power
  | raise (left : Derivation .unary) (sign : Span) (right : Derivation .power) : Derivation .power
  | factor (operand : Derivation .power) : Derivation .product
  | multiply (left : Derivation .product) (op : Operator) (h : op ∈ Operator.multiplicative)
      (sign : Span) (right : Derivation .power) : Derivation .product
  | term (operand : Derivation .product) : Derivation .sum
  | add (left : Derivation .sum) (op : Operator) (h : op ∈ Operator.additive)
      (sign : Span) (right : Derivation .product) : Derivation .sum

/-- One or more sums with commas between them. -/
inductive Arguments : Type where
  | one (argument : Derivation .sum)
  | more (before : Arguments) (comma : Span) (argument : Derivation .sum)

end

/-! ## What is derived -/

mutual

/-- The leaves of the derivation, from left to right. -/
def Derivation.lexemes : {n : Nonterminal} → Derivation n → List Lexeme
  | _, .number text span => [⟨.number text, span⟩]
  | _, .group opening inner closing =>
      ⟨.openBracket, opening⟩ :: inner.lexemes ++ [⟨.closeBracket, closing⟩]
  | _, .emptyCall f name opening closing =>
      [⟨.function f, name⟩, ⟨.openBracket, opening⟩, ⟨.closeBracket, closing⟩]
  | _, .call f name opening arguments closing =>
      ⟨.function f, name⟩ :: ⟨.openBracket, opening⟩ :: arguments.lexemes ++
        [⟨.closeBracket, closing⟩]
  | _, .unsigned operand => operand.lexemes
  | _, .minus sign operand => ⟨.operator .sub, sign⟩ :: operand.lexemes
  | _, .base operand => operand.lexemes
  | _, .raise left sign right => left.lexemes ++ ⟨.operator .pow, sign⟩ :: right.lexemes
  | _, .factor operand => operand.lexemes
  | _, .multiply left op _ sign right => left.lexemes ++ ⟨.operator op, sign⟩ :: right.lexemes
  | _, .term operand => operand.lexemes
  | _, .add left op _ sign right => left.lexemes ++ ⟨.operator op, sign⟩ :: right.lexemes

def Arguments.lexemes : Arguments → List Lexeme
  | .one argument => argument.lexemes
  | .more before comma argument => before.lexemes ++ ⟨.comma, comma⟩ :: argument.lexemes

end

/-- The lexemes have a derivation from `sum`. -/
def Derivable (lexemes : List Lexeme) : Prop :=
  ∃ d : Derivation .sum, d.lexemes = lexemes

/-- The lexemes can be continued to a derivable sequence. -/
def Viable (lexemes : List Lexeme) : Prop :=
  ∃ rest, Derivable (lexemes ++ rest)

/-! ## What a derivation stands for -/

mutual

/--
The tree of the derivation. Sums and products nest to the left and powers to the right because
their derivations do; a group leaves no node and only widens the span of what is inside.
-/
def Derivation.expr : {n : Nonterminal} → Derivation n → Expr
  | _, .number text span => .number (Literal.value text) span
  | _, .group opening inner closing => inner.expr.withSpan (opening.cover closing)
  | _, .emptyCall f name _ closing => .call f [] (name.cover closing)
  | _, .call f name _ arguments closing => .call f arguments.exprs (name.cover closing)
  | _, .unsigned operand => operand.expr
  | _, .minus sign operand => .negate operand.expr (sign.cover operand.expr.span)
  | _, .base operand => operand.expr
  | _, .raise left _ right => .join .pow left.expr right.expr
  | _, .factor operand => operand.expr
  | _, .multiply left op _ _ right => .join op left.expr right.expr
  | _, .term operand => operand.expr
  | _, .add left op _ _ right => .join op left.expr right.expr

/-- The trees of the arguments, in order. -/
def Arguments.exprs : Arguments → List Expr
  | .one argument => [argument.expr]
  | .more before _ argument => before.exprs ++ [argument.expr]

end

end Grammar
end Abacus
