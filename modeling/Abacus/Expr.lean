import Abacus.Function
import Abacus.Operator
import Abacus.Span
/-!
Expression trees. Every node knows the bytes it was read from.
-/

namespace Abacus

inductive Expr where
  | number (value : Float) (span : Span)
  | negate (operand : Expr) (span : Span)
  | binary (op : Operator) (left right : Expr) (span : Span)
  | call (function : Function) (arguments : List Expr) (span : Span)

namespace Expr

def span : Expr → Span
  | number _ span | negate _ span | binary _ _ _ span | call _ _ span => span

/-- The same node, read from other bytes. -/
def withSpan (span : Span) : Expr → Expr
  | number value _ => number value span
  | negate operand _ => negate operand span
  | binary op left right _ => binary op left right span
  | call function arguments _ => call function arguments span

/-- Two operands joined by an operator, from the start of the left to the end of the right. -/
def join (op : Operator) (left right : Expr) : Expr :=
  binary op left right (left.span.cover right.span)

/-- Induction over all nodes; in a call the statement is given for each argument. -/
theorem induct {motive : Expr → Prop}
    (number : ∀ value span, motive (number value span))
    (negate : ∀ operand span, motive operand → motive (negate operand span))
    (binary : ∀ op left right span, motive left → motive right →
      motive (binary op left right span))
    (call : ∀ function arguments span, (∀ a ∈ arguments, motive a) →
      motive (call function arguments span))
    (e : Expr) : motive e := by
  refine @Expr.rec motive (fun arguments => ∀ a ∈ arguments, motive a)
    number negate binary call ?_ ?_ e
  · simp
  · intro head tail hhead htail a ha
    cases List.mem_cons.1 ha with
    | inl h => exact h ▸ hhead
    | inr h => exact htail a h

@[simp] theorem span_withSpan (span : Span) (e : Expr) : (e.withSpan span).span = span := by
  cases e <;> rfl

@[simp] theorem withSpan_span (e : Expr) : e.withSpan e.span = e := by
  cases e <;> rfl

end Expr
end Abacus
