import Abacus.Proofs.Expr.Nodes
/-!
Trees whose ranges have been moved.

Only the ranges in a failure look at the ranges of a tree: its text, its check and its value are the
same wherever it was read from.
-/

namespace Abacus

namespace Span

/-- The map moves the two ends of a range independently of each other. -/
def Endwise (f : Span → Span) : Prop :=
  ∀ first last : Span, f (first.cover last) = (f first).cover (f last)

/-- The same bytes, counted from byte `offset`. -/
def back (offset : Nat) (span : Span) : Span :=
  ⟨span.start - offset, span.stop - offset⟩

theorem endwise_back (offset : Nat) : Endwise (back offset) := by
  intro first last
  rfl

/-- The same bytes, after `offset` more were put before them. -/
def ahead (offset : Nat) (span : Span) : Span :=
  ⟨offset + span.start, offset + span.stop⟩

theorem ahead_zero (span : Span) : span.ahead 0 = span := by
  rw [ahead, Nat.zero_add, Nat.zero_add]

theorem endwise_ahead (offset : Nat) : Endwise (ahead offset) := by
  intro first last
  rfl

end Span

/-- The same token, read from other bytes. -/
def Lexeme.mapSpan (f : Span → Span) (l : Lexeme) : Lexeme :=
  { l with span := f l.span }

namespace ArityError

def mapSpan (f : Span → Span) (error : ArityError) : ArityError :=
  { error with span := f error.span }

end ArityError

namespace EvalError

def mapSpan (f : Span → Span) : EvalError → EvalError
  | arity error => arity (error.mapSpan f)
  | divisionByZero error => divisionByZero { error with span := f error.span }
  | moduloByZero error => moduloByZero { error with span := f error.span }

theorem ofEvalError_mapSpan (f : Span → Span) (x : EvalError) :
    Failure.ofEvalError (x.mapSpan f) = (Failure.ofEvalError x).mapSpan f := by
  cases x <;> rfl

end EvalError

namespace Expr

mutual

/-- The tree with the ranges of all its nodes moved. -/
def mapSpan (f : Span → Span) : Expr → Expr
  | number value span => number value (f span)
  | negate operand span => negate (mapSpan f operand) (f span)
  | binary op left right span => binary op (mapSpan f left) (mapSpan f right) (f span)
  | call function arguments span => call function (mapSpans f arguments) (f span)

def mapSpans (f : Span → Span) : List Expr → List Expr
  | [] => []
  | e :: rest => mapSpan f e :: mapSpans f rest

end

attribute [local simp] mapSpan mapSpans

theorem mapSpans_eq_map (f : Span → Span) (es : List Expr) : mapSpans f es = es.map (mapSpan f) := by
  induction es with
  | nil => rfl
  | cons e rest ih => rw [mapSpans, ih, List.map_cons]

theorem span_mapSpan (f : Span → Span) (e : Expr) : (e.mapSpan f).span = f e.span := by
  cases e <;> simp [span]

theorem mapSpan_withSpan (f : Span → Span) (span : Span) (e : Expr) :
    (e.withSpan span).mapSpan f = (e.mapSpan f).withSpan (f span) := by
  cases e <;> simp [withSpan]

theorem mapSpan_join {f : Span → Span} (h : Span.Endwise f) (op : Operator) (left right : Expr) :
    (join op left right).mapSpan f = join op (left.mapSpan f) (right.mapSpan f) := by
  rw [join, mapSpan, h, join, span_mapSpan, span_mapSpan]

theorem children_mapSpan (f : Span → Span) (e : Expr) :
    (e.mapSpan f).children = e.children.map (mapSpan f) := by
  cases e with
  | number value span => rw [mapSpan, children, children, List.map_nil]
  | negate operand span => rw [mapSpan, children, children, List.map_cons, List.map_nil]
  | binary op left right span =>
    rw [mapSpan, children, children, List.map_cons, List.map_cons, List.map_nil]
  | call function arguments span => rw [mapSpan, children, children, mapSpans_eq_map]

/-- The nodes of a moved tree are the moved nodes. -/
theorem isNode_mapSpan {n e : Expr} (f : Span → Span) (h : n.IsNode e) :
    (n.mapSpan f).IsNode (e.mapSpan f) := by
  induction h with
  | root => exact .root
  | @under child e hchild _ ih =>
    have hmoved : child.mapSpan f ∈ (e.mapSpan f).children := by
      rw [children_mapSpan]
      exact List.mem_map_of_mem hchild
    exact .under hmoved ih

theorem mapSpan_mapSpan (f g : Span → Span) (e : Expr) :
    (e.mapSpan f).mapSpan g = e.mapSpan fun span => g (f span) := by
  induction e using Expr.induct with
  | number value span => rw [mapSpan, mapSpan, mapSpan]
  | negate operand span ih => rw [mapSpan, mapSpan, mapSpan, ih]
  | binary op left right span ihl ihr => rw [mapSpan, mapSpan, mapSpan, ihl, ihr]
  | call function arguments span ih =>
    rw [mapSpan, mapSpan, mapSpan, mapSpans_eq_map, mapSpans_eq_map, mapSpans_eq_map, List.map_map]
    exact congrArg (call function · _) (List.map_congr_left ih)

theorem mapSpan_id (e : Expr) : e.mapSpan id = e := by
  induction e using Expr.induct with
  | number value span => rw [mapSpan, id]
  | negate operand span ih => rw [mapSpan, ih, id]
  | binary op left right span ihl ihr => rw [mapSpan, ihl, ihr, id]
  | call function arguments span ih =>
    rw [mapSpan, mapSpans_eq_map, List.map_congr_left ih, List.map_id', id]

theorem precedence_mapSpan (f : Span → Span) (e : Expr) :
    (e.mapSpan f).precedence = e.precedence := by
  cases e <;> simp [precedence]

theorem text_mapSpan (f : Span → Span) (e : Expr) : (e.mapSpan f).text = e.text := by
  induction e using Expr.induct with
  | number value span => rw [mapSpan, text, text]
  | negate operand span ih => rw [mapSpan, text, text, ih, precedence_mapSpan]
  | binary op left right span ihl ihr =>
    rw [mapSpan, text, text, ihl, ihr, precedence_mapSpan, precedence_mapSpan]
  | call function arguments span ih =>
    have harguments : texts (mapSpans f arguments) = texts arguments := by
      rw [texts_eq_map, texts_eq_map, mapSpans_eq_map, List.map_map]
      exact List.map_congr_left ih
    rw [mapSpan, text, text, harguments]

/-! ## Checking and evaluating -/

theorem checkArities_mapSpans {f : Span → Span} {es : List Expr}
    (h : ∀ e ∈ es, (e.mapSpan f).checkArity = e.checkArity.mapError (ArityError.mapSpan f)) :
    checkArities (mapSpans f es) = (checkArities es).mapError (ArityError.mapSpan f) := by
  induction es with
  | nil => rfl
  | cons e rest ih =>
    rw [mapSpans, checkArities, checkArities, h e List.mem_cons_self,
      ih fun e' he' => h e' (List.mem_cons_of_mem e he')]
    cases e.checkArity <;> rfl

theorem checkArity_mapSpan (f : Span → Span) (e : Expr) :
    (e.mapSpan f).checkArity = e.checkArity.mapError (ArityError.mapSpan f) := by
  induction e using Expr.induct with
  | number value span => rw [mapSpan, checkArity, checkArity, Except.mapError]
  | negate operand span ih => rw [mapSpan, checkArity, checkArity, ih]
  | binary op left right span ihl ihr =>
    rw [mapSpan, checkArity, checkArity, ihl, ihr]
    cases left.checkArity <;> rfl
  | call function arguments span ih =>
    have hlength : (mapSpans f arguments).length = arguments.length := by
      rw [mapSpans_eq_map, List.length_map]
    rw [mapSpan, checkArity, checkArity, hlength, checkArities_mapSpans ih]
    by_cases hn : arguments.length = function.arity
    · rw [if_pos hn, if_pos hn]
    · rw [if_neg hn, if_neg hn]
      rfl

theorem checkArity_mapSpan_eq_ok (f : Span → Span) {e : Expr} (h : e.checkArity = .ok ()) :
    (e.mapSpan f).checkArity = .ok () := by
  rw [checkArity_mapSpan, h]
  rfl

theorem evaluateAllWith_mapSpans {a : Arithmetic} {f : Span → Span} {es : List Expr}
    (h : ∀ e ∈ es, (e.mapSpan f).evaluateWith a =
      (e.evaluateWith a).mapError (EvalError.mapSpan f)) :
    evaluateAllWith a (mapSpans f es) = (evaluateAllWith a es).mapError (EvalError.mapSpan f) := by
  induction es with
  | nil => rfl
  | cons e rest ih =>
    rw [mapSpans, evaluateAllWith, evaluateAllWith, h e List.mem_cons_self,
      ih fun e' he' => h e' (List.mem_cons_of_mem e he')]
    cases e.evaluateWith a with
    | error x => rfl
    | ok x => cases evaluateAllWith a rest <;> rfl

theorem evaluateWith_mapSpan (a : Arithmetic) (f : Span → Span) (e : Expr) :
    (e.mapSpan f).evaluateWith a = (e.evaluateWith a).mapError (EvalError.mapSpan f) := by
  induction e using Expr.induct with
  | number value span => rw [mapSpan, evaluateWith, evaluateWith, Except.mapError]
  | negate operand span ih =>
    rw [mapSpan, evaluateWith, evaluateWith, ih]
    cases operand.evaluateWith a <;> rfl
  | binary op left right span ihl ihr =>
    rw [mapSpan, evaluateWith, evaluateWith, ihl, ihr, text_mapSpan, text_mapSpan]
    cases left.evaluateWith a with
    | error x => rfl
    | ok x =>
      cases right.evaluateWith a with
      | error y => rfl
      | ok y =>
        cases op with
        | div | mod =>
          show (if isZero y = true then _ else _) =
            Except.mapError _ (if isZero y = true then _ else _)
          by_cases hy : isZero y = true
          · rw [if_pos hy, if_pos hy]
            rfl
          · rw [if_neg hy, if_neg hy]
            rfl
        | add | sub | mul | pow => rfl
  | call function arguments span ih =>
    have hlength : (mapSpans f arguments).length = arguments.length := by
      rw [mapSpans_eq_map, List.length_map]
    rw [mapSpan, evaluateWith, evaluateWith, hlength, evaluateAllWith_mapSpans ih]
    by_cases hn : arguments.length = function.arity
    · rw [if_pos hn, if_pos hn]
      cases evaluateAllWith a arguments <;> rfl
    · rw [if_neg hn, if_neg hn]
      rfl

/-! ## Trees without ranges -/

/-- The tree without its ranges. Two trees are the same up to ranges if these are equal. -/
def bare (e : Expr) : Expr :=
  e.mapSpan fun _ => ⟨0, 0⟩

theorem bare_mapSpan (f : Span → Span) (e : Expr) : (e.mapSpan f).bare = e.bare :=
  e.mapSpan_mapSpan f _

theorem bare_number (value : Float) (span : Span) :
    (number value span).bare = number value ⟨0, 0⟩ := by
  rw [bare, mapSpan]

theorem bare_negate (operand : Expr) (span : Span) :
    (negate operand span).bare = negate operand.bare ⟨0, 0⟩ := by
  rw [bare, mapSpan, bare]

theorem bare_binary (op : Operator) (left right : Expr) (span : Span) :
    (binary op left right span).bare = binary op left.bare right.bare ⟨0, 0⟩ := by
  rw [bare, mapSpan, bare, bare]

theorem bare_call (function : Function) (arguments : List Expr) (span : Span) :
    (call function arguments span).bare = call function (arguments.map bare) ⟨0, 0⟩ := by
  rw [bare, mapSpan, mapSpans_eq_map]
  rfl

theorem bare_withSpan (span : Span) (e : Expr) : (e.withSpan span).bare = e.bare := by
  cases e <;> simp only [withSpan, bare_number, bare_negate, bare_binary, bare_call]

/-- Whether the calls of a tree have their arities does not depend on its ranges. -/
theorem checkArity_of_bare_eq {a b : Expr} (h : a.bare = b.bare) (hb : b.checkArity = .ok ()) :
    a.checkArity = .ok () := by
  have := congrArg checkArity h
  rw [bare, bare, checkArity_mapSpan, checkArity_mapSpan, hb] at this
  cases ha : a.checkArity with
  | ok _ => rfl
  | error error =>
    rw [ha] at this
    cases this

end Expr
end Abacus
