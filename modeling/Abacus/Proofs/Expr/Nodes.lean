import Abacus.Expr.Arity
import Abacus.Expr.Evaluation
import Mathlib
/-!
The nodes of a tree, and the node that a failure is about.

Checking and evaluating a tree fail only where one of its nodes fails, and the range in the failure
is the range of that node.
-/

namespace Abacus

theorem bind_eq_ok_iff {ε α β : Type} {x : Except ε α} {f : α → Except ε β} {b : β} :
    x >>= f = .ok b ↔ ∃ a, x = .ok a ∧ f a = .ok b := by
  cases x with
  | error e =>
    constructor
    · intro h
      cases h
    · rintro ⟨a, h, _⟩
      cases h
  | ok a =>
    constructor
    · intro h
      exact ⟨a, rfl, h⟩
    · rintro ⟨a, h, hb⟩
      cases h
      exact hb

theorem bind_eq_error_iff {ε α β : Type} {x : Except ε α} {f : α → Except ε β} {e : ε} :
    x >>= f = .error e ↔ x = .error e ∨ ∃ a, x = .ok a ∧ f a = .error e := by
  cases x with
  | error d =>
    constructor
    · intro h
      cases h
      exact .inl rfl
    · rintro (h | ⟨a, h, _⟩)
      · cases h
        rfl
      · cases h
  | ok a =>
    constructor
    · intro h
      exact .inr ⟨a, rfl, h⟩
    · rintro (h | ⟨a, h, he⟩)
      · cases h
      · cases h
        exact he

theorem mapError_eq_ok_iff {ε ε' α : Type} {f : ε → ε'} {x : Except ε α} {a : α} :
    x.mapError f = .ok a ↔ x = .ok a := by
  cases x <;> simp [Except.mapError]

namespace Expr

/-- The operands or arguments of a node, from left to right. -/
def children : Expr → List Expr
  | number _ _ => []
  | negate operand _ => [operand]
  | binary _ left right _ => [left, right]
  | call _ arguments _ => arguments

/-- The node is the tree itself or lies below it. -/
inductive IsNode (n : Expr) : Expr → Prop where
  | root : IsNode n n
  | under {child e : Expr} (hchild : child ∈ e.children) (h : IsNode n child) : IsNode n e

theorem isNode_iff {n e : Expr} : IsNode n e ↔ n = e ∨ ∃ child ∈ e.children, IsNode n child := by
  constructor
  · intro h
    cases h with
    | root => exact .inl rfl
    | under hchild h => exact .inr ⟨_, hchild, h⟩
  · rintro (rfl | ⟨child, hchild, h⟩)
    · exact .root
    · exact .under hchild h

theorem isNode_trans {n m e : Expr} (hn : IsNode n m) (hm : IsNode m e) : IsNode n e := by
  induction hm with
  | root => exact hn
  | under hchild _ ih => exact .under hchild ih

theorem children_withSpan (span : Span) (e : Expr) : (e.withSpan span).children = e.children := by
  cases e <;> rfl

theorem isNode_number_iff {n : Expr} {value : Float} {span : Span} :
    IsNode n (number value span) ↔ n = number value span := by
  rw [isNode_iff]
  simp [children]

theorem isNode_negate_iff {n operand : Expr} {span : Span} :
    IsNode n (negate operand span) ↔ n = negate operand span ∨ IsNode n operand := by
  rw [isNode_iff]
  simp [children]

theorem isNode_binary_iff {n left right : Expr} {op : Operator} {span : Span} :
    IsNode n (binary op left right span) ↔
      n = binary op left right span ∨ IsNode n left ∨ IsNode n right := by
  rw [isNode_iff]
  simp [children]

theorem isNode_call_iff {n : Expr} {function : Function} {arguments : List Expr} {span : Span} :
    IsNode n (call function arguments span) ↔
      n = call function arguments span ∨ ∃ argument ∈ arguments, IsNode n argument := by
  rw [isNode_iff]
  simp only [children]

theorem isNode_join_iff {n left right : Expr} {op : Operator} :
    IsNode n (join op left right) ↔ n = join op left right ∨ IsNode n left ∨ IsNode n right := by
  rw [join, isNode_binary_iff]

/-! ## Numbers of arguments -/

/-- A call has as many arguments as its function needs. -/
def HasArity : Expr → Prop
  | number _ _ | negate _ _ | binary _ _ _ _ => True
  | call function arguments _ => arguments.length = function.arity

theorem checkArities_eq_ok_iff {es : List Expr} :
    checkArities es = .ok () ↔ ∀ e ∈ es, e.checkArity = .ok () := by
  induction es with
  | nil => simp [checkArities]
  | cons e rest ih =>
    rw [checkArities, bind_eq_ok_iff, List.forall_mem_cons, ← ih]
    constructor
    · rintro ⟨_, he, hrest⟩
      exact ⟨he, hrest⟩
    · rintro ⟨he, hrest⟩
      exact ⟨(), he, hrest⟩

theorem exists_of_checkArities_error {es : List Expr} {a : ArityError}
    (h : checkArities es = .error a) : ∃ e ∈ es, e.checkArity = .error a := by
  induction es with
  | nil => cases h
  | cons e rest ih =>
    rw [checkArities, bind_eq_error_iff] at h
    rcases h with h | ⟨_, _, h⟩
    · exact ⟨e, List.mem_cons_self, h⟩
    · obtain ⟨e', he', h⟩ := ih h
      exact ⟨e', List.mem_cons_of_mem e he', h⟩

/-- The check passes at a node if the node has its arity and the check passes at its children. -/
theorem checkArity_eq_ok_iff_children (e : Expr) :
    e.checkArity = .ok () ↔ e.HasArity ∧ ∀ child ∈ e.children, child.checkArity = .ok () := by
  cases e with
  | number value span => simp [checkArity, HasArity, children]
  | negate operand span => simp [checkArity, HasArity, children]
  | binary op left right span =>
    rw [checkArity, bind_eq_ok_iff]
    simp only [HasArity, children, true_and, List.forall_mem_cons, List.not_mem_nil,
      false_implies, implies_true, and_true]
    constructor
    · rintro ⟨_, hl, hr⟩
      exact ⟨hl, hr⟩
    · rintro ⟨hl, hr⟩
      exact ⟨(), hl, hr⟩
  | call function arguments span =>
    rw [checkArity, HasArity, children]
    by_cases hn : arguments.length = function.arity
    · rw [if_pos hn, checkArities_eq_ok_iff]
      simp only [hn, true_and]
    · rw [if_neg hn]
      simp [hn]

theorem checkArity_eq_ok_of_isNode {n e : Expr} (h : IsNode n e) (he : e.checkArity = .ok ()) :
    n.checkArity = .ok () := by
  induction h with
  | root => exact he
  | under hchild _ ih => exact ih (((checkArity_eq_ok_iff_children _).mp he).2 _ hchild)

/-- The check passes on the trees all of whose calls have their arity. -/
theorem checkArity_eq_ok_iff (e : Expr) :
    e.checkArity = .ok () ↔ ∀ n, IsNode n e → n.HasArity := by
  constructor
  · intro he n hn
    exact ((checkArity_eq_ok_iff_children n).mp (checkArity_eq_ok_of_isNode hn he)).1
  · intro h
    induction e using Expr.induct with
    | number value span => rfl
    | negate operand span ih =>
      rw [checkArity]
      exact ih fun n hn => h n (.under (List.mem_singleton_self operand) hn)
    | binary op left right span ihl ihr =>
      rw [checkArity_eq_ok_iff_children]
      refine ⟨trivial, ?_⟩
      simp only [children, List.forall_mem_cons]
      refine ⟨ihl fun n hn => h n (.under (by simp [children]) hn),
        ihr fun n hn => h n (.under (by simp [children]) hn), by simp⟩
    | call function arguments span ih =>
      rw [checkArity_eq_ok_iff_children]
      exact ⟨h _ .root, fun a ha => ih a ha fun n hn => h n (.under ha hn)⟩

/-- A complaint about a number of arguments is about the node with the range that it names. -/
theorem exists_isNode_of_checkArity_error {e : Expr} {a : ArityError}
    (h : e.checkArity = .error a) :
    ∃ n, IsNode n e ∧ n.checkArity = .error a ∧ a.span = n.span := by
  induction e using Expr.induct with
  | number value span => cases h
  | negate operand span ih =>
    obtain ⟨n, hn, herror, hspan⟩ := ih h
    exact ⟨n, .under (List.mem_singleton_self operand) hn, herror, hspan⟩
  | binary op left right span ihl ihr =>
    rw [checkArity, bind_eq_error_iff] at h
    rcases h with h | ⟨_, _, h⟩
    · obtain ⟨n, hn, herror, hspan⟩ := ihl h
      exact ⟨n, .under (by simp [children]) hn, herror, hspan⟩
    · obtain ⟨n, hn, herror, hspan⟩ := ihr h
      exact ⟨n, .under (by simp [children]) hn, herror, hspan⟩
  | call function arguments span ih =>
    rw [checkArity] at h
    by_cases hn : arguments.length = function.arity
    · rw [if_pos hn] at h
      obtain ⟨argument, ha, h⟩ := exists_of_checkArities_error h
      obtain ⟨n, hn, herror, hspan⟩ := ih argument ha h
      exact ⟨n, .under ha hn, herror, hspan⟩
    · rw [if_neg hn] at h
      refine ⟨_, .root, by rw [checkArity, if_neg hn, h], ?_⟩
      cases h
      rfl

end Expr

/-! ## Failing evaluations -/

namespace EvalError

def span : EvalError → Span
  | arity error => error.span
  | divisionByZero error | moduloByZero error => error.span

theorem span?_ofEvalError (x : EvalError) : (Failure.ofEvalError x).span? = some x.span := by
  cases x <;> rfl

end EvalError

namespace Expr

theorem exists_of_evaluateAllWith_error {a : Arithmetic} {es : List Expr} {x : EvalError}
    (h : evaluateAllWith a es = .error x) : ∃ e ∈ es, e.evaluateWith a = .error x := by
  induction es with
  | nil => cases h
  | cons e rest ih =>
    rw [evaluateAllWith, bind_eq_error_iff] at h
    rcases h with h | ⟨_, _, h⟩
    · exact ⟨e, List.mem_cons_self, h⟩
    · rw [bind_eq_error_iff] at h
      rcases h with h | ⟨_, _, h⟩
      · obtain ⟨e', he', h⟩ := ih h
        exact ⟨e', List.mem_cons_of_mem e he', h⟩
      · cases h

/-- An evaluation fails where a node fails, and names the range of that node. -/
theorem exists_isNode_of_evaluateWith_error {a : Arithmetic} {e : Expr} {x : EvalError}
    (h : e.evaluateWith a = .error x) :
    ∃ n, IsNode n e ∧ n.evaluateWith a = .error x ∧ x.span = n.span := by
  induction e using Expr.induct with
  | number value span => cases h
  | negate operand span ih =>
    rw [evaluateWith, bind_eq_error_iff] at h
    rcases h with h | ⟨_, _, h⟩
    · obtain ⟨n, hn, herror, hspan⟩ := ih h
      exact ⟨n, .under (List.mem_singleton_self operand) hn, herror, hspan⟩
    · cases h
  | binary op left right span ihl ihr =>
    have hroot := h
    rw [evaluateWith, bind_eq_error_iff] at h
    rcases h with h | ⟨x, _, h⟩
    · obtain ⟨n, hn, herror, hspan⟩ := ihl h
      exact ⟨n, .under (by simp [children]) hn, herror, hspan⟩
    · rw [bind_eq_error_iff] at h
      rcases h with h | ⟨y, _, h⟩
      · obtain ⟨n, hn, herror, hspan⟩ := ihr h
        exact ⟨n, .under (by simp [children]) hn, herror, hspan⟩
      · refine ⟨_, .root, hroot, ?_⟩
        cases op with
        | div | mod =>
          by_cases hy : isZero y = true <;> simp only [Operator.zeroDivisor?, hy] at h <;> cases h
          rfl
        | add | sub | mul | pow => cases h
  | call function arguments span ih =>
    have hroot := h
    rw [evaluateWith] at h
    by_cases hn : arguments.length = function.arity
    · rw [if_pos hn, bind_eq_error_iff] at h
      rcases h with h | ⟨_, _, h⟩
      · obtain ⟨argument, ha, h⟩ := exists_of_evaluateAllWith_error h
        obtain ⟨n, hn, herror, hspan⟩ := ih argument ha h
        exact ⟨n, .under ha hn, herror, hspan⟩
      · cases h
    · rw [if_neg hn] at h
      refine ⟨_, .root, hroot, ?_⟩
      cases h
      rfl

end Expr
end Abacus
