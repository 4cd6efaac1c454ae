import Abacus.Proofs.Expr.Nodes
/-!
Evaluation fails exactly on zero divisors.

`valueWith` computes a tree without ever asking for a divisor, and `nodes` lists the tree in the
order in which its nodes are computed. The evaluation of a tree is then a search: the first node of
the list that divides by zero is the failure, and without such a node the result is the value.
-/

namespace Abacus

theorem exists_unpack_of_isZero {x : Float} (h : isZero x = true) :
    ∃ sign, x.toModel.unpack = .zero sign := by
  unfold isZero at h
  split at h
  · next sign hx => exact ⟨sign, hx⟩
  · contradiction

theorem isZero_eq_beq (x : Float) : isZero x = (x == 0) := by
  obtain ⟨sign, hzero⟩ := exists_unpack_of_isZero (x := 0) (by decide +kernel)
  show isZero x = x.toModel.unpack.beq (0 : Float).toModel.unpack
  rw [hzero, isZero]
  cases x.toModel.unpack with
  | zero | notANumber => rfl
  | infinity s => cases s <;> rfl
  | finite s => cases s <;> rfl

namespace Expr

/-! ## Values without checks -/

mutual

/-- What the operations make of the tree, whatever its divisors are. -/
def valueWith (a : Arithmetic) : Expr → Float
  | number value _ => value
  | negate operand _ => a.negate (valueWith a operand)
  | binary op left right _ => a.binary op (valueWith a left) (valueWith a right)
  | call function arguments _ => a.call function (valuesWith a arguments)

def valuesWith (a : Arithmetic) : List Expr → List Float
  | [] => []
  | e :: rest => valueWith a e :: valuesWith a rest

end

/-- The node is a quotient or a remainder, and its divisor has the value zero. -/
def DividesByZero (a : Arithmetic) : Expr → Prop
  | binary op _ right _ => (op = .div ∨ op = .mod) ∧ (right.valueWith a == 0) = true
  | number _ _ | negate _ _ | call _ _ _ => False

/-- What is wrong with the node itself, its operands aside. -/
def zeroDivision? (a : Arithmetic) : Expr → Option EvalError
  | binary op left right span =>
      if isZero (right.valueWith a) then
        op.zeroDivisor?.map fun error => error ⟨left.text, right.text, span⟩
      else none
  | number _ _ | negate _ _ | call _ _ _ => none

theorem zeroDivision?_eq_none_iff {a : Arithmetic} {n : Expr} :
    n.zeroDivision? a = none ↔ ¬ n.DividesByZero a := by
  cases n with
  | binary op left right span =>
    rw [zeroDivision?, DividesByZero, isZero_eq_beq]
    cases op <;> simp [Operator.zeroDivisor?]
  | number | negate | call => simp [zeroDivision?, DividesByZero]

theorem exists_of_zeroDivision?_eq_some {a : Arithmetic} {n : Expr} {error : EvalError}
    (h : n.zeroDivision? a = some error) :
    ∃ op left right span, n = binary op left right span ∧ (right.valueWith a == 0) = true ∧
      (op = .div ∧ error = .divisionByZero ⟨left.text, right.text, span⟩ ∨
        op = .mod ∧ error = .moduloByZero ⟨left.text, right.text, span⟩) := by
  cases n with
  | binary op left right span =>
    rw [zeroDivision?, isZero_eq_beq] at h
    by_cases hzero : (right.valueWith a == 0) = true
    · rw [if_pos hzero] at h
      refine ⟨op, left, right, span, rfl, hzero, ?_⟩
      cases op with
      | div => exact .inl ⟨rfl, (Option.some.inj h).symm⟩
      | mod => exact .inr ⟨rfl, (Option.some.inj h).symm⟩
      | add | sub | mul | pow => contradiction
    · rw [if_neg hzero] at h
      contradiction
  | number | negate | call => contradiction

/-! ## The order of the nodes -/

mutual

/-- The nodes of the tree: operands and arguments from left to right, and the node after them. -/
def nodes : Expr → List Expr
  | number value span => [number value span]
  | negate operand span => nodes operand ++ [negate operand span]
  | binary op left right span => nodes left ++ nodes right ++ [binary op left right span]
  | call function arguments span => nodesOfAll arguments ++ [call function arguments span]

def nodesOfAll : List Expr → List Expr
  | [] => []
  | e :: rest => nodes e ++ nodesOfAll rest

end

theorem mem_nodesOfAll_iff {n : Expr} {es : List Expr} :
    n ∈ nodesOfAll es ↔ ∃ e ∈ es, n ∈ e.nodes := by
  induction es with
  | nil => simp [nodesOfAll]
  | cons e rest ih => simp [nodesOfAll, ih]

theorem mem_nodes_iff {n e : Expr} : n ∈ e.nodes ↔ IsNode n e := by
  induction e using Expr.induct with
  | number value span => rw [isNode_number_iff, nodes, List.mem_singleton]
  | negate operand span ih =>
    rw [isNode_negate_iff, nodes, List.mem_append, List.mem_singleton, ih, or_comm]
  | binary op left right span ihl ihr =>
    rw [isNode_binary_iff, nodes, List.mem_append, List.mem_append, List.mem_singleton, ihl, ihr,
      or_comm]
  | call function arguments span ih =>
    rw [isNode_call_iff, nodes, List.mem_append, List.mem_singleton, mem_nodesOfAll_iff, or_comm]
    refine or_congr_right (exists_congr fun argument => and_congr_right fun hargument => ?_)
    exact ih argument hargument

end Expr

/-- The failure if there is one, and otherwise the value. -/
def EvalError.orValue {α : Type} (failure : Option EvalError) (value : α) : Except EvalError α :=
  failure.elim (.ok value) .error

namespace Expr

open EvalError (orValue)

/-! ## Evaluation as a search -/

theorem evaluateAllWith_eq {a : Arithmetic} {es : List Expr}
    (h : ∀ e ∈ es,
      e.evaluateWith a = orValue (e.nodes.findSome? (zeroDivision? a)) (e.valueWith a)) :
    evaluateAllWith a es =
      orValue ((nodesOfAll es).findSome? (zeroDivision? a)) (valuesWith a es) := by
  induction es with
  | nil => rfl
  | cons e rest ih =>
    rw [List.forall_mem_cons] at h
    rw [evaluateAllWith, h.1, ih h.2, nodesOfAll, valuesWith, List.findSome?_append]
    cases e.nodes.findSome? (zeroDivision? a) with
    | some error => rfl
    | none => cases (nodesOfAll rest).findSome? (zeroDivision? a) <;> rfl

/-- Where both operands have a value, only the node itself is left to fail. -/
theorem divide_eq (a : Arithmetic) (op : Operator) (left right : Expr) (span : Span) (x : Float) :
    (match op.zeroDivisor? with
      | some error =>
          if isZero (right.valueWith a) then .error (error ⟨left.text, right.text, span⟩)
          else .ok x
      | none => .ok x) = orValue ((binary op left right span).zeroDivision? a) x := by
  rw [zeroDivision?]
  cases op <;> by_cases hzero : isZero (right.valueWith a) = true <;>
    simp [Operator.zeroDivisor?, hzero, orValue]

/-- A tree whose calls have their arity fails at its first node that divides by zero. -/
theorem evaluateWith_eq {a : Arithmetic} {e : Expr} (h : e.checkArity = .ok ()) :
    e.evaluateWith a = orValue (e.nodes.findSome? (zeroDivision? a)) (e.valueWith a) := by
  induction e using Expr.induct with
  | number value span => rfl
  | negate operand span ih =>
    rw [evaluateWith, ih h, nodes, List.findSome?_append]
    cases operand.nodes.findSome? (zeroDivision? a) <;> rfl
  | binary op left right span ihl ihr =>
    have harity := ((checkArity_eq_ok_iff_children _).mp h).2
    have hleft := ihl (harity left (by simp [children]))
    have hright := ihr (harity right (by simp [children]))
    rw [evaluateWith, hleft, hright, nodes, List.findSome?_append, List.findSome?_append]
    cases left.nodes.findSome? (zeroDivision? a) with
    | some error => rfl
    | none =>
      cases right.nodes.findSome? (zeroDivision? a) with
      | some error => rfl
      | none =>
        rw [List.findSome?_singleton]
        exact divide_eq a op left right span _
  | call function arguments span ih =>
    obtain ⟨hlength, harity⟩ := (checkArity_eq_ok_iff_children _).mp h
    rw [HasArity] at hlength
    have hall := evaluateAllWith_eq fun e he => ih e he (harity e he)
    rw [evaluateWith, if_pos hlength, hall, nodes, List.findSome?_append]
    cases (nodesOfAll arguments).findSome? (zeroDivision? a) <;> rfl

theorem findSome?_zeroDivision?_eq_none_iff {a : Arithmetic} {e : Expr} :
    e.nodes.findSome? (zeroDivision? a) = none ↔ ∀ n, IsNode n e → ¬ n.DividesByZero a := by
  simp only [List.findSome?_eq_none_iff, mem_nodes_iff, zeroDivision?_eq_none_iff]

/--
A tree whose calls have their arity has a value exactly if none of its nodes divides by zero, and
then it is the value without checks. Otherwise the first node that divides by zero, operands before
the node, gives the failure its operation, its operands as printed, and its range.
-/
theorem evaluateWith_fails_at_first_zero_divisor (a : Arithmetic) (e : Expr)
    (h : ∀ n, IsNode n e → n.HasArity) :
    ((∃ x, e.evaluateWith a = .ok x) ↔ ∀ n, IsNode n e → ¬ n.DividesByZero a) ∧
      ((∀ n, IsNode n e → ¬ n.DividesByZero a) → e.evaluateWith a = .ok (e.valueWith a)) ∧
      ((∃ n, IsNode n e ∧ n.DividesByZero a) →
        ∃ before op left right span after,
          e.nodes = before ++ binary op left right span :: after ∧
          (∀ n ∈ before, ¬ n.DividesByZero a) ∧ (right.valueWith a == 0) = true ∧
          (op = .div ∧
              e.evaluateWith a = .error (.divisionByZero ⟨left.text, right.text, span⟩) ∨
            op = .mod ∧
              e.evaluateWith a = .error (.moduloByZero ⟨left.text, right.text, span⟩))) := by
  have heq := evaluateWith_eq (a := a) ((checkArity_eq_ok_iff e).mpr h)
  have hnone := findSome?_zeroDivision?_eq_none_iff (a := a) (e := e)
  cases hfirst : e.nodes.findSome? (zeroDivision? a) with
  | none =>
    have hok : e.evaluateWith a = .ok (e.valueWith a) := by rw [heq, hfirst]; rfl
    have hall := hnone.mp hfirst
    exact ⟨⟨fun _ => hall, fun _ => ⟨_, hok⟩⟩, fun _ => hok,
      fun ⟨n, hn, hzero⟩ => absurd hzero (hall n hn)⟩
  | some error =>
    have herror : e.evaluateWith a = .error error := by rw [heq, hfirst]; rfl
    have hexists : ¬ ∀ n, IsNode n e → ¬ n.DividesByZero a := by
      rw [← hnone, hfirst]
      simp
    refine ⟨⟨fun ⟨x, hx⟩ => ?_, fun hall => absurd hall hexists⟩,
      fun hall => absurd hall hexists, fun _ => ?_⟩
    · rw [herror] at hx
      contradiction
    · obtain ⟨before, n, after, hnodes, hn, hbefore⟩ := List.findSome?_eq_some_iff.mp hfirst
      obtain ⟨op, left, right, span, rfl, hzero, hop⟩ := exists_of_zeroDivision?_eq_some hn
      refine ⟨before, op, left, right, span, after, hnodes, fun m hm => ?_, hzero, ?_⟩
      · exact zeroDivision?_eq_none_iff.mp (hbefore m hm)
      · rw [herror]
        exact hop.imp (And.imp_right (congrArg Except.error))
          (And.imp_right (congrArg Except.error))

/-- The remainder comes first: a call looks at its first argument before its second. -/
theorem evaluate_zero_divisors_in_call :
    let remainder := binary .mod (number 6 ⟨6, 7⟩)
      (binary .sub (number 3 ⟨9, 10⟩) (number 3 ⟨11, 12⟩) ⟨8, 13⟩) ⟨6, 13⟩
    let quotient := binary .div (number 1 ⟨14, 15⟩) (negate (number 0 ⟨17, 18⟩) ⟨16, 18⟩) ⟨14, 18⟩
    let e := call .power [remainder, quotient] ⟨0, 19⟩
    (∀ n, IsNode n e → n.HasArity) ∧ (∃ n, IsNode n e ∧ n.DividesByZero .binary64) ∧
      (¬ ∃ x, e.evaluate = .ok x) ∧
      (∃ before op left right span after,
        e.nodes = before ++ binary op left right span :: after ∧
        (∀ n ∈ before, ¬ n.DividesByZero .binary64) ∧ (right.valueWith .binary64 == 0) = true ∧
        (op = .div ∧ e.evaluate = .error (.divisionByZero ⟨left.text, right.text, span⟩) ∨
          op = .mod ∧ e.evaluate = .error (.moduloByZero ⟨left.text, right.text, span⟩))) ∧
      e.evaluate = .error (.moduloByZero ⟨['6'], "3 - 3".toList, ⟨6, 13⟩⟩) := by
  intro remainder quotient e
  have harity : ∀ n, IsNode n e → n.HasArity := (checkArity_eq_ok_iff e).mp rfl
  have hquotient : IsNode quotient e := .under (by simp [e, children]) .root
  have hdivides : quotient.DividesByZero .binary64 := ⟨.inl rfl, by decide +kernel⟩
  obtain ⟨hok, _, hfirst⟩ := evaluateWith_fails_at_first_zero_divisor .binary64 e harity
  exact ⟨harity, ⟨_, hquotient, hdivides⟩, fun hx => hok.mp hx _ hquotient hdivides,
    hfirst ⟨_, hquotient, hdivides⟩, by decide +kernel⟩

end Expr
end Abacus
