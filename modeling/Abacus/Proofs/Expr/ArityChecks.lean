import Abacus.Parser
import Abacus.Proofs.Expr.Nodes
/-!
The two checks of argument counts.

A tree is checked once before it is evaluated, and again at each call while it is. Both ways meet the
calls in the same order, so they complain about the same call, unless a zero divisor ends the
evaluation before it gets there. A function is therefore only ever applied to as many values as it
takes.
-/

namespace Abacus

/-! ## Agreement -/

/--
The end of an evaluation and the end of a check come to the same. After a zero divisor nothing is
known of the calls that have not been reached.
-/
inductive Agrees {α : Type} : Except EvalError α → Except ArityError Unit → Prop where
  | ok (x : α) : Agrees (.ok x) (.ok ())
  | arity (error : ArityError) : Agrees (.error (.arity error)) (.error error)
  | divisionByZero (error : ZeroDivisor) (check : Except ArityError Unit) :
      Agrees (.error (.divisionByZero error)) check
  | moduloByZero (error : ZeroDivisor) (check : Except ArityError Unit) :
      Agrees (.error (.moduloByZero error)) check

namespace Agrees

variable {α β : Type} {result : Except EvalError α} {check next : Except ArityError Unit}

/-- What follows has to agree only where the evaluation goes on. -/
theorem bind (h : Agrees result check) {f : α → Except EvalError β}
    (hf : ∀ x, Agrees (f x) next) : Agrees (result >>= f) (check >>= fun _ => next) := by
  cases h with
  | ok x => exact hf x
  | arity error => exact .arity error
  | divisionByZero error => exact .divisionByZero error _
  | moduloByZero error => exact .moduloByZero error _

/-- What follows may have nothing left to check. -/
theorem andThen (h : Agrees result check) {f : α → Except EvalError β}
    (hf : ∀ x, Agrees (f x) (.ok ())) : Agrees (result >>= f) check := by
  have hcheck : (check >>= fun _ => .ok ()) = check := by
    cases check <;> rfl
  rw [← hcheck]
  exact h.bind hf

theorem eq_error_of_arity {error : ArityError}
    (h : Agrees (.error (.arity error) : Except EvalError α) check) : check = .error error := by
  cases h
  rfl

theorem error_cases {error : ArityError} (h : Agrees result (.error error)) :
    result = .error (.arity error) ∨
      ∃ z, result = .error (.divisionByZero z) ∨ result = .error (.moduloByZero z) := by
  cases h with
  | arity => exact .inl rfl
  | divisionByZero z => exact .inr ⟨z, .inl rfl⟩
  | moduloByZero z => exact .inr ⟨z, .inr rfl⟩

end Agrees

namespace Expr

theorem agrees_divide (op : Operator) (operands : ZeroDivisor) (x y : Float) :
    Agrees
      (match op.zeroDivisor? with
      | some error => if isZero y then .error (error operands) else .ok x
      | none => .ok x)
      (.ok ()) := by
  by_cases hzero : isZero y = true
  · cases op with
    | div => simpa only [Operator.zeroDivisor?, if_pos hzero] using .divisionByZero operands _
    | mod => simpa only [Operator.zeroDivisor?, if_pos hzero] using .moduloByZero operands _
    | add | sub | mul | pow => exact .ok x
  · cases op with
    | div | mod => simpa only [Operator.zeroDivisor?, if_neg hzero] using .ok x
    | add | sub | mul | pow => exact .ok x

theorem agrees_evaluateAllWith {a : Arithmetic} {es : List Expr}
    (h : ∀ e ∈ es, Agrees (e.evaluateWith a) e.checkArity) :
    Agrees (evaluateAllWith a es) (checkArities es) := by
  induction es with
  | nil => exact .ok []
  | cons e rest ih =>
    rw [List.forall_mem_cons] at h
    rw [evaluateAllWith, checkArities]
    apply h.1.bind
    intro x
    exact (ih h.2).andThen fun xs => .ok (x :: xs)

/-- Evaluating a tree and checking it come to the same, whatever the operations mean. -/
theorem agrees_evaluateWith (a : Arithmetic) (e : Expr) :
    Agrees (e.evaluateWith a) e.checkArity := by
  induction e using Expr.induct with
  | number value span => exact .ok value
  | negate operand span ih =>
    rw [evaluateWith, checkArity]
    exact ih.andThen fun x => .ok (a.negate x)
  | binary op left right span ihl ihr =>
    rw [evaluateWith, checkArity]
    apply ihl.bind
    intro x
    apply ihr.andThen
    intro y
    exact agrees_divide op ⟨left.text, right.text, span⟩ (a.binary op x y) y
  | call function arguments span ih =>
    rw [evaluateWith, checkArity]
    by_cases hn : arguments.length = function.arity
    · rw [if_pos hn, if_pos hn]
      exact (agrees_evaluateAllWith ih).andThen fun values => .ok (a.call function values)
    · rw [if_neg hn, if_neg hn]
      exact .arity _

theorem length_of_evaluateAllWith {a : Arithmetic} {es : List Expr} {values : List Float}
    (h : evaluateAllWith a es = .ok values) : values.length = es.length := by
  induction es generalizing values with
  | nil =>
    cases h
    rfl
  | cons e rest ih =>
    rw [evaluateAllWith, bind_eq_ok_iff] at h
    obtain ⟨x, _, h⟩ := h
    obtain ⟨xs, hxs, h⟩ := bind_eq_ok_iff.mp h
    cases h
    rw [List.length_cons, List.length_cons, ih hxs]

end Expr

namespace Parser

theorem parse_eq_ok_iff {lexemes : List Lexeme} {length : Nat} {e : Expr} :
    parse lexemes length = .ok e ↔ tree lexemes length = .ok e ∧ e.checkArity = .ok () := by
  rw [parse]
  cases tree lexemes length with
  | error p => simp
  | ok e' =>
    dsimp only
    cases hcheck : e'.checkArity with
    | error a =>
      constructor
      · intro h
        contradiction
      · rintro ⟨h, he⟩
        cases h
        rw [hcheck] at he
        contradiction
    | ok _ =>
      constructor
      · intro h
        cases h
        exact ⟨rfl, hcheck⟩
      · rintro ⟨h, _⟩
        cases h
        rfl

end Parser

/-! ## Applications -/

/-- A function and the values that it is applied to. -/
structure Application where
  function : Function
  values : List Float

/-- How an evaluation ends, and the applications that it has made by then, the first one first. -/
structure Trace (α : Type) where
  applications : List Application
  result : Except EvalError α

namespace Trace

variable {α β : Type}

def fail (error : EvalError) : Trace α where
  applications := []
  result := .error error

def apply (a : Arithmetic) (function : Function) (values : List Float) : Trace Float where
  applications := [⟨function, values⟩]
  result := .ok (a.call function values)

/-- After a failure no further application is made. -/
def bind (t : Trace α) (f : α → Trace β) : Trace β :=
  match t.result with
  | .ok x => ⟨t.applications ++ (f x).applications, (f x).result⟩
  | .error error => ⟨t.applications, .error error⟩

instance : Monad Trace where
  pure x := ⟨[], .ok x⟩
  bind := bind

theorem result_bind (t : Trace α) (f : α → Trace β) :
    (t >>= f).result = t.result >>= fun x => (f x).result := by
  show (t.bind f).result = _
  unfold bind
  cases t.result <;> rfl

/-- Every function has as many values as it takes. -/
def IsLawful (t : Trace α) : Prop :=
  ∀ c ∈ t.applications, c.values.length = c.function.arity

theorem isLawful_of_nil {t : Trace α} (h : t.applications = []) : t.IsLawful := by
  intro c hc
  rw [h] at hc
  contradiction

theorem IsLawful.bind {t : Trace α} (h : t.IsLawful) {f : α → Trace β}
    (hf : ∀ x, t.result = .ok x → (f x).IsLawful) : (t >>= f).IsLawful := by
  show (t.bind f).IsLawful
  unfold Trace.bind
  cases hresult : t.result with
  | error error => exact h
  | ok x =>
    intro c hc
    rcases List.mem_append.mp hc with hc | hc
    · exact h c hc
    · exact hf x hresult c hc

end Trace

namespace Expr

mutual

/-- The evaluation of the tree, with every application that it makes. -/
def traceWith (a : Arithmetic) : Expr → Trace Float
  | number value _ => pure value
  | negate operand _ => do
      let x ← traceWith a operand
      pure (a.negate x)
  | binary op left right span => do
      let x ← traceWith a left
      let y ← traceWith a right
      match op.zeroDivisor? with
      | some error =>
          if isZero y then .fail (error ⟨left.text, right.text, span⟩) else pure (a.binary op x y)
      | none => pure (a.binary op x y)
  | call function arguments span =>
      if arguments.length = function.arity then do
        let values ← traceAllWith a arguments
        .apply a function values
      else .fail (.arity ⟨function, arguments.length, span⟩)

def traceAllWith (a : Arithmetic) : List Expr → Trace (List Float)
  | [] => pure []
  | e :: rest => do
      let x ← traceWith a e
      let xs ← traceAllWith a rest
      pure (x :: xs)

end

theorem result_traceAllWith {a : Arithmetic} {es : List Expr}
    (h : ∀ e ∈ es, (e.traceWith a).result = e.evaluateWith a) :
    (traceAllWith a es).result = evaluateAllWith a es := by
  induction es with
  | nil => rfl
  | cons e rest ih =>
    rw [List.forall_mem_cons] at h
    rw [traceAllWith, evaluateAllWith, Trace.result_bind, h.1]
    apply bind_congr
    intro x
    rw [Trace.result_bind, ih h.2]
    rfl

/-- The trace ends as the evaluation does. -/
theorem result_traceWith (a : Arithmetic) (e : Expr) :
    (e.traceWith a).result = e.evaluateWith a := by
  induction e using Expr.induct with
  | number value span => rfl
  | negate operand span ih =>
    rw [traceWith, evaluateWith, Trace.result_bind, ih]
    rfl
  | binary op left right span ihl ihr =>
    rw [traceWith, evaluateWith, Trace.result_bind, ihl]
    apply bind_congr
    intro x
    rw [Trace.result_bind, ihr]
    apply bind_congr
    intro y
    by_cases hzero : isZero y = true
    · cases op <;> simp only [Operator.zeroDivisor?, if_pos hzero] <;> rfl
    · cases op <;> simp only [Operator.zeroDivisor?, if_neg hzero] <;> rfl
  | call function arguments span ih =>
    rw [traceWith, evaluateWith]
    by_cases hn : arguments.length = function.arity
    · rw [if_pos hn, if_pos hn, Trace.result_bind, result_traceAllWith ih]
      rfl
    · rw [if_neg hn, if_neg hn]
      rfl

theorem isLawful_traceAllWith {a : Arithmetic} {es : List Expr}
    (h : ∀ e ∈ es, (e.traceWith a).IsLawful) : (traceAllWith a es).IsLawful := by
  induction es with
  | nil => exact Trace.isLawful_of_nil rfl
  | cons e rest ih =>
    rw [List.forall_mem_cons] at h
    rw [traceAllWith]
    apply h.1.bind
    intro x _
    apply (ih h.2).bind
    intro xs _
    exact Trace.isLawful_of_nil rfl

theorem isLawful_traceWith (a : Arithmetic) (e : Expr) : (e.traceWith a).IsLawful := by
  induction e using Expr.induct with
  | number value span => exact Trace.isLawful_of_nil rfl
  | negate operand span ih =>
    rw [traceWith]
    apply ih.bind
    intro x _
    exact Trace.isLawful_of_nil rfl
  | binary op left right span ihl ihr =>
    rw [traceWith]
    apply ihl.bind
    intro x _
    apply ihr.bind
    intro y _
    apply Trace.isLawful_of_nil
    by_cases hzero : isZero y = true
    · cases op <;> simp only [Operator.zeroDivisor?, if_pos hzero] <;> rfl
    · cases op <;> simp only [Operator.zeroDivisor?, if_neg hzero] <;> rfl
  | call function arguments span ih =>
    rw [traceWith]
    by_cases hn : arguments.length = function.arity
    · rw [if_pos hn]
      apply (isLawful_traceAllWith ih).bind
      intro values hvalues c hc
      -- The trace of the arguments has one value for each of them.
      rw [result_traceAllWith fun e _ => result_traceWith a e] at hvalues
      rw [List.mem_singleton.mp hc]
      exact (length_of_evaluateAllWith hvalues).trans hn
    · rw [if_neg hn]
      exact Trace.isLawful_of_nil rfl

end Expr

/-- Something else in place of an application to a wrong number of values. -/
def Arithmetic.withFallback (a : Arithmetic) (fallback : Function → List Float → Float) :
    Arithmetic where
  negate := a.negate
  binary := a.binary
  call function values :=
    if values.length = function.arity then a.call function values else fallback function values

namespace Expr

theorem evaluateAllWith_withFallback {a : Arithmetic} {fallback : Function → List Float → Float}
    {es : List Expr} (h : ∀ e ∈ es, e.evaluateWith (a.withFallback fallback) = e.evaluateWith a) :
    evaluateAllWith (a.withFallback fallback) es = evaluateAllWith a es := by
  induction es with
  | nil => rfl
  | cons e rest ih =>
    rw [List.forall_mem_cons] at h
    rw [evaluateAllWith, evaluateAllWith, h.1, ih h.2]

theorem evaluateWith_withFallback (a : Arithmetic) (fallback : Function → List Float → Float)
    (e : Expr) : e.evaluateWith (a.withFallback fallback) = e.evaluateWith a := by
  induction e using Expr.induct with
  | number value span => rfl
  | negate operand span ih =>
    rw [evaluateWith, evaluateWith, ih]
    rfl
  | binary op left right span ihl ihr =>
    rw [evaluateWith, evaluateWith, ihl, ihr]
    rfl
  | call function arguments span ih =>
    rw [evaluateWith, evaluateWith, evaluateAllWith_withFallback ih]
    by_cases hn : arguments.length = function.arity
    · rw [if_pos hn, if_pos hn]
      cases hvalues : evaluateAllWith a arguments with
      | error error => rfl
      | ok values =>
        have hlength := (length_of_evaluateAllWith hvalues).trans hn
        exact congrArg Except.ok (if_pos hlength)
    · rw [if_neg hn, if_neg hn]

/--
An evaluation that complains about a number of arguments makes the complaint of the check; where the
check complains, the evaluation does so too or meets a zero divisor. So the tree of a text is never
refused for a number of arguments when it is evaluated, functions are only applied to as many values
as they take, and it does not matter what they would give for others.
-/
theorem evaluateWith_agrees_with_checkArity (a : Arithmetic) (e : Expr) :
    (∀ error, e.evaluateWith a = .error (.arity error) → e.checkArity = .error error) ∧
      (∀ error, e.checkArity = .error error →
        e.evaluateWith a = .error (.arity error) ∨
          ∃ z, e.evaluateWith a = .error (.divisionByZero z) ∨
            e.evaluateWith a = .error (.moduloByZero z)) ∧
      (∀ lexemes length, Parser.parse lexemes length = .ok e →
        ∀ error, e.evaluateWith a ≠ .error (.arity error)) ∧
      (e.traceWith a).result = e.evaluateWith a ∧
      (∀ c ∈ (e.traceWith a).applications, c.values.length = c.function.arity) ∧
      ∀ fallback, e.evaluateWith (a.withFallback fallback) = e.evaluateWith a := by
  have hagrees := agrees_evaluateWith a e
  have hfirst : ∀ error, e.evaluateWith a = .error (.arity error) →
      e.checkArity = .error error := by
    intro error h
    rw [h] at hagrees
    exact hagrees.eq_error_of_arity
  refine ⟨hfirst, ?_, ?_, result_traceWith a e, isLawful_traceWith a e,
    fun fallback => evaluateWith_withFallback a fallback e⟩
  · intro error h
    rw [h] at hagrees
    exact hagrees.error_cases
  · intro lexemes length hparse error h
    have hcheck := (Parser.parse_eq_ok_iff.mp hparse).2
    rw [hfirst error h] at hcheck
    contradiction

/-- A wrong call on the right of a division by zero is found by the check alone, on the left by both. -/
theorem evaluateWith_agrees_with_checkArity_beside_zero :
    let wrong := call .sqrt [number 1 ⟨9, 10⟩, number 2 ⟨11, 12⟩] ⟨4, 13⟩
    let quotient := binary .div (number 1 ⟨0, 1⟩) (number 0 ⟨2, 3⟩) ⟨0, 3⟩
    let hidden := binary .add quotient wrong ⟨0, 13⟩
    let seen := binary .add wrong quotient ⟨0, 13⟩
    hidden.checkArity = .error ⟨.sqrt, 2, ⟨4, 13⟩⟩ ∧
      hidden.evaluate = .error (.divisionByZero ⟨['1'], ['0'], ⟨0, 3⟩⟩) ∧
      seen.evaluate = .error (.arity ⟨.sqrt, 2, ⟨4, 13⟩⟩) ∧
      seen.checkArity = .error ⟨.sqrt, 2, ⟨4, 13⟩⟩ := by
  intro wrong quotient hidden seen
  have hseen : seen.evaluate = .error (.arity ⟨.sqrt, 2, ⟨4, 13⟩⟩) := rfl
  obtain ⟨hfirst, _⟩ := evaluateWith_agrees_with_checkArity .binary64 seen
  exact ⟨rfl, by decide +kernel, hseen, hfirst _ hseen⟩

end Expr
end Abacus
