import Abacus.Proofs.Calculation
import Abacus.Proofs.Decimal
/-!
The text of a tree is read back as the tree.

The printer compares two precedences to see whether an operand needs brackets, and the grammar has a
nonterminal for each precedence. An operand without brackets is derived from the nonterminal that the
grammar asks for at its place; in brackets it is a primary, which fits everywhere.
-/

namespace Abacus

namespace Token

/-! ## Texts and their tokens -/

/-- Before anything that does not prolong a number, the text is read as the lexemes. -/
def ReadsAs (offset : Nat) (text : List Char) (lexemes : List Lexeme) : Prop :=
  ∀ rest : List Char, (∀ c ∈ rest.head?, isNumberPart c = false) →
    lexFrom offset (text ++ rest) = (lexFrom (offset + byteLength text) rest).map (lexemes ++ ·)

theorem readsAs_nil (offset : Nat) : ReadsAs offset [] [] := by
  intro rest _
  rw [List.nil_append, byteLength_nil, Nat.add_zero]
  cases lexFrom offset rest <;> rfl

theorem ReadsAs.lex {text : List Char} {lexemes : List Lexeme} (h : ReadsAs 0 text lexemes) :
    lex text = .ok lexemes := by
  have := h [] (by simp)
  rw [List.append_nil, lexFrom] at this
  rw [Token.lex, this]
  show Except.ok (lexemes ++ []) = _
  rw [List.append_nil]

theorem ReadsAs.append {offset : Nat} {a b : List Char} {c : Char} {la lb : List Lexeme}
    (ha : ReadsAs offset a la) (hc : isNumberPart c = false)
    (hb : ReadsAs (offset + byteLength a) (c :: b) lb) : ReadsAs offset (a ++ c :: b) (la ++ lb) := by
  intro rest hrest
  have hfollow : ∀ d ∈ (c :: b ++ rest).head?, isNumberPart d = false := by
    intro d hd
    rw [List.cons_append, List.head?_cons, Option.mem_some_iff] at hd
    rw [← hd, hc]
  rw [List.append_assoc, ha _ hfollow, hb rest hrest, byteLength_append, Nat.add_assoc]
  cases lexFrom (offset + (byteLength a + byteLength (c :: b))) rest with
  | error e => rfl
  | ok lexemes => exact congrArg Except.ok (List.append_assoc la lb lexemes).symm

theorem ReadsAs.token {t : Token} {offset : Nat} {b : List Char} {lexemes : List Lexeme}
    (ht : t.IsWritten)
    (hb : ∀ rest : List Char, (∀ c ∈ rest.head?, isNumberPart c = false) → t.EndsBefore (b ++ rest))
    (h : ReadsAs (offset + byteLength t.text) b lexemes) :
    ReadsAs offset (t.text ++ b) (⟨t, ⟨offset, offset + byteLength t.text⟩⟩ :: lexemes) := by
  intro rest hrest
  rw [List.append_assoc, lexFrom_text ht (hb rest hrest), h rest hrest, byteLength_append,
    Nat.add_assoc]
  cases lexFrom (offset + (byteLength t.text + byteLength b)) rest <;> rfl

theorem readsAs_number {text : List Char} (h : (number text).IsWritten) (offset : Nat) :
    ReadsAs offset text [⟨number text, ⟨offset, offset + byteLength text⟩⟩] := by
  have hnumber : ReadsAs offset (text ++ []) _ :=
    (readsAs_nil _).token h fun _ hrest => hrest
  rwa [List.append_nil] at hnumber

theorem ReadsAs.symbol {t : Token} {c : Char} {offset : Nat} {b : List Char}
    {lexemes : List Lexeme} (ht : ofSymbol? c = some t)
    (h : ReadsAs (offset + byteLength [c]) b lexemes) :
    ReadsAs offset (c :: b) (⟨t, ⟨offset, offset + byteLength [c]⟩⟩ :: lexemes) := by
  obtain ⟨htext, hwritten, hends⟩ := text_of_ofSymbol? ht
  rw [← htext] at h ⊢
  show ReadsAs offset ([c] ++ b) _
  rw [← htext]
  exact h.token hwritten fun rest _ => hends (b ++ rest)

theorem readsAs_symbol {t : Token} {c : Char} (ht : ofSymbol? c = some t) (offset : Nat) :
    ReadsAs offset [c] [⟨t, ⟨offset, offset + byteLength [c]⟩⟩] :=
  (readsAs_nil _).symbol ht

theorem ReadsAs.name {f : Function} {offset : Nat} {b : List Char} {lexemes : List Lexeme}
    (h : ReadsAs (offset + byteLength f.name) ('(' :: b) lexemes) :
    ReadsAs offset (f.name ++ '(' :: b)
      (⟨.function f, ⟨offset, offset + byteLength f.name⟩⟩ :: lexemes) := by
  refine ReadsAs.token (t := .function f) trivial (fun rest _ c hc => ?_) h
  rw [List.cons_append, List.head?_cons, Option.mem_some_iff] at hc
  rw [← hc]
  show isWordPart '(' = false
  decide

theorem ReadsAs.space {offset : Nat} {b : List Char} {lexemes : List Lexeme}
    (h : ReadsAs (offset + byteLength [' ']) b lexemes) : ReadsAs offset (' ' :: b) lexemes := by
  intro rest hrest
  have hgap : ∀ c ∈ [' '], isGap c = true := forall_mem_of_all (by decide)
  show lexFrom offset ([' '] ++ (b ++ rest)) =
    (lexFrom (offset + byteLength ([' '] ++ b)) rest).map (lexemes ++ ·)
  rw [lexFrom_gaps hgap, h rest hrest, byteLength_append, Nat.add_assoc]

end Token

namespace Grammar

open Token

/-! ## Texts and their derivations -/

/-- From every offset the text is read as a derivation whose tree is `e` up to ranges. -/
def Reads (k : Nonterminal) (text : List Char) (e : Expr) : Prop :=
  ∀ offset, ∃ d : Derivation k, ReadsAs offset text d.lexemes ∧ d.expr.bare = e.bare

/-- The same for the arguments of a call. -/
def ReadsArguments (text : List Char) (es : List Expr) : Prop :=
  ∀ offset, ∃ arguments : Arguments, ReadsAs offset text arguments.lexemes ∧
    arguments.exprs.map Expr.bare = es.map Expr.bare

variable {k j : Nonterminal} {e left right : Expr} {s t : List Char} {es : List Expr}

theorem reads_numberText {text : List Char} (h : (number text).IsWritten) (span : Span) :
    Reads .primary text (.number (Literal.value text) span) := by
  intro offset
  refine ⟨.number text ?span, ?reads, ?tree⟩
  case reads =>
    rw [Derivation.lexemes]
    exact readsAs_number h offset
  case tree => rw [Derivation.expr, Expr.bare_number, Expr.bare_number]

theorem reads_number {x : Float} (h : isUnsigned x = true) (span : Span) :
    Reads .primary (literalText x) (.number x span) := by
  have := reads_numberText (isWritten_literalText h) span
  rwa [value_literalText h] at this

theorem Reads.group (h : Reads .sum t e) : Reads .primary ('(' :: t ++ [')']) e := by
  intro offset
  obtain ⟨d, hd, he⟩ := h (offset + byteLength ['('])
  have hclosing := readsAs_symbol (c := ')') (t := .closeBracket) (by decide)
  refine ⟨.group ?opening d ?closing, ?reads, ?tree⟩
  case reads =>
    rw [Derivation.lexemes]
    exact (hd.append (by decide) (hclosing _)).symbol (t := .openBracket) (by decide)
  case tree => rw [Derivation.expr, Expr.bare_withSpan, he]

theorem Reads.minus (h : Reads .unary t e) (span : Span) :
    Reads .unary ('-' :: t) (.negate e span) := by
  intro offset
  obtain ⟨d, hd, he⟩ := h (offset + byteLength ['-'])
  refine ⟨.minus ?sign d, ?reads, ?tree⟩
  case reads =>
    rw [Derivation.lexemes]
    exact hd.symbol (t := .operator .sub) (by decide)
  case tree => rw [Derivation.expr, Expr.bare_negate, Expr.bare_negate, he]

theorem Reads.around (hs : Reads k s left) (ht : Reads j t right) (op : Operator) (offset : Nat) :
    ∃ l : Derivation k, ∃ sign, ∃ r : Derivation j,
      ReadsAs offset (s ++ [' ', op.symbol, ' '] ++ t)
        (l.lexemes ++ ⟨.operator op, sign⟩ :: r.lexemes) ∧
      l.expr.bare = left.bare ∧ r.expr.bare = right.bare := by
  have hsymbol : ofSymbol? op.symbol = some (.operator op) := by
    cases op <;> decide
  obtain ⟨l, hl, hleft⟩ := hs offset
  obtain ⟨r, hr, hright⟩ :=
    ht (offset + byteLength s + byteLength [' '] + byteLength [op.symbol] + byteLength [' '])
  have hreads := hl.append (by decide) (hr.space.symbol hsymbol).space
  refine ⟨l, ?sign, r, ?reads, hleft, hright⟩
  case reads =>
    rw [List.append_assoc]
    exact hreads

theorem Reads.raise (hs : Reads .unary s left) (ht : Reads .power t right) (span : Span) :
    Reads .power (s ++ [' ', Operator.pow.symbol, ' '] ++ t) (.binary .pow left right span) := by
  intro offset
  obtain ⟨l, sign, r, hreads, hleft, hright⟩ := hs.around ht .pow offset
  refine ⟨.raise l sign r, ?_, ?_⟩
  · rw [Derivation.lexemes]
    exact hreads
  · rw [Derivation.expr, Expr.join, Expr.bare_binary, Expr.bare_binary, hleft, hright]

theorem Reads.multiply (hs : Reads .product s left) (ht : Reads .power t right) {op : Operator}
    (hop : op ∈ Operator.multiplicative) (span : Span) :
    Reads .product (s ++ [' ', op.symbol, ' '] ++ t) (.binary op left right span) := by
  intro offset
  obtain ⟨l, sign, r, hreads, hleft, hright⟩ := hs.around ht op offset
  refine ⟨.multiply l op hop sign r, ?_, ?_⟩
  · rw [Derivation.lexemes]
    exact hreads
  · rw [Derivation.expr, Expr.join, Expr.bare_binary, Expr.bare_binary, hleft, hright]

theorem Reads.add (hs : Reads .sum s left) (ht : Reads .product t right) {op : Operator}
    (hop : op ∈ Operator.additive) (span : Span) :
    Reads .sum (s ++ [' ', op.symbol, ' '] ++ t) (.binary op left right span) := by
  intro offset
  obtain ⟨l, sign, r, hreads, hleft, hright⟩ := hs.around ht op offset
  refine ⟨.add l op hop sign r, ?_, ?_⟩
  · rw [Derivation.lexemes]
    exact hreads
  · rw [Derivation.expr, Expr.join, Expr.bare_binary, Expr.bare_binary, hleft, hright]

/-! ## Calls -/

theorem reads_emptyCall (f : Function) (span : Span) :
    Reads .primary (f.name ++ ['(', ')']) (.call f [] span) := by
  intro offset
  have hclosing := readsAs_symbol (c := ')') (t := .closeBracket) (by decide)
  refine ⟨.emptyCall f ?name ?opening ?closing, ?reads, ?tree⟩
  case reads =>
    rw [Derivation.lexemes]
    exact ((hclosing _).symbol (t := .openBracket) (by decide)).name
  case tree => rw [Derivation.expr, Expr.bare_call, Expr.bare_call]

theorem ReadsArguments.call (h : ReadsArguments t es) (f : Function) (span : Span) :
    Reads .primary (f.name ++ '(' :: t ++ [')']) (.call f es span) := by
  intro offset
  obtain ⟨arguments, ha, hes⟩ := h (offset + byteLength f.name + byteLength ['('])
  have hclosing := readsAs_symbol (c := ')') (t := .closeBracket) (by decide)
  refine ⟨.call f ?name ?opening arguments ?closing, ?reads, ?tree⟩
  case reads =>
    rw [Derivation.lexemes, List.append_assoc, List.cons_append]
    exact ((ha.append (by decide) (hclosing _)).symbol (t := .openBracket) (by decide)).name
  case tree => rw [Derivation.expr, Expr.bare_call, Expr.bare_call, hes]

theorem Reads.one (h : Reads .sum t e) : ReadsArguments t [e] := by
  intro offset
  obtain ⟨d, hd, he⟩ := h offset
  refine ⟨.one d, ?_, ?_⟩
  · rw [Arguments.lexemes]
    exact hd
  · rw [Arguments.exprs, List.map_singleton, List.map_singleton, he]

theorem ReadsArguments.more (hs : ReadsArguments s es) (ht : Reads .sum t e) :
    ReadsArguments (s ++ [',', ' '] ++ t) (es ++ [e]) := by
  intro offset
  obtain ⟨before, hbefore, hes⟩ := hs offset
  obtain ⟨d, hd, he⟩ := ht (offset + byteLength s + byteLength [','] + byteLength [' '])
  have hreads := hbefore.append (by decide) (hd.space.symbol (t := .comma) (by decide))
  refine ⟨.more before ?comma d, ?reads, ?trees⟩
  case reads =>
    rw [Arguments.lexemes, List.append_assoc]
    exact hreads
  case trees =>
    rw [Arguments.exprs, List.map_append, List.map_append, List.map_singleton, List.map_singleton,
      hes, he]

theorem intercalate_cons_append (separator a b : List Char) (rest : List (List Char)) :
    separator.intercalate ((a ++ separator ++ b) :: rest) = separator.intercalate (a :: b :: rest) := by
  cases rest with
  | nil => rw [List.intercalate_singleton, List.intercalate_cons_cons, List.intercalate_singleton]
  | cons c rest => simp only [List.intercalate_cons_cons, List.append_assoc]

/-- The arguments read so far take in those that follow, one after the other. -/
theorem ReadsArguments.rest {more : List Expr} (hs : ReadsArguments s es)
    (h : ∀ e ∈ more, Reads .sum e.text e) :
    ReadsArguments ([',', ' '].intercalate (s :: more.map Expr.text)) (es ++ more) := by
  induction more generalizing s es with
  | nil =>
    rw [List.map_nil, List.intercalate_singleton, List.append_nil]
    exact hs
  | cons e more ih =>
    have := ih (hs.more (h e List.mem_cons_self)) fun e' he' => h e' (List.mem_cons_of_mem e he')
    rw [intercalate_cons_append, List.append_assoc, List.singleton_append] at this
    exact this

/-! ## Precedences -/

/-- How tightly the nonterminal binds, in the printer's numbers. -/
def Nonterminal.rank : Nonterminal → Nat
  | sum => 1
  | product => 2
  | power => 3
  | unary => Expr.negatePrecedence
  | primary => Expr.atomPrecedence

theorem Reads.through (f : Derivation j → Derivation k) (hlexemes : ∀ d, (f d).lexemes = d.lexemes)
    (hexpr : ∀ d, (f d).expr = d.expr) (h : Reads j t e) : Reads k t e := by
  intro offset
  obtain ⟨d, hd, he⟩ := h offset
  exact ⟨f d, by rwa [hlexemes], by rwa [hexpr]⟩

theorem Reads.toSum (h : Reads j t e) : Reads .sum t e :=
  h.through Derivation.toSum Derivation.lexemes_toSum Derivation.expr_toSum

theorem Reads.unsigned (h : Reads .primary t e) : Reads .unary t e :=
  h.through .unsigned (fun _ => by rw [Derivation.lexemes]) fun _ => by rw [Derivation.expr]

theorem Reads.base (h : Reads .unary t e) : Reads .power t e :=
  h.through .base (fun _ => by rw [Derivation.lexemes]) fun _ => by rw [Derivation.expr]

theorem Reads.factor (h : Reads .power t e) : Reads .product t e :=
  h.through .factor (fun _ => by rw [Derivation.lexemes]) fun _ => by rw [Derivation.expr]

/-- What is derived from a nonterminal is derived from each that binds less tightly. -/
theorem Reads.widen (h : Reads j t e) (hrank : k.rank ≤ j.rank) : Reads k t e := by
  cases k with
  | sum => exact h.toSum
  | product =>
    cases j with
    | sum => exact absurd hrank (by decide)
    | product => exact h
    | power => exact h.factor
    | unary => exact h.base.factor
    | primary => exact h.unsigned.base.factor
  | power =>
    cases j with
    | sum | product => exact absurd hrank (by decide)
    | power => exact h
    | unary => exact h.base
    | primary => exact h.unsigned.base
  | unary =>
    cases j with
    | sum | product | power => exact absurd hrank (by decide)
    | unary => exact h
    | primary => exact h.unsigned
  | primary =>
    cases j with
    | sum | product | power | unary => exact absurd hrank (by decide)
    | primary => exact h

end Grammar

namespace Operator

/-- The nonterminal of the operator, and below those of its two operands. -/
def nonterminal : Operator → Grammar.Nonterminal
  | add | sub => .sum
  | mul | div | mod => .product
  | pow => .power

def leftOperand : Operator → Grammar.Nonterminal
  | add | sub => .sum
  | mul | div | mod => .product
  | pow => .unary

def rightOperand : Operator → Grammar.Nonterminal
  | add | sub => .product
  | mul | div | mod | pow => .power

theorem places_of_multiplicative {op : Operator} (h : op ∈ multiplicative) :
    op.nonterminal = .product ∧ op.leftOperand = .product ∧ op.rightOperand = .power := by
  simp only [multiplicative, List.mem_cons, List.not_mem_nil, or_false] at h
  rcases h with rfl | rfl | rfl <;> exact ⟨rfl, rfl, rfl⟩

theorem places_of_additive {op : Operator} (h : op ∈ additive) :
    op.nonterminal = .sum ∧ op.leftOperand = .sum ∧ op.rightOperand = .product := by
  simp only [additive, List.mem_cons, List.not_mem_nil, or_false] at h
  rcases h with rfl | rfl <;> exact ⟨rfl, rfl, rfl⟩

/-- The printer puts brackets around an operand where the grammar asks for a tighter one. -/
theorem bracketsLeft_eq (op : Operator) (operand : Nat) :
    Expr.bracketsLeft op operand = decide (operand < op.leftOperand.rank) := by
  rw [Expr.bracketsLeft, Bool.eq_iff_iff, Bool.or_eq_true, Bool.and_eq_true, beq_iff_eq,
    decide_eq_true_iff, decide_eq_true_iff]
  cases op <;>
    simp [precedence, nestsRight, leftOperand, Grammar.Nonterminal.rank, Expr.negatePrecedence]
  omega

theorem bracketsRight_eq (op : Operator) (operand : Nat) :
    Expr.bracketsRight op operand = decide (operand < op.rightOperand.rank) := by
  rw [Expr.bracketsRight, Bool.eq_iff_iff, Bool.or_eq_true, Bool.and_eq_true, beq_iff_eq,
    decide_eq_true_iff, decide_eq_true_iff]
  cases op <;> simp [precedence, nestsRight, rightOperand, Grammar.Nonterminal.rank] <;> omega

theorem rank_leftOperand_le {op : Operator} {operand : Nat}
    (h : Expr.bracketsLeft op operand = false) : op.leftOperand.rank ≤ operand := by
  rw [bracketsLeft_eq] at h
  exact Nat.le_of_not_lt (of_decide_eq_false h)

theorem rank_rightOperand_le {op : Operator} {operand : Nat}
    (h : Expr.bracketsRight op operand = false) : op.rightOperand.rank ≤ operand := by
  rw [bracketsRight_eq] at h
  exact Nat.le_of_not_lt (of_decide_eq_false h)

end Operator

namespace Expr

/-- The nonterminal from which the tree is derived without brackets around it. -/
def nonterminal : Expr → Grammar.Nonterminal
  | number _ _ | call _ _ _ => .primary
  | negate _ _ => .unary
  | binary op _ _ _ => op.nonterminal

theorem rank_nonterminal (e : Expr) : e.nonterminal.rank = e.precedence := by
  cases e with
  | number value span | negate operand span | call function arguments span => rfl
  | binary op left right span => cases op <;> rfl

end Expr

namespace Grammar

/-- An operand is derived from the nonterminal at its place if it is in brackets when it must be. -/
theorem Reads.bracket {needed : Bool} (h : Reads e.nonterminal e.text e)
    (hneeded : needed = false → k.rank ≤ e.precedence) :
    Reads k (Expr.bracket needed e.text) e := by
  by_cases hn : needed = true
  · rw [hn, Expr.bracket, if_pos rfl]
    -- In brackets the operand is a primary, which stands wherever an operand can stand.
    have hprimary : k.rank ≤ Nonterminal.primary.rank := by
      cases k <;> decide
    exact h.toSum.group.widen hprimary
  · rw [Bool.not_eq_true] at hn
    rw [hn, Expr.bracket, if_neg (by decide)]
    refine h.widen ?_
    rw [Expr.rank_nonterminal]
    exact hneeded hn

theorem Reads.binary {op : Operator} (hs : Reads op.leftOperand s left)
    (ht : Reads op.rightOperand t right) (span : Span) :
    Reads op.nonterminal (s ++ [' ', op.symbol, ' '] ++ t) (.binary op left right span) := by
  cases op with
  | add | sub => exact hs.add ht (by decide) span
  | mul | div | mod => exact hs.multiply ht (by decide) span
  | pow => exact hs.raise ht span

/-- The text of a tree is read as the tree, whatever stands before it and after it. -/
theorem reads_text (h : ∀ value span, (Expr.number value span).IsNode e → isUnsigned value = true) :
    Reads e.nonterminal e.text e := by
  induction e using Expr.induct with
  | number value span =>
    rw [Expr.text]
    exact reads_number (h value span .root) span
  | negate operand span ih =>
    have hoperand := ih fun value span hn => h value span (.under (by simp [Expr.children]) hn)
    rw [Expr.text]
    refine (hoperand.bracket fun hneeded => ?_).minus span
    exact Nat.le_of_not_lt (of_decide_eq_false hneeded)
  | binary op left right span ihl ihr =>
    have hleft := ihl fun value span hn => h value span (.under (by simp [Expr.children]) hn)
    have hright := ihr fun value span hn => h value span (.under (by simp [Expr.children]) hn)
    rw [Expr.text]
    exact (hleft.bracket Operator.rank_leftOperand_le).binary
      (hright.bracket Operator.rank_rightOperand_le) span
  | call function arguments span ih =>
    have harguments : ∀ e ∈ arguments, Reads .sum e.text e := by
      intro e he
      exact (ih e he fun value span hn => h value span (.under he hn)).toSum
    rw [Expr.text, Expr.texts_eq_map]
    cases arguments with
    | nil =>
      rw [List.append_assoc]
      exact reads_emptyCall function span
    | cons first rest =>
      have hfirst := (harguments first List.mem_cons_self).one
      exact (hfirst.rest fun e he => harguments e (List.mem_cons_of_mem first he)).call function span

end Grammar

namespace Evaluation

open Grammar

/-- The text of a tree is read as the tree, and then the numbers of arguments are checked. -/
theorem exists_parseText_text {e : Expr}
    (hnumbers : ∀ value span, (Expr.number value span).IsNode e → isUnsigned value = true) :
    ∃ e' : Expr, e'.bare = e.bare ∧
      parseText e.text = (e'.checkArity.map fun _ => e').mapError Failure.arity := by
  obtain ⟨d, hd, he⟩ := (reads_text hnumbers).toSum 0
  exact ⟨d.expr, he, parseText_of_derivation hd.lex⟩

/--
A tree whose calls have their arities and whose numbers are finite and have no sign is read back from
its text, up to ranges.
-/
theorem parseText_text {e : Expr} (harity : ∀ n, Expr.IsNode n e → n.HasArity)
    (hnumbers : ∀ value span, (Expr.number value span).IsNode e → isUnsigned value = true) :
    ∃ e', parseText e.text = .ok e' ∧ e'.bare = e.bare := by
  obtain ⟨e', hbare, hparse⟩ := exists_parseText_text hnumbers
  have hcheck := Expr.checkArity_of_bare_eq hbare ((Expr.checkArity_eq_ok_iff e).mpr harity)
  rw [hcheck] at hparse
  exact ⟨e', hparse, hbare⟩

/-- Minus signs, a chain of differences and a chain of powers with the brackets that they need. -/
theorem parseText_text_of_nestedPowers :
    let e : Expr := .call .power
      [.binary .sub (.number 1 ⟨0, 0⟩)
        (.binary .sub (.number 0.5 ⟨0, 0⟩)
          (.negate (.binary .pow (.number 2 ⟨0, 0⟩) (.number 3 ⟨0, 0⟩) ⟨0, 0⟩) ⟨0, 0⟩) ⟨0, 0⟩) ⟨0, 0⟩,
        .binary .pow
          (.binary .pow (.negate (.number 4 ⟨0, 0⟩) ⟨0, 0⟩) (.number 5 ⟨0, 0⟩) ⟨0, 0⟩)
          (.binary .pow (.number 6 ⟨0, 0⟩) (.negate (.number 7 ⟨0, 0⟩) ⟨0, 0⟩) ⟨0, 0⟩) ⟨0, 0⟩] ⟨0, 0⟩
    e.text = "power(1 - (0.5 - -(2 ^ 3)), (-4 ^ 5) ^ 6 ^ -7)".toList ∧
      ∃ e', parseText e.text = .ok e' ∧ e'.bare = e.bare := by
  intro e
  have harity : e.checkArity = .ok () := rfl
  refine ⟨by decide +kernel, parseText_text ((Expr.checkArity_eq_ok_iff e).mp harity) ?_⟩
  intro value span hn
  simp only [e, Expr.isNode_call_iff, Expr.isNode_binary_iff, Expr.isNode_negate_iff,
    Expr.isNode_number_iff, List.mem_cons, List.not_mem_nil, or_false, exists_eq_or_imp,
    exists_eq_left, reduceCtorEq, false_or, Expr.number.injEq] at hn
  rcases hn with (h | h | h | h) | (h | h) | h | h <;> rw [h.1] <;> decide +kernel

end Evaluation
end Abacus
