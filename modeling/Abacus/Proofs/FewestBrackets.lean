import Abacus.Proofs.Expr.ArityChecks
import Abacus.Proofs.LiteralValues
import Abacus.Proofs.Printing
/-!
No text with the same tree has fewer brackets than the printed one.

Where the grammar asks for a nonterminal, a derivation has the tokens that the printer writes for its
tree, or an expression in brackets. So the tokens of a text are those that the printer writes for its
tree, with pairs of brackets put around whole expressions and with numbers in other spellings.
-/

namespace Abacus

/-! ## The tokens of the printed text -/

namespace Expr

def bracketTokens (needed : Bool) (tokens : List Token) : List Token :=
  if needed then .openBracket :: (tokens ++ [.closeBracket]) else tokens

mutual

/-- The tokens of the printed text. -/
def tokens : Expr → List Token
  | number value _ => [.number (literalText value)]
  | negate operand _ =>
      .operator .sub :: bracketTokens (operand.precedence < negatePrecedence) operand.tokens
  | binary op left right _ =>
      bracketTokens (bracketsLeft op left.precedence) left.tokens ++
        .operator op :: bracketTokens (bracketsRight op right.precedence) right.tokens
  | call function arguments _ =>
      .function function :: .openBracket ::
        ([Token.comma].intercalate (tokensOfAll arguments) ++ [.closeBracket])

def tokensOfAll : List Expr → List (List Token)
  | [] => []
  | e :: rest => e.tokens :: tokensOfAll rest

end

theorem tokensOfAll_eq_map (es : List Expr) : tokensOfAll es = es.map tokens := by
  induction es with
  | nil => rfl
  | cons e rest ih => rw [tokensOfAll, ih, List.map_cons]

theorem tokens_withSpan (span : Span) (e : Expr) : (e.withSpan span).tokens = e.tokens := by
  cases e <;> rw [withSpan, tokens, tokens]

end Expr

namespace Token

/-- From every offset the text is read as the tokens. -/
def ReadsTokens (text : List Char) (tokens : List Token) : Prop :=
  ∀ offset, ∃ lexemes, ReadsAs offset text lexemes ∧ lexemes.map Lexeme.token = tokens

variable {a b : List Char} {ta tb : List Token}

theorem ReadsTokens.append {c : Char} (ha : ReadsTokens a ta) (hc : isNumberPart c = false)
    (hb : ReadsTokens (c :: b) tb) : ReadsTokens (a ++ c :: b) (ta ++ tb) := by
  intro offset
  obtain ⟨la, hla, rfl⟩ := ha offset
  obtain ⟨lb, hlb, rfl⟩ := hb (offset + byteLength a)
  exact ⟨la ++ lb, hla.append hc hlb, List.map_append⟩

theorem ReadsTokens.symbol {t : Token} {c : Char} (ht : ofSymbol? c = some t)
    (hb : ReadsTokens b tb) : ReadsTokens (c :: b) (t :: tb) := by
  intro offset
  obtain ⟨lb, hlb, rfl⟩ := hb (offset + byteLength [c])
  exact ⟨_, hlb.symbol ht, rfl⟩

theorem ReadsTokens.space (hb : ReadsTokens b tb) : ReadsTokens (' ' :: b) tb := by
  intro offset
  obtain ⟨lb, hlb, rfl⟩ := hb (offset + byteLength [' '])
  exact ⟨lb, hlb.space, rfl⟩

theorem ReadsTokens.name {f : Function} (hb : ReadsTokens ('(' :: b) tb) :
    ReadsTokens (f.name ++ '(' :: b) (.function f :: tb) := by
  intro offset
  obtain ⟨lb, hlb, rfl⟩ := hb (offset + byteLength f.name)
  exact ⟨_, hlb.name, rfl⟩

theorem readsTokens_nil : ReadsTokens [] [] :=
  fun offset => ⟨[], readsAs_nil offset, rfl⟩

theorem readsTokens_number {text : List Char} (h : (number text).IsWritten) :
    ReadsTokens text [.number text] :=
  fun offset => ⟨_, readsAs_number h offset, rfl⟩

theorem ReadsTokens.closed (ha : ReadsTokens a ta) :
    ReadsTokens (a ++ [')']) (ta ++ [.closeBracket]) :=
  ha.append (by decide) (readsTokens_nil.symbol (by decide))

theorem ReadsTokens.bracket (ha : ReadsTokens a ta) (needed : Bool) :
    ReadsTokens (Expr.bracket needed a) (Expr.bracketTokens needed ta) := by
  cases needed with
  | false => exact ha
  | true => exact ha.closed.symbol (by decide)

theorem ReadsTokens.intercalate {texts : List (List Char)} {tokens : List (List Token)}
    (h : List.Forall₂ ReadsTokens texts tokens) :
    ReadsTokens ([',', ' '].intercalate texts) ([Token.comma].intercalate tokens) := by
  induction h with
  | nil => exact readsTokens_nil
  | cons hfirst hrest ih =>
    cases hrest with
    | nil =>
      rw [List.intercalate_singleton, List.intercalate_singleton]
      exact hfirst
    | cons _ _ =>
      rw [List.intercalate_cons_cons, List.intercalate_cons_cons, List.append_assoc,
        List.append_assoc]
      exact hfirst.append (by decide) (ih.space.symbol (by decide))

end Token

namespace Expr

open Token

/-- The printed text is read as the tokens that the printer means. -/
theorem readsTokens_text {e : Expr}
    (h : ∀ value span, IsNode (number value span) e → isUnsigned value = true) :
    ReadsTokens e.text e.tokens := by
  induction e using Expr.induct with
  | number value span =>
    rw [text, tokens]
    exact readsTokens_number (isWritten_literalText (h value span .root))
  | negate operand span ih =>
    have hoperand := ih fun value span hn => h value span (.under (by simp [children]) hn)
    rw [text, tokens]
    exact (hoperand.bracket _).symbol (by decide)
  | binary op left right span ihl ihr =>
    have hleft := ihl fun value span hn => h value span (.under (by simp [children]) hn)
    have hright := ihr fun value span hn => h value span (.under (by simp [children]) hn)
    have hsymbol : ofSymbol? op.symbol = some (.operator op) := by
      cases op <;> decide
    rw [text, tokens, List.append_assoc]
    exact (hleft.bracket _).append (by decide) ((hright.bracket _).space.symbol hsymbol).space
  | call function arguments span ih =>
    have harguments : ReadsTokens ([',', ' '].intercalate (texts arguments))
        ([Token.comma].intercalate (tokensOfAll arguments)) := by
      rw [texts_eq_map, tokensOfAll_eq_map]
      refine ReadsTokens.intercalate ?_
      rw [List.forall₂_map_left_iff, List.forall₂_map_right_iff, List.forall₂_same]
      exact fun e he => ih e he fun value span hn => h value span (.under he hn)
    rw [text, tokens, List.append_assoc]
    exact (harguments.closed.symbol (by decide)).name

end Expr

/-! ## Pairs of brackets -/

namespace Token

/-- The tokens are equal, or numbers with one value. -/
inductive SameMeaning : Token → Token → Prop where
  | same (t : Token) : SameMeaning t t
  | number {a b : List Char} (h : Literal.value a = Literal.value b) :
      SameMeaning (.number a) (.number b)

theorem SameMeaning.count_openBracket {a b : List Token} (h : List.Forall₂ SameMeaning a b) :
    a.count .openBracket = b.count .openBracket := by
  induction h with
  | nil => rfl
  | cons hfirst _ ih =>
    cases hfirst with
    | same t => rw [List.count_cons, List.count_cons, ih]
    | number _ => rw [List.count_cons_of_ne (by simp), List.count_cons_of_ne (by simp), ih]

end Token

namespace Grammar

open Token

def Derivation.tokens {k : Nonterminal} (d : Derivation k) : List Token :=
  d.lexemes.map Lexeme.token

def Arguments.tokens (arguments : Arguments) : List Token :=
  arguments.lexemes.map Lexeme.token

/--
The tokens are the given ones with pairs of brackets put around whole expressions, and with numbers
in other spellings.
-/
inductive Grouping (given : List Token) : List Token → Prop where
  | respelled {tokens : List Token} (h : List.Forall₂ SameMeaning given tokens) :
      Grouping given tokens
  | pair {before after : List Token} (d : Derivation .sum)
      (h : Grouping given (before ++ d.tokens ++ after)) :
      Grouping given (before ++ (openBracket :: (d.tokens ++ [closeBracket])) ++ after)

variable {a b s t : List Token}

theorem Grouping.refl (a : List Token) : Grouping a a :=
  .respelled (List.forall₂_same.mpr fun t _ => .same t)

theorem Grouping.append (hs : Grouping a s) (ht : Grouping b t) : Grouping (a ++ b) (s ++ t) := by
  induction hs with
  | respelled hs =>
    induction ht with
    | respelled ht => exact .respelled (List.rel_append hs ht)
    | pair d _ ih =>
      rw [← List.append_assoc, ← List.append_assoc] at ih ⊢
      exact .pair d ih
  | pair d _ ih =>
    rw [List.append_assoc] at ih ⊢
    exact .pair d ih

theorem Grouping.brackets {d : Derivation .sum} (h : Grouping a d.tokens) :
    Grouping a (openBracket :: (d.tokens ++ [closeBracket])) := by
  have hplain : Grouping a ([] ++ d.tokens ++ []) := by
    rwa [List.nil_append, List.append_nil]
  have := Grouping.pair d hplain
  rwa [List.nil_append, List.append_nil] at this

/-- Each pair is one opening bracket more. -/
theorem Grouping.count_le (h : Grouping a t) :
    a.count openBracket ≤ t.count openBracket ∧
      (a.count openBracket = t.count openBracket → List.Forall₂ SameMeaning a t) := by
  induction h with
  | respelled h => exact ⟨(SameMeaning.count_openBracket h).le, fun _ => h⟩
  | @pair before after d _ ih =>
    have hcount : (before ++ (openBracket :: (d.tokens ++ [closeBracket])) ++ after).count
        openBracket = (before ++ d.tokens ++ after).count openBracket + 1 := by
      have hclosing : List.count openBracket [closeBracket] = 0 := by decide
      simp only [List.count_append, List.count_cons_self, hclosing]
      omega
    rw [hcount]
    refine ⟨ih.1.trans (Nat.le_succ _), fun heq => ?_⟩
    have := ih.1
    omega

/-! ## Tokens with a given tree -/

/--
What can stand for the tree where the grammar asks for the nonterminal: the tree's own tokens, if it
binds tightly enough, or an expression in brackets.
-/
inductive Fits (k : Nonterminal) (e : Expr) : List Token → Prop where
  | bare {tokens : List Token} (h : Grouping e.tokens tokens) (hrank : k.rank ≤ e.precedence) :
      Fits k e tokens
  | bracketed (d : Derivation .sum) (h : Grouping e.tokens d.tokens) :
      Fits k e (openBracket :: (d.tokens ++ [closeBracket]))

section

variable {k j : Nonterminal} {e left right : Expr}

theorem Fits.widen (h : Fits j e t) (hrank : k.rank ≤ j.rank) : Fits k e t := by
  cases h with
  | bare h hbound => exact .bare h (hrank.trans hbound)
  | bracketed d h => exact .bracketed d h

theorem Fits.grouping (h : Fits k e t) : Grouping e.tokens t := by
  cases h with
  | bare h _ => exact h
  | bracketed d h => exact h.brackets

/-- The printer's brackets are those of an expression that does not bind tightly enough. -/
theorem Fits.grouping_bracketTokens (h : Fits k e t) :
    Grouping (Expr.bracketTokens (e.precedence < k.rank) e.tokens) t := by
  by_cases hlt : e.precedence < k.rank
  · rw [Expr.bracketTokens, if_pos (decide_eq_true hlt)]
    cases h with
    | bare _ hbound => exact absurd hlt (Nat.not_lt_of_le hbound)
    | bracketed d h =>
      exact (Grouping.refl [openBracket]).append (h.append (.refl [closeBracket]))
  · rw [Expr.bracketTokens, if_neg (by simpa using hlt)]
    exact h.grouping

theorem Fits.minus (h : Fits .unary e t) (span : Span) :
    Fits .unary (.negate e span) (.operator .sub :: t) := by
  refine .bare ?_ le_rfl
  rw [Expr.tokens]
  exact (Grouping.refl [.operator .sub]).append h.grouping_bracketTokens

theorem Fits.join {op : Operator} {kl kr : Nonterminal} (hleft : Fits kl left s)
    (hright : Fits kr right t)
    (hplaces : op.nonterminal = k ∧ op.leftOperand = kl ∧ op.rightOperand = kr) :
    Fits k (.join op left right) (s ++ .operator op :: t) := by
  obtain ⟨rfl, rfl, rfl⟩ := hplaces
  refine .bare ?_ (Expr.rank_nonterminal (.join op left right)).le
  rw [Expr.join, Expr.tokens, Operator.bracketsLeft_eq, Operator.bracketsRight_eq]
  exact hleft.grouping_bracketTokens.append
    ((Grouping.refl [.operator op]).append hright.grouping_bracketTokens)

end

theorem intercalate_append_singleton {α : Type} (separator last : List α) {ls : List (List α)}
    (h : ls ≠ []) :
    separator.intercalate (ls ++ [last]) = separator.intercalate ls ++ (separator ++ last) := by
  induction ls with
  | nil => contradiction
  | cons first rest ih =>
    cases rest with
    | nil => rw [List.singleton_append, List.intercalate_cons_cons, List.intercalate_singleton,
        List.intercalate_singleton, List.append_assoc]
    | cons second rest =>
      rw [List.cons_append, List.cons_append, List.intercalate_cons_cons, ← List.cons_append,
        ih (List.cons_ne_nil _ _), List.intercalate_cons_cons, List.append_assoc,
        List.append_assoc, List.append_assoc]

theorem exists_isNode_withSpan {value : Float} {span : Span} {e : Expr}
    (h : (Expr.number value span).IsNode e) (cover : Span) :
    ∃ span', (Expr.number value span').IsNode (e.withSpan cover) := by
  rw [Expr.isNode_iff] at h
  rcases h with rfl | ⟨child, hchild, hn⟩
  · exact ⟨cover, .root⟩
  · rw [← Expr.children_withSpan cover] at hchild
    exact ⟨span, .under hchild hn⟩

theorem numbers_of_join {op : Operator} {left right : Expr} {p : Float → Prop}
    (h : ∀ value span, (Expr.number value span).IsNode (.join op left right) → p value) :
    (∀ value span, (Expr.number value span).IsNode left → p value) ∧
      ∀ value span, (Expr.number value span).IsNode right → p value :=
  ⟨fun value span hn => h value span (Expr.isNode_join_iff.mpr (.inr (.inl hn))),
    fun value span hn => h value span (Expr.isNode_join_iff.mpr (.inr (.inr hn)))⟩

mutual

/-- The tokens of a derivation are those of its tree, up to pairs of brackets. -/
theorem Derivation.fits {k : Nonterminal} (d : Derivation k)
    (h : ∀ value span, (Expr.number value span).IsNode d.expr → isUnsigned value = true) :
    Fits k d.expr d.tokens := by
  cases d with
  | number text span =>
    have hvalue := value_literalText (h _ span .root)
    exact .bare (.respelled (.cons (.number hvalue) .nil)) le_rfl
  | group opening inner closing =>
    have hinner : Fits .sum inner.expr inner.tokens := by
      refine inner.fits fun value span hn => ?_
      obtain ⟨span', hn'⟩ := exists_isNode_withSpan hn (opening.cover closing)
      exact h value span' hn'
    rw [Derivation.expr, Derivation.tokens, Derivation.lexemes, List.cons_append, List.map_cons,
      List.map_append]
    refine .bracketed inner ?_
    rw [Expr.tokens_withSpan]
    exact hinner.grouping
  | emptyCall f name opening closing => exact .bare (.refl _) le_rfl
  | call f name opening arguments closing =>
    have harguments := arguments.grouping fun e he value span hn => h value span (.under he hn)
    rw [Derivation.expr, Derivation.tokens, Derivation.lexemes, List.cons_append, List.cons_append,
      List.map_cons, List.map_cons, List.map_append]
    refine .bare ?_ le_rfl
    rw [Expr.tokens]
    exact (Grouping.refl [.function f, .openBracket]).append
      (harguments.append (.refl [.closeBracket]))
  | unsigned operand | base operand | factor operand | term operand =>
    rw [Derivation.expr] at h ⊢
    rw [Derivation.tokens, Derivation.lexemes]
    exact (operand.fits h).widen (by decide)
  | minus sign operand =>
    have hoperand := operand.fits fun value span hn =>
      h value span (.under (List.mem_singleton.mpr rfl) hn)
    exact hoperand.minus _
  | raise left sign right =>
    obtain ⟨hleft, hright⟩ := numbers_of_join h
    rw [Derivation.expr, Derivation.tokens, Derivation.lexemes, List.map_append]
    exact (left.fits hleft).join (right.fits hright) ⟨rfl, rfl, rfl⟩
  | multiply left op hop sign right =>
    obtain ⟨hleft, hright⟩ := numbers_of_join h
    rw [Derivation.expr, Derivation.tokens, Derivation.lexemes, List.map_append]
    exact (left.fits hleft).join (right.fits hright) (Operator.places_of_multiplicative hop)
  | add left op hop sign right =>
    obtain ⟨hleft, hright⟩ := numbers_of_join h
    rw [Derivation.expr, Derivation.tokens, Derivation.lexemes, List.map_append]
    exact (left.fits hleft).join (right.fits hright) (Operator.places_of_additive hop)

theorem Arguments.grouping (arguments : Arguments)
    (h : ∀ e ∈ arguments.exprs, ∀ value span, (Expr.number value span).IsNode e →
      isUnsigned value = true) :
    Grouping ([comma].intercalate (Expr.tokensOfAll arguments.exprs)) arguments.tokens := by
  rw [Expr.tokensOfAll_eq_map]
  cases arguments with
  | one d =>
    rw [Arguments.exprs, List.map_singleton, List.intercalate_singleton]
    exact (d.fits (h d.expr (List.mem_singleton.mpr rfl))).grouping
  | more before comma d =>
    have hbefore := before.grouping fun e he => h e (List.mem_append_left _ he)
    have hlast := d.fits (h d.expr (List.mem_append_right _ (List.mem_singleton.mpr rfl)))
    rw [Expr.tokensOfAll_eq_map] at hbefore
    rw [Arguments.exprs, List.map_append, List.map_singleton, intercalate_append_singleton _ _
      (by simpa using before.exprs_ne_nil), Arguments.tokens, Arguments.lexemes, List.map_append]
    exact hbefore.append ((Grouping.refl [.comma]).append hlast.grouping)

end

end Grammar

namespace Evaluation

open Grammar

/--
The printed text has the tokens of any other text with the tree, up to pairs of brackets around whole
expressions and the spellings of the numbers, and it has the tree without these pairs. So it has no
more brackets, and if it has as many, then the tokens are the same up to the spellings of the numbers.
-/
theorem text_fewest_brackets {text : List Char} {lexemes : List Lexeme} {length : Nat} {e : Expr}
    (hlex : Token.lex text = .ok lexemes) (hparse : Parser.parse lexemes length = .ok e)
    (hfinite : ∀ value span, (Expr.number value span).IsNode e → value.isFinite = true) :
    ∃ printed e', Token.lex e.text = .ok printed ∧
      Parser.parse printed (byteLength e.text) = .ok e' ∧ e'.bare = e.bare ∧
      Grouping (printed.map Lexeme.token) (lexemes.map Lexeme.token) ∧
      (printed.map Lexeme.token).count .openBracket ≤
        (lexemes.map Lexeme.token).count .openBracket ∧
      ((printed.map Lexeme.token).count .openBracket =
          (lexemes.map Lexeme.token).count .openBracket →
        List.Forall₂ Token.SameMeaning (printed.map Lexeme.token) (lexemes.map Lexeme.token)) := by
  obtain ⟨htree, hcheck⟩ := Parser.parse_eq_ok_iff.mp hparse
  obtain ⟨d, rfl, rfl⟩ := exists_derivation_of_tree_ok htree
  have hunsigned : ∀ value span, (Expr.number value span).IsNode d.expr → isUnsigned value = true :=
    fun value span hn => isUnsigned_of_hasPlus
      (d.hasPlus_of_isNode (Token.isWritten_of_lexFrom hlex) hn) (hfinite value span hn)
  obtain ⟨d', hreads, hbare⟩ := (reads_text hunsigned).toSum 0
  obtain ⟨printed, hprinted, htokens⟩ := Expr.readsTokens_text hunsigned 0
  obtain rfl : printed = d'.lexemes := Except.ok.inj (hprinted.lex.symm.trans hreads.lex)
  have hreparse : Parser.parse d'.lexemes (byteLength d.expr.text) = .ok d'.expr :=
    Parser.parse_eq_ok_iff.mpr ⟨tree_lexemes d' _, Expr.checkArity_of_bare_eq hbare hcheck⟩
  have hgrouping : Grouping (d'.lexemes.map Lexeme.token) (d.lexemes.map Lexeme.token) := by
    rw [htokens]
    exact (d.fits hunsigned).grouping
  exact ⟨d'.lexemes, d'.expr, hreads.lex, hreparse, hbare, hgrouping, hgrouping.count_le⟩

/-- One pair of brackets can be left out, and a number has a zero too many. -/
theorem text_fewest_brackets_of_redundantPair :
    let lexemes : List Lexeme := [⟨.openBracket, ⟨0, 1⟩⟩, ⟨.openBracket, ⟨1, 2⟩⟩,
      ⟨.number ['2'], ⟨2, 3⟩⟩, ⟨.closeBracket, ⟨3, 4⟩⟩, ⟨.operator .add, ⟨4, 5⟩⟩,
      ⟨.number ['3'], ⟨5, 6⟩⟩, ⟨.closeBracket, ⟨6, 7⟩⟩, ⟨.operator .mul, ⟨7, 8⟩⟩,
      ⟨.number "0.50".toList, ⟨8, 12⟩⟩]
    Token.lex "((2)+3)*0.50".toList = .ok lexemes ∧
      ∃ printed, Token.lex "(2 + 3) * 0.5".toList = .ok printed ∧
        Grouping (printed.map Lexeme.token) (lexemes.map Lexeme.token) := by
  intro lexemes
  let e : Expr := .binary .mul
    (.binary .add (.number (Literal.value ['2']) ⟨1, 4⟩) (.number (Literal.value ['3']) ⟨5, 6⟩) ⟨0, 7⟩)
    (.number (Literal.value "0.50".toList) ⟨8, 12⟩) ⟨0, 12⟩
  have hlex : Token.lex "((2)+3)*0.50".toList = .ok lexemes := by decide +kernel
  have hparse : Parser.parse lexemes 12 = .ok e := rfl
  have htext : e.text = "(2 + 3) * 0.5".toList := by decide +kernel
  have hfinite : ∀ value span, (Expr.number value span).IsNode e → value.isFinite = true := by
    intro value span hn
    simp only [e, Expr.isNode_binary_iff, Expr.isNode_number_iff, reduceCtorEq, false_or,
      Expr.number.injEq] at hn
    rcases hn with (h | h) | h <;> rw [h.1] <;> decide +kernel
  obtain ⟨printed, _, hprinted, _, _, hgrouping, _⟩ := text_fewest_brackets hlex hparse hfinite
  rw [htext] at hprinted
  exact ⟨hlex, printed, hprinted, hgrouping⟩

end Evaluation
end Abacus
