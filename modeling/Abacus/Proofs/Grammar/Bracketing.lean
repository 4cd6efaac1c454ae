import Abacus.Proofs.Grammar.NodeRanges
import Abacus.Proofs.TypedTokens
/-!
A pair of brackets around a node.

Brackets around the lexemes of a node make a group of them. Since a group leaves no node and is a
primary, which fits at every place of the grammar, the lexemes keep their tree and only the ranges in
it grow or move: those of the node and of what stands around it grow by the brackets, those inside
the node move by one byte and those after it by two.
-/

namespace Abacus

namespace Span

instance (a b : Span) : Decidable (a.Inside b) :=
  inferInstanceAs (Decidable (_ ∧ _))

instance (a b : Span) : Decidable (a.Precedes b) :=
  inferInstanceAs (Decidable (_ ≤ _))

/-- The range of a node after brackets have been put around the node with the range `inner`. -/
def bracketed (inner span : Span) : Span :=
  if inner.Inside span then ⟨span.start, span.stop + 2⟩
  else if span.Inside inner then span.ahead 1
  else if span.Precedes inner then span
  else span.ahead 2

variable {inner span : Span}

theorem bracketed_of_inside (h : inner.Inside span) :
    inner.bracketed span = ⟨span.start, span.stop + 2⟩ :=
  if_pos h

theorem bracketed_inner (h : span.Inside inner) (hne : ¬ inner.Inside span) :
    inner.bracketed span = span.ahead 1 := by
  rw [bracketed, if_neg hne, if_pos h]

theorem bracketed_of_precedes (hinner : inner.start < inner.stop) (hspan : span.start < span.stop)
    (h : span.Precedes inner) : inner.bracketed span = span := by
  have hle : span.stop ≤ inner.start := h
  have hout : ¬ inner.Inside span := by
    intro hin
    have hin' : inner.stop ≤ span.stop := hin.2
    omega
  have hin : ¬ span.Inside inner := by
    intro hin
    have hin' : inner.start ≤ span.start := hin.1
    omega
  rw [bracketed, if_neg hout, if_neg hin, if_pos h]

theorem bracketed_of_follows (hinner : inner.start < inner.stop) (hspan : span.start < span.stop)
    (h : inner.Precedes span) : inner.bracketed span = span.ahead 2 := by
  have hle : inner.stop ≤ span.start := h
  have hout : ¬ inner.Inside span := by
    intro hin
    have hin' : span.start ≤ inner.start := hin.1
    omega
  have hin : ¬ span.Inside inner := by
    intro hin
    have hin' : span.stop ≤ inner.stop := hin.2
    omega
  have hbefore : ¬ span.Precedes inner := by
    intro hbefore
    have hle' : span.stop ≤ inner.start := hbefore
    omega
  rw [bracketed, if_neg hout, if_neg hin, if_neg hbefore]

/-- A range from one operand to the next grows by the brackets that are put in either of them. -/
theorem bracketed_cover {first last : Span} (hinner : inner.start < inner.stop)
    (hfirst : first.start < first.stop) (hlast : last.start < last.stop)
    (horder : first.Precedes last) (h : inner.Inside first ∨ inner.Inside last) :
    inner.bracketed (first.cover last) = (inner.bracketed first).cover (inner.bracketed last) := by
  have hle : first.stop ≤ last.start := horder
  rcases h with hin | hin
  · have hstop : inner.stop ≤ first.stop := hin.2
    have hout : inner.Inside (first.cover last) := by
      refine ⟨hin.1, ?_⟩
      show inner.stop ≤ last.stop
      omega
    have hafter : inner.Precedes last := hstop.trans hle
    rw [bracketed_of_inside hout, bracketed_of_inside hin,
      bracketed_of_follows hinner hlast hafter, ahead, Nat.add_comm 2 last.stop]
    rfl
  · have hstart : last.start ≤ inner.start := hin.1
    have hout : inner.Inside (first.cover last) := by
      refine ⟨?_, hin.2⟩
      show first.start ≤ inner.start
      omega
    have hbefore : first.Precedes inner := hle.trans hstart
    rw [bracketed_of_inside hout, bracketed_of_inside hin,
      bracketed_of_precedes hinner hfirst hbefore, cover, cover]

end Span

namespace Expr

/-- Two maps that agree below the root move the tree to the same place, up to the root's range. -/
theorem mapSpan_eq_withSpan {f g : Span → Span} {e : Expr}
    (h : ∀ child ∈ e.children, ∀ n, IsNode n child → f n.span = g n.span) :
    e.mapSpan f = (e.mapSpan g).withSpan (f e.span) := by
  have hchild : ∀ child ∈ e.children, child.mapSpan f = child.mapSpan g :=
    fun child hmem => mapSpan_congr (h child hmem)
  cases e with
  | number value span => rw [mapSpan, mapSpan, withSpan, Expr.span]
  | negate operand span =>
    rw [mapSpan, mapSpan, withSpan, hchild operand (by simp [children]), Expr.span]
  | binary op left right span =>
    rw [mapSpan, mapSpan, withSpan, hchild left (by simp [children]),
      hchild right (by simp [children]), Expr.span]
  | call function arguments span =>
    have harguments : mapSpans f arguments = mapSpans g arguments := by
      rw [mapSpans_eq_map, mapSpans_eq_map]
      exact List.map_congr_left hchild
    rw [mapSpan, mapSpan, withSpan, harguments, Expr.span]

end Expr

namespace Grammar

open Token (Between)

/-! ## Trees with moved ranges -/

section

variable {k : Nonterminal} (d : Derivation k) {start stop : Nat}
include d

/-- A tree in brackets has the tree's own nodes one byte later, and the brackets in its range. -/
theorem Derivation.mapSpan_bracketed_self (h : Between stop start d.lexemes) :
    d.expr.mapSpan d.expr.span.bracketed = (d.expr.mapSpan (Span.ahead 1)).withSpan
      ⟨d.expr.span.start, d.expr.span.stop + 2⟩ := by
  have hself : d.expr.span.bracketed d.expr.span = ⟨d.expr.span.start, d.expr.span.stop + 2⟩ :=
    Span.bracketed_of_inside ⟨Nat.le_refl _, Nat.le_refl _⟩
  rw [← hself]
  apply Expr.mapSpan_eq_withSpan
  intro child hchild n hn
  have hnode : n.IsNode d.expr := .under hchild hn
  apply Span.bracketed_inner (d.inside_of_isNode h hnode)
  intro hinside
  rw [d.eq_of_isNode h hnode hinside] at hn
  exact Expr.not_isNode_child hchild hn

theorem Derivation.mapSpan_bracketed_before (h : Between stop start d.lexemes) {inner : Span}
    (hinner : inner.start < inner.stop) (hle : stop ≤ inner.start) :
    d.expr.mapSpan inner.bracketed = d.expr := by
  have hid : d.expr.mapSpan inner.bracketed = d.expr.mapSpan id := by
    apply Expr.mapSpan_congr
    intro n hn
    obtain ⟨_, hlt, hstop⟩ := d.isNode_bounds h hn
    exact Span.bracketed_of_precedes hinner hlt (hstop.trans hle)
  rw [hid, Expr.mapSpan_id]

theorem Derivation.mapSpan_bracketed_after (h : Between stop start d.lexemes) {inner : Span}
    (hinner : inner.start < inner.stop) (hle : inner.stop ≤ start) :
    (d.mapSpan (Span.ahead 2)).expr = d.expr.mapSpan inner.bracketed := by
  rw [d.expr_mapSpan (Span.endwise_ahead 2)]
  apply Expr.mapSpan_congr
  intro n hn
  obtain ⟨hstart, hlt, _⟩ := d.isNode_bounds h hn
  exact (Span.bracketed_of_follows hinner hlt (hle.trans hstart)).symm

end

/-! ## Lexemes in brackets -/

/--
The second list is the first with brackets around the lexemes of the range. Those of the range are
moved by one byte, and those after it by two.
-/
inductive Bracketing (n : Span) : List Lexeme → List Lexeme → Prop where
  | around (front : List Lexeme) {part : List Lexeme} (back : List Lexeme) (hne : part ≠ [])
      (hcover : (part.head hne).span.cover (part.getLast hne).span = n) :
      Bracketing n (front ++ (part ++ back))
        (front ++ ⟨.openBracket, ⟨n.start, n.start + 1⟩⟩ ::
          (part.map (Lexeme.mapSpan (Span.ahead 1)) ++
            ⟨.closeBracket, ⟨n.stop + 1, n.stop + 2⟩⟩ :: back.map (Lexeme.mapSpan (Span.ahead 2))))

theorem Bracketing.prepend {n : Span} {a b : List Lexeme} (h : Bracketing n a b)
    (before : List Lexeme) : Bracketing n (before ++ a) (before ++ b) := by
  cases h with
  | around front back hne hcover =>
    have := Bracketing.around (before ++ front) back hne hcover
    simpa only [List.append_assoc] using this

theorem Bracketing.append {n : Span} {a b : List Lexeme} (h : Bracketing n a b)
    (after : List Lexeme) :
    Bracketing n (a ++ after) (b ++ after.map (Lexeme.mapSpan (Span.ahead 2))) := by
  cases h with
  | around front back hne hcover =>
    have := Bracketing.around front (back ++ after) hne hcover
    rw [List.map_append] at this
    simpa only [List.append_assoc, List.cons_append] using this

/-- A primary stands for an expression of every kind. -/
def Derivation.ofPrimary : (k : Nonterminal) → Derivation .primary → Derivation k
  | .sum, d => .term (.factor (.base (.unsigned d)))
  | .product, d => .factor (.base (.unsigned d))
  | .power, d => .base (.unsigned d)
  | .unary, d => .unsigned d
  | .primary, d => d

theorem Derivation.lexemes_ofPrimary (k : Nonterminal) (d : Derivation .primary) :
    (ofPrimary k d).lexemes = d.lexemes := by
  cases k <;> simp only [ofPrimary, lexemes]

theorem Derivation.expr_ofPrimary (k : Nonterminal) (d : Derivation .primary) :
    (ofPrimary k d).expr = d.expr := by
  cases k <;> simp only [ofPrimary, expr]

/-- The derivation in brackets, which are put where the range of its tree starts and ends. -/
def Derivation.bracketed {k : Nonterminal} (d : Derivation k) : Derivation .primary :=
  .group ⟨d.expr.span.start, d.expr.span.start + 1⟩ (d.toSum.mapSpan (Span.ahead 1))
    ⟨d.expr.span.stop + 1, d.expr.span.stop + 2⟩

section

variable {k : Nonterminal} (d : Derivation k) {start stop : Nat}
include d

theorem Derivation.lexemes_bracketed :
    Bracketing d.expr.span d.lexemes d.bracketed.lexemes := by
  have := Bracketing.around [] [] d.lexemes_ne_nil d.span_expr.symm
  rw [List.append_nil] at this
  rw [bracketed, lexemes, lexemes_mapSpan, lexemes_toSum]
  exact this

theorem Derivation.expr_bracketed (h : Between stop start d.lexemes) :
    d.bracketed.expr = d.expr.mapSpan d.expr.span.bracketed := by
  rw [d.mapSpan_bracketed_self h, bracketed, expr, expr_mapSpan (Span.endwise_ahead 1), expr_toSum]
  rfl

/-- The whole derivation can be put in brackets wherever it stands. -/
theorem Derivation.exists_bracketed_self (h : Between stop start d.lexemes) :
    ∃ d' : Derivation k, Bracketing d.expr.span d.lexemes d'.lexemes ∧
      d'.expr = d.expr.mapSpan d.expr.span.bracketed := by
  refine ⟨ofPrimary k d.bracketed, ?_, ?_⟩
  · rw [lexemes_ofPrimary]
    exact d.lexemes_bracketed
  · rw [expr_ofPrimary]
    exact d.expr_bracketed h

end

/-! ## Nodes in brackets -/

theorem Arguments.mapSpan_bracketed_before (arguments : Arguments) {start stop : Nat}
    (h : Between stop start arguments.lexemes) {inner : Span} (hinner : inner.start < inner.stop)
    (hle : stop ≤ inner.start) :
    arguments.exprs.map (Expr.mapSpan inner.bracketed) = arguments.exprs := by
  match arguments with
  | .one d =>
    rw [Arguments.lexemes] at h
    rw [Arguments.exprs, List.map_cons, List.map_nil, d.mapSpan_bracketed_before h hinner hle]
  | .more before comma d =>
    rw [Arguments.lexemes] at h
    obtain ⟨middle, hbefore, hcomma, hlt, hd⟩ := h.append
    dsimp only at hcomma hlt hd
    have hend := hd.start_le_stop
    rw [Arguments.exprs, List.map_append, List.map_cons, List.map_nil,
      before.mapSpan_bracketed_before hbefore hinner (by omega),
      d.mapSpan_bracketed_before hd hinner hle]

/-- A node of one of two operands is put in brackets by putting it in brackets in the operand. -/
theorem exists_bracketed_operands {kl kr : Nonterminal} {left : Derivation kl}
    {right : Derivation kr} {op : Operator} {sign : Span} {start stop : Nat} {n : Expr}
    (h : Between stop start (left.lexemes ++ ⟨.operator op, sign⟩ :: right.lexemes))
    (hleft : ∀ stop, Between stop start left.lexemes → n.IsNode left.expr →
      ∃ left' : Derivation kl, Bracketing n.span left.lexemes left'.lexemes ∧
        left'.expr = left.expr.mapSpan n.span.bracketed)
    (hright : ∀ start, Between stop start right.lexemes → n.IsNode right.expr →
      ∃ right' : Derivation kr, Bracketing n.span right.lexemes right'.lexemes ∧
        right'.expr = right.expr.mapSpan n.span.bracketed)
    (hn : n.IsNode left.expr ∨ n.IsNode right.expr) :
    ∃ (left' : Derivation kl) (sign' : Span) (right' : Derivation kr),
      Bracketing n.span (left.lexemes ++ ⟨.operator op, sign⟩ :: right.lexemes)
        (left'.lexemes ++ ⟨.operator op, sign'⟩ :: right'.lexemes) ∧
      Expr.join op left'.expr right'.expr =
        (Expr.join op left.expr right.expr).mapSpan n.span.bracketed := by
  obtain ⟨middle, hl, hsign, hlt, hr⟩ := h.append
  dsimp only at hsign hlt hr
  obtain ⟨_, hleftPos, hleftStop⟩ := left.span_bounds hl
  obtain ⟨hrightStart, hrightPos, _⟩ := right.span_bounds hr
  have horder : left.expr.span.Precedes right.expr.span := by
    show left.expr.span.stop ≤ right.expr.span.start
    omega
  have hjoin : n.span.start < n.span.stop →
      n.span.Inside left.expr.span ∨ n.span.Inside right.expr.span →
      (Expr.join op left.expr right.expr).mapSpan n.span.bracketed = Expr.join op
        (left.expr.mapSpan n.span.bracketed) (right.expr.mapSpan n.span.bracketed) := by
    intro hpos hinside
    rw [Expr.join, Expr.mapSpan, Span.bracketed_cover hpos hleftPos hrightPos horder hinside,
      Expr.join, Expr.span_mapSpan, Expr.span_mapSpan]
  rcases hn with hn | hn
  · obtain ⟨_, hpos, hstop⟩ := left.isNode_bounds hl hn
    obtain ⟨left', hbrackets, hexpr⟩ := hleft middle hl hn
    refine ⟨left', sign.ahead 2, right.mapSpan (Span.ahead 2), ?_, ?_⟩
    · have := hbrackets.append (⟨.operator op, sign⟩ :: right.lexemes)
      rwa [List.map_cons, ← right.lexemes_mapSpan] at this
    · rw [hexpr, right.mapSpan_bracketed_after hr hpos (by omega),
        hjoin hpos (.inl (left.inside_of_isNode hl hn))]
  · obtain ⟨hstart, hpos, _⟩ := right.isNode_bounds hr hn
    obtain ⟨right', hbrackets, hexpr⟩ := hright sign.stop hr hn
    refine ⟨left, sign, right', ?_, ?_⟩
    · have := hbrackets.prepend (left.lexemes ++ [⟨.operator op, sign⟩])
      rwa [List.append_assoc, List.append_assoc] at this
    · rw [hexpr, hjoin hpos (.inr (right.inside_of_isNode hr hn)),
        left.mapSpan_bracketed_before hl hpos (by omega)]

mutual

/-- Whatever node of a tree is put in brackets, the derivation goes on to have the moved tree. -/
theorem Derivation.exists_bracketed {k : Nonterminal} (d : Derivation k) {start stop : Nat}
    (h : Between stop start d.lexemes) {n : Expr} (hn : n.IsNode d.expr) :
    ∃ d' : Derivation k, Bracketing n.span d.lexemes d'.lexemes ∧
      d'.expr = d.expr.mapSpan n.span.bracketed := by
  by_cases hroot : n = d.expr
  · rw [hroot]
    exact d.exists_bracketed_self h
  match d with
  | .number text span | .emptyCall f name opening closing =>
    rw [Derivation.expr, Expr.isNode_iff] at hn
    rcases hn with hn | ⟨child, hchild, _⟩
    · exact absurd hn hroot
    · exact absurd hchild (List.not_mem_nil)
  | .group opening inner closing =>
    obtain ⟨_, hopening, hrest⟩ := h
    obtain ⟨middle, hinner, hclosing, hlt, _⟩ := hrest.append
    dsimp only at hopening hclosing hlt hinner
    have hnode : n.IsNode inner.expr := by
      rw [Derivation.expr, Expr.isNode_iff] at hn
      obtain ⟨child, hchild, hn⟩ := hn.resolve_left hroot
      rw [Expr.children_withSpan] at hchild
      exact .under hchild hn
    obtain ⟨hstart, _, hstop⟩ := inner.isNode_bounds hinner hnode
    have hinside : n.span.Inside (opening.cover closing) := by
      constructor
      · show opening.start ≤ n.span.start
        omega
      · show n.span.stop ≤ closing.stop
        omega
    obtain ⟨inner', hbrackets, hexpr⟩ := inner.exists_bracketed hinner hnode
    refine ⟨.group opening inner' (closing.ahead 2), ?_, ?_⟩
    · exact (hbrackets.append [⟨.closeBracket, closing⟩]).prepend [⟨.openBracket, opening⟩]
    · rw [Derivation.expr, Derivation.expr, Expr.mapSpan_withSpan, hexpr,
        Span.bracketed_of_inside hinside, Span.ahead, Nat.add_comm 2 closing.stop]
      rfl
  | .call f name opening arguments closing =>
    obtain ⟨_, hname, hopening, hlt, hrest⟩ := h
    obtain ⟨middle, harguments, hclosing, hlt', _⟩ := hrest.append
    dsimp only at hname hopening hlt hclosing hlt' harguments
    rw [Derivation.expr, Expr.isNode_iff] at hn
    obtain ⟨argument, ha, hn⟩ := hn.resolve_left hroot
    obtain ⟨hstart, _, hstop⟩ := arguments.isNode_bounds harguments ha hn
    have hinside : n.span.Inside (name.cover closing) := by
      constructor
      · show name.start ≤ n.span.start
        omega
      · show n.span.stop ≤ closing.stop
        omega
    obtain ⟨arguments', hbrackets, hexprs⟩ := arguments.exists_bracketed harguments ha hn
    refine ⟨.call f name opening arguments' (closing.ahead 2), ?_, ?_⟩
    · exact (hbrackets.append [⟨.closeBracket, closing⟩]).prepend
        [⟨.function f, name⟩, ⟨.openBracket, opening⟩]
    · rw [Derivation.expr, Derivation.expr, Expr.mapSpan, Expr.mapSpans_eq_map, hexprs,
        Span.bracketed_of_inside hinside, Span.ahead, Nat.add_comm 2 closing.stop]
      rfl
  | .unsigned operand =>
    obtain ⟨operand', hbrackets, hexpr⟩ := operand.exists_bracketed h hn
    exact ⟨.unsigned operand', hbrackets, hexpr⟩
  | .base operand =>
    obtain ⟨operand', hbrackets, hexpr⟩ := operand.exists_bracketed h hn
    exact ⟨.base operand', hbrackets, hexpr⟩
  | .factor operand =>
    obtain ⟨operand', hbrackets, hexpr⟩ := operand.exists_bracketed h hn
    exact ⟨.factor operand', hbrackets, hexpr⟩
  | .term operand =>
    obtain ⟨operand', hbrackets, hexpr⟩ := operand.exists_bracketed h hn
    exact ⟨.term operand', hbrackets, hexpr⟩
  | .minus sign operand =>
    obtain ⟨_, hsign, hoperand⟩ := h
    dsimp only at hsign hoperand
    rw [Derivation.expr] at hn hroot
    have hnode : n.IsNode operand.expr := (Expr.isNode_negate_iff.mp hn).resolve_left hroot
    obtain ⟨hstart, _, _⟩ := operand.isNode_bounds hoperand hnode
    have hinside := operand.inside_of_isNode hoperand hnode
    have houtside : n.span.Inside (sign.cover operand.expr.span) := by
      refine ⟨?_, hinside.2⟩
      show sign.start ≤ n.span.start
      omega
    obtain ⟨operand', hbrackets, hexpr⟩ := operand.exists_bracketed hoperand hnode
    refine ⟨.minus sign operand', hbrackets.prepend [⟨.operator .sub, sign⟩], ?_⟩
    rw [Derivation.expr, Derivation.expr, Expr.mapSpan, hexpr, Expr.span_mapSpan,
      Span.bracketed_of_inside hinside, Span.bracketed_of_inside houtside]
    rfl
  | .raise left sign right =>
    have hoperand := (Expr.isNode_join_iff.mp hn).resolve_left hroot
    obtain ⟨left', sign', right', hbrackets, hexpr⟩ := exists_bracketed_operands h
      (fun _ hl => left.exists_bracketed hl) (fun _ hr => right.exists_bracketed hr) hoperand
    exact ⟨.raise left' sign' right', hbrackets, hexpr⟩
  | .multiply left op hop sign right =>
    have hoperand := (Expr.isNode_join_iff.mp hn).resolve_left hroot
    obtain ⟨left', sign', right', hbrackets, hexpr⟩ := exists_bracketed_operands h
      (fun _ hl => left.exists_bracketed hl) (fun _ hr => right.exists_bracketed hr) hoperand
    exact ⟨.multiply left' op hop sign' right', hbrackets, hexpr⟩
  | .add left op hop sign right =>
    have hoperand := (Expr.isNode_join_iff.mp hn).resolve_left hroot
    obtain ⟨left', sign', right', hbrackets, hexpr⟩ := exists_bracketed_operands h
      (fun _ hl => left.exists_bracketed hl) (fun _ hr => right.exists_bracketed hr) hoperand
    exact ⟨.add left' op hop sign' right', hbrackets, hexpr⟩

theorem Arguments.exists_bracketed (arguments : Arguments) {start stop : Nat}
    (h : Between stop start arguments.lexemes) {argument n : Expr}
    (ha : argument ∈ arguments.exprs) (hn : n.IsNode argument) :
    ∃ arguments' : Arguments, Bracketing n.span arguments.lexemes arguments'.lexemes ∧
      arguments'.exprs = arguments.exprs.map (Expr.mapSpan n.span.bracketed) := by
  match arguments with
  | .one d =>
    rw [Arguments.exprs, List.mem_singleton] at ha
    rw [ha] at hn
    obtain ⟨d', hbrackets, hexpr⟩ := d.exists_bracketed h hn
    refine ⟨.one d', hbrackets, ?_⟩
    rw [Arguments.exprs, Arguments.exprs, List.map_cons, List.map_nil, hexpr]
  | .more before comma d =>
    rw [Arguments.lexemes] at h
    obtain ⟨middle, hbefore, hcomma, hlt, hd⟩ := h.append
    dsimp only at hcomma hlt hd
    rw [Arguments.exprs, List.mem_append, List.mem_singleton] at ha
    rcases ha with ha | ha
    · obtain ⟨_, hpos, hstop⟩ := before.isNode_bounds hbefore ha hn
      obtain ⟨before', hbrackets, hexprs⟩ := before.exists_bracketed hbefore ha hn
      refine ⟨.more before' (comma.ahead 2) (d.mapSpan (Span.ahead 2)), ?_, ?_⟩
      · have := hbrackets.append (⟨.comma, comma⟩ :: d.lexemes)
        rwa [List.map_cons, ← d.lexemes_mapSpan] at this
      · rw [Arguments.exprs, Arguments.exprs, List.map_append, List.map_cons, List.map_nil, hexprs,
          d.mapSpan_bracketed_after hd hpos (by omega)]
    · rw [ha] at hn
      obtain ⟨hstart, hpos, _⟩ := d.isNode_bounds hd hn
      obtain ⟨d', hbrackets, hexpr⟩ := d.exists_bracketed hd hn
      refine ⟨.more before comma d', ?_, ?_⟩
      · have := hbrackets.prepend (before.lexemes ++ [⟨.comma, comma⟩])
        rwa [List.append_assoc, List.append_assoc] at this
      · rw [Arguments.exprs, Arguments.exprs, List.map_append, List.map_cons, List.map_nil, hexpr,
          before.mapSpan_bracketed_before hbefore hpos (by omega)]

end

end Grammar
end Abacus
