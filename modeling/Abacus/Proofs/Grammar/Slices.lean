import Abacus.Proofs.Grammar.Nodes
import Abacus.Proofs.Lexing
/-!
Parts of a text that are read on their own.

Consecutive tokens of a text are the tokens of the part of the text that they cover, at positions
counted from the start of that part. With the derivations of the nodes this says that the range of
a node selects a text of which the node is the tree.
-/

namespace Abacus
namespace Token

theorem EndsBefore.of_append {t : Token} {a b : List Char} (h : t.EndsBefore (a ++ b)) :
    t.EndsBefore a := by
  cases a with
  | nil => exact endsBefore_nil t
  | cons c a => exact h

/-- A lexeme whose text stands at the front after some gaps is read first. -/
theorem lexFrom_gaps_text {gaps after : List Char} {l : Lexeme} {offset : Nat}
    (hgaps : ∀ c ∈ gaps, isGap c = true) (ht : l.token.IsWritten) (ha : l.token.EndsBefore after)
    (hspan : l.span =
      ⟨offset + byteLength gaps, offset + byteLength gaps + byteLength l.token.text⟩) :
    lexFrom offset (gaps ++ (l.token.text ++ after)) =
      (lexFrom l.span.stop after).map (l :: ·) := by
  rw [lexFrom_gaps hgaps, lexFrom_text ht ha, ← hspan]
  rw [show offset + byteLength gaps + byteLength l.token.text = l.span.stop by rw [hspan]]

/-- The text before a token, with the gaps before it, is read as the tokens before it. -/
theorem lexFrom_split_before {offset : Nat} {text : List Char} {before rest : List Lexeme}
    {l : Lexeme} (h : lexFrom offset text = .ok (before ++ l :: rest)) :
    ∃ a b, text = a ++ b ∧ lexFrom offset a = .ok before ∧
      lexFrom (offset + byteLength a) b = .ok (l :: rest) ∧
      l.span.start = offset + byteLength a := by
  induction before generalizing offset text with
  | nil =>
    obtain ⟨gaps, after, rfl, hgaps, ht, ha, hspan, hrest⟩ := lexFrom_eq_cons h
    refine ⟨gaps, l.token.text ++ after, rfl, ?_, ?_, by rw [hspan]⟩
    · have := lexFrom_gaps hgaps offset []
      rw [List.append_nil] at this
      rw [this, lexFrom]
    · rwa [lexFrom_gaps hgaps] at h
  | cons m before ih =>
    obtain ⟨gaps, after, rfl, hgaps, ht, ha, hspan, hrest⟩ := lexFrom_eq_cons h
    obtain ⟨a, b, rfl, hbefore, hb, hstart⟩ := ih hrest
    have hlength : offset + byteLength (gaps ++ (m.token.text ++ a)) =
        m.span.stop + byteLength a := by
      rw [hspan, byteLength_append, byteLength_append]
      dsimp only
      omega
    refine ⟨gaps ++ (m.token.text ++ a), b, by simp only [List.append_assoc], ?_, ?_, ?_⟩
    · rw [lexFrom_gaps_text hgaps ht ha.of_append hspan, hbefore]
      rfl
    · rw [hlength]
      exact hb
    · rw [hlength]
      exact hstart

/--
The text up to the end of a token is read as the tokens up to this one, and the text after it as the
tokens after it.
-/
theorem lexFrom_split_after {offset : Nat} {text : List Char} {part rest : List Lexeme}
    (hne : part ≠ []) (h : lexFrom offset text = .ok (part ++ rest)) :
    ∃ a b, text = a ++ b ∧ lexFrom offset a = .ok part ∧
      lexFrom (offset + byteLength a) b = .ok rest ∧
      (part.getLast hne).span.stop = offset + byteLength a := by
  induction part generalizing offset text with
  | nil => exact absurd rfl hne
  | cons l part ih =>
    obtain ⟨gaps, after, rfl, hgaps, ht, ha, hspan, hrest⟩ := lexFrom_eq_cons h
    by_cases hpart : part = []
    · subst hpart
      have hlength : offset + byteLength (gaps ++ l.token.text) = l.span.stop := by
        rw [hspan, byteLength_append]
        dsimp only
        omega
      refine ⟨gaps ++ l.token.text, after, by simp only [List.append_assoc], ?_, ?_, hlength.symm⟩
      · have := lexFrom_gaps_text hgaps ht (endsBefore_nil _) hspan
        rw [List.append_nil] at this
        rw [this, lexFrom]
        rfl
      · rw [hlength]
        exact hrest
    · obtain ⟨a, b, rfl, hlex, hb, hstop⟩ := ih hpart hrest
      have hlength : offset + byteLength (gaps ++ (l.token.text ++ a)) =
          l.span.stop + byteLength a := by
        rw [hspan, byteLength_append, byteLength_append]
        dsimp only
        omega
      refine ⟨gaps ++ (l.token.text ++ a), b, by simp only [List.append_assoc], ?_, ?_, ?_⟩
      · rw [lexFrom_gaps_text hgaps ht ha.of_append hspan, hlex]
        rfl
      · rw [hlength]
        exact hb
      · rw [hlength, List.getLast_cons hpart, hstop]

/-- Consecutive tokens are the tokens of the text that they cover. -/
theorem lexFrom_slice {offset : Nat} {text : List Char} {lexemes part : List Lexeme}
    (h : lexFrom offset text = .ok lexemes) (hpart : part <:+: lexemes) (hne : part ≠ []) :
    ∃ before piece after, text = before ++ piece ++ after ∧
      lexFrom (offset + byteLength before) piece = .ok part ∧
      (part.head hne).span.cover (part.getLast hne).span =
        ⟨offset + byteLength before, offset + byteLength (before ++ piece)⟩ := by
  obtain ⟨front, back, rfl⟩ := hpart
  cases part with
  | nil => exact absurd rfl hne
  | cons l part =>
    rw [List.append_assoc] at h
    obtain ⟨before, text, rfl, _, hlex, hstart⟩ := lexFrom_split_before h
    obtain ⟨piece, after, rfl, hpiece, _, hstop⟩ := lexFrom_split_after hne hlex
    refine ⟨before, piece, after, (List.append_assoc _ _ _).symm, hpiece, ?_⟩
    rw [List.head_cons, Span.cover, hstart, hstop, byteLength_append, Nat.add_assoc]

theorem eq_nil_of_lexFrom {offset : Nat} {text : List Char} (hgap : ∀ c ∈ text, isGap c = false)
    (h : lexFrom offset text = .ok []) : text = [] := by
  apply List.eq_nil_iff_forall_not_mem.mpr
  intro c hc
  have := lexFrom_eq_nil h c hc
  rw [hgap c hc] at this
  contradiction

/-- The tokens of a text without gaps cover all of it. -/
theorem cover_of_lexFrom {offset : Nat} {text : List Char} {lexemes : List Lexeme}
    (hgap : ∀ c ∈ text, isGap c = false) (h : lexFrom offset text = .ok lexemes)
    (hne : lexemes ≠ []) :
    (lexemes.head hne).span.cover (lexemes.getLast hne).span =
      ⟨offset, offset + byteLength text⟩ := by
  obtain ⟨l, rest, hlexemes⟩ := List.exists_cons_of_ne_nil hne
  have hsplit : lexFrom offset text = .ok ([] ++ l :: rest) := by
    rwa [hlexemes] at h
  have hwhole : lexFrom offset text = .ok (lexemes ++ []) := by
    rwa [List.append_nil]
  obtain ⟨before, following, htext, hbefore, _, hstart⟩ := lexFrom_split_before hsplit
  obtain ⟨piece, after, htext', _, hafter, hstop⟩ := lexFrom_split_after hne hwhole
  have hbeforeNil : before = [] :=
    eq_nil_of_lexFrom (fun c hc => hgap c (htext ▸ List.mem_append_left _ hc)) hbefore
  have hafterNil : after = [] :=
    eq_nil_of_lexFrom (fun c hc => hgap c (htext' ▸ List.mem_append_right _ hc)) hafter
  subst hlexemes
  rw [hbeforeNil, byteLength_nil] at hstart
  rw [hafterNil, List.append_nil] at htext'
  rw [Span.cover, List.head_cons, hstart, hstop, htext', Nat.add_zero]

/-- A text that starts at another byte has the same tokens, each as far from the start. -/
theorem lexFrom_moved {f : Span → Span} {offset offset' : Nat} {text : List Char}
    {lexemes : List Lexeme}
    (hf : ∀ i j, f ⟨offset + i, offset + j⟩ = ⟨offset' + i, offset' + j⟩)
    (h : lexFrom offset text = .ok lexemes) :
    lexFrom offset' text = .ok (lexemes.map (Lexeme.mapSpan f)) := by
  induction lexemes generalizing offset offset' text with
  | nil =>
    have := lexFrom_gaps (lexFrom_eq_nil h) offset' []
    rw [List.append_nil] at this
    rw [this, lexFrom]
    rfl
  | cons l rest ih =>
    obtain ⟨gaps, after, rfl, hgaps, ht, ha, hspan, hrest⟩ := lexFrom_eq_cons h
    have hmoved : (l.mapSpan f).span =
        ⟨offset' + byteLength gaps, offset' + byteLength gaps + byteLength l.token.text⟩ := by
      rw [Lexeme.mapSpan, hspan, Nat.add_assoc, hf, Nat.add_assoc]
    have hfirst := lexFrom_gaps_text (l := l.mapSpan f) hgaps ht ha hmoved
    have hnext : ∀ i j, f ⟨l.span.stop + i, l.span.stop + j⟩ =
        ⟨(l.mapSpan f).span.stop + i, (l.mapSpan f).span.stop + j⟩ := by
      intro i j
      rw [hmoved, hspan]
      simp only [Nat.add_assoc]
      exact hf _ _
    rw [List.map_cons]
    refine hfirst.trans ?_
    rw [ih hnext hrest]
    rfl

/-- A text that starts `base` bytes earlier has the same tokens, each `base` bytes earlier. -/
theorem lexFrom_back {base offset : Nat} {text : List Char} {lexemes : List Lexeme}
    (h : lexFrom (base + offset) text = .ok lexemes) :
    lexFrom offset text = .ok (lexemes.map (Lexeme.mapSpan (Span.back base))) := by
  refine lexFrom_moved (fun i j => ?_) h
  simp only [Span.back, Span.mk.injEq]
  omega

/-- A text that starts `base` bytes later has the same tokens, each `base` bytes later. -/
theorem lexFrom_ahead {offset : Nat} {text : List Char} {lexemes : List Lexeme} (base : Nat)
    (h : lexFrom offset text = .ok lexemes) :
    lexFrom (base + offset) text = .ok (lexemes.map (Lexeme.mapSpan (Span.ahead base))) := by
  refine lexFrom_moved (fun i j => ?_) h
  simp only [Span.ahead, Span.mk.injEq]
  omega

theorem EndsBefore.append {t : Token} {a b : List Char} (ha : t.EndsBefore a)
    (hb : t.EndsBefore b) : t.EndsBefore (a ++ b) := by
  cases a with
  | nil => exact hb
  | cons c a => exact ha

/-- Before a text that prolongs no token, a text is read as it is on its own. -/
theorem lexFrom_append {offset : Nat} {a b : List Char} {la lb : List Lexeme}
    (hends : ∀ t : Token, t.EndsBefore b) (ha : lexFrom offset a = .ok la)
    (hb : lexFrom (offset + byteLength a) b = .ok lb) : lexFrom offset (a ++ b) = .ok (la ++ lb) := by
  induction la generalizing offset a with
  | nil =>
    rw [lexFrom_gaps (lexFrom_eq_nil ha)]
    exact hb
  | cons l la ih =>
    obtain ⟨gaps, after, rfl, hgaps, ht, hl, hspan, hafter⟩ := lexFrom_eq_cons ha
    have hlength : offset + byteLength (gaps ++ (l.token.text ++ after)) =
        l.span.stop + byteLength after := by
      rw [hspan, byteLength_append, byteLength_append]
      dsimp only
      omega
    rw [hlength] at hb
    rw [List.append_assoc, List.append_assoc, lexFrom_gaps_text hgaps ht (hl.append (hends _)) hspan,
      ih hafter hb]
    rfl

end Token

namespace Grammar

/--
The range of a node selects a part of the text. Read on its own, that part has the node as its
tree, with positions counted from the start of the part.
-/
theorem exists_slice_of_isNode {text : List Char} {d : Derivation .sum} {n : Expr}
    (hlex : Token.lex text = .ok d.lexemes) (hn : n.IsNode d.expr) :
    ∃ before piece after, text = before ++ piece ++ after ∧
      n.span = ⟨byteLength before, byteLength (before ++ piece)⟩ ∧
      ∃ d' : Derivation .sum, Token.lex piece = .ok d'.lexemes ∧
        d'.expr = n.mapSpan (Span.back (byteLength before)) := by
  obtain ⟨d', rfl, hinfix⟩ := d.exists_of_isNode hn
  obtain ⟨before, piece, after, htext, hpiece, hspan⟩ :=
    Token.lexFrom_slice hlex hinfix d'.lexemes_ne_nil
  simp only [Nat.zero_add] at hpiece hspan
  refine ⟨before, piece, after, htext, ?_, d'.mapSpan (Span.back (byteLength before)), ?_, ?_⟩
  · rw [d'.span_expr, hspan]
  · rw [← Nat.add_zero (byteLength before)] at hpiece
    rw [d'.lexemes_mapSpan]
    exact Token.lexFrom_back hpiece
  · exact d'.expr_mapSpan (Span.endwise_back _)

end Grammar
end Abacus
