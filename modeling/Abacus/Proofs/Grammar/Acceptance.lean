import Abacus.Proofs.Grammar.Recognition
/-!
What the parser accepts, and how far a sequence that it refuses can be continued.
-/

namespace Abacus
namespace Grammar

/-! ## Unique derivations -/

/-- Reading the lexemes of a derivation from the start gives the derivation back. -/
theorem finish?_run_lexemes (d : Derivation .sum) :
    ∃ r, Reading.start.run d.lexemes = some r ∧ r.finish? = some d := by
  obtain ⟨u, p, hrun, hclose⟩ := d.isRead []
  exact ⟨.operator u p [], hrun, congrArg some hclose⟩

theorem Derivation.eq_of_lexemes_eq {d e : Derivation .sum} (h : d.lexemes = e.lexemes) :
    d = e := by
  obtain ⟨r, hr, hd⟩ := finish?_run_lexemes d
  obtain ⟨s, hs, he⟩ := finish?_run_lexemes e
  rw [h, hs] at hr
  cases hr
  exact Option.some.inj (hd.symm.trans he)

theorem derivable_iff_finish? (lexemes : List Lexeme) :
    Derivable lexemes ↔ ∃ r d, Reading.start.run lexemes = some r ∧ r.finish? = some d := by
  constructor
  · rintro ⟨d, rfl⟩
    obtain ⟨r, hr, hd⟩ := finish?_run_lexemes d
    exact ⟨r, d, hr, hd⟩
  · rintro ⟨r, d, hr, hd⟩
    refine ⟨d, ?_⟩
    rw [Reading.lexemes_finish? hd, Reading.lexemes_run hr]
    rfl

/-! ## The parser's run -/

namespace Reading

theorem state_finish? (r : Reading) : Parser.finish? r.state = r.finish?.map Derivation.expr := by
  cases r with
  | operator u p frames =>
    cases frames with
    | nil => exact congrArg some (expr_closeSum p [] u).symm
    | cons frame frames => rfl
  | operand p minuses frames => rfl
  | arguments f name p minuses frames => rfl

theorem run_state {r s : Reading} {lexemes : List Lexeme} (h : r.run lexemes = some s)
    (rest : List Lexeme) : Parser.run r.state (lexemes ++ rest) = Parser.run s.state rest := by
  induction lexemes generalizing r with
  | nil =>
    cases h
    rfl
  | cons l lexemes ih =>
    rw [run_cons] at h
    obtain ⟨t, ht, hs⟩ := Option.bind_eq_some_iff.mp h
    rw [List.cons_append, Parser.run, state_advance, ht]
    exact ih hs

theorem run_state_of_refused {r s : Reading} {lexemes : List Lexeme} {l : Lexeme}
    (h : r.run lexemes = some s) (hl : s.advance l = none) (rest : List Lexeme) :
    Parser.run r.state (lexemes ++ l :: rest) = .error l := by
  rw [run_state h, Parser.run, state_advance, hl]
  rfl

/-- Either everything can be read, or there is a first lexeme that cannot stand at its place. -/
theorem run_or_refused (r : Reading) (lexemes : List Lexeme) :
    (∃ s, r.run lexemes = some s) ∨
      ∃ before l after s, lexemes = before ++ l :: after ∧ r.run before = some s ∧
        s.advance l = none := by
  induction lexemes generalizing r with
  | nil => exact .inl ⟨r, rfl⟩
  | cons l rest ih =>
    cases hl : r.advance l with
    | none => exact .inr ⟨[], l, rest, r, rfl, rfl, hl⟩
    | some t =>
      rcases ih t with ⟨s, hs⟩ | ⟨before, l', after, s, rfl, hs, hl'⟩
      · refine .inl ⟨s, ?_⟩
        rw [run_cons, hl]
        exact hs
      · refine .inr ⟨l :: before, l', after, s, rfl, ?_, hl'⟩
        rw [run_cons, hl]
        exact hs

end Reading

theorem tree_of_run {r : Reading} {lexemes : List Lexeme} (length : Nat)
    (h : Reading.start.run lexemes = some r) (hne : lexemes ≠ []) :
    Parser.tree lexemes length =
      match r.finish? with
      | some d => .ok d.expr
      | none => .error (Parser.classify lexemes none length) := by
  have hrun : Parser.run (.operand {} []) lexemes = .ok r.state := by
    have := Reading.run_state h []
    rwa [List.append_nil, Parser.run] at this
  rw [Parser.tree, if_neg (by rwa [List.isEmpty_iff]), hrun]
  simp only [Reading.state_finish?]
  cases r.finish? <;> rfl

theorem tree_of_refused {r : Reading} {before : List Lexeme} {l : Lexeme} (length : Nat)
    (h : Reading.start.run before = some r) (hl : r.advance l = none) (after : List Lexeme) :
    Parser.tree (before ++ l :: after) length =
      .error (Parser.classify (before ++ l :: after) (some l) length) := by
  have hrun : Parser.run (.operand {} []) (before ++ l :: after) = .error l :=
    Reading.run_state_of_refused h hl after
  rw [Parser.tree, if_neg (by simp), hrun]

mutual

theorem Derivation.lexemes_ne_nil {n : Nonterminal} (d : Derivation n) : d.lexemes ≠ [] := by
  cases d with
  | unsigned operand | base operand | factor operand | term operand =>
    rw [Derivation.lexemes]
    exact operand.lexemes_ne_nil
  | _ => simp [Derivation.lexemes]

end

theorem tree_lexemes (d : Derivation .sum) (length : Nat) :
    Parser.tree d.lexemes length = .ok d.expr := by
  obtain ⟨r, hr, hd⟩ := finish?_run_lexemes d
  rw [tree_of_run length hr d.lexemes_ne_nil, hd]

theorem exists_tree_error {lexemes : List Lexeme} (h : ¬ Derivable lexemes) (length : Nat) :
    ∃ p, Parser.tree lexemes length = .error p := by
  by_cases hnil : lexemes = []
  · subst hnil
    exact ⟨.emptyExpression, rfl⟩
  · rcases Reading.start.run_or_refused lexemes with ⟨r, hr⟩ | ⟨before, l, after, r, rfl, hr, hl⟩
    · cases hd : r.finish? with
      | some d => exact absurd ((derivable_iff_finish? lexemes).mpr ⟨r, d, hr, hd⟩) h
      | none =>
        refine ⟨Parser.classify lexemes none length, ?_⟩
        rw [tree_of_run length hr hnil, hd]
    · exact ⟨_, tree_of_refused length hr hl after⟩

theorem exists_derivation_of_tree_ok {lexemes : List Lexeme} {length : Nat} {e : Expr}
    (h : Parser.tree lexemes length = .ok e) :
    ∃ d : Derivation .sum, d.lexemes = lexemes ∧ d.expr = e := by
  by_cases hd : Derivable lexemes
  · obtain ⟨d, rfl⟩ := hd
    rw [tree_lexemes] at h
    exact ⟨d, rfl, Except.ok.inj h⟩
  · obtain ⟨p, hp⟩ := exists_tree_error hd length
    rw [hp] at h
    contradiction

theorem parse_eq_of_tree_ok {lexemes : List Lexeme} {length : Nat} {e : Expr}
    (h : Parser.tree lexemes length = .ok e) :
    Parser.parse lexemes length = (e.checkArity.map fun _ => e).mapError .arity := by
  rw [Parser.parse, h]
  dsimp only
  cases e.checkArity <;> rfl

/--
The parser returns a tree, or complains about the number of arguments of a call, exactly on the
sequences that the grammar derives, and reports a parse error on all others. A derivable sequence
has one derivation, and the tree of that derivation is the one whose calls are checked.
-/
theorem parse_recognizes_grammar (lexemes : List Lexeme) (length : Nat) :
    ((∃ e, Parser.parse lexemes length = .ok e) ∨
        (∃ a, Parser.parse lexemes length = .error (.arity a)) ↔ Derivable lexemes) ∧
    ((∃ p, Parser.parse lexemes length = .error (.parse p)) ↔ ¬ Derivable lexemes) ∧
    ∀ d : Derivation .sum, d.lexemes = lexemes →
      (∀ d' : Derivation .sum, d'.lexemes = lexemes → d' = d) ∧
      Parser.tree lexemes length = .ok d.expr ∧
      Parser.parse lexemes length = (d.expr.checkArity.map fun _ => d.expr).mapError .arity := by
  by_cases h : Derivable lexemes
  · obtain ⟨d, rfl⟩ := h
    have htree := tree_lexemes d length
    have hparse := parse_eq_of_tree_ok htree
    have hd : Derivable d.lexemes := ⟨d, rfl⟩
    refine ⟨iff_of_true ?_ hd, iff_of_false ?_ (not_not_intro hd), ?_⟩
    · rw [hparse]
      cases d.expr.checkArity with
      | ok _ => exact .inl ⟨d.expr, rfl⟩
      | error a => exact .inr ⟨a, rfl⟩
    · rw [hparse]
      rintro ⟨p, hp⟩
      cases hc : d.expr.checkArity <;> rw [hc] at hp <;> cases hp
    · intro e he
      obtain rfl := Derivation.eq_of_lexemes_eq he
      exact ⟨fun d' hd' => Derivation.eq_of_lexemes_eq hd', htree, hparse⟩
  · obtain ⟨p, hp⟩ := exists_tree_error h length
    have hparse : Parser.parse lexemes length = .error (.parse p) := by rw [Parser.parse, hp]
    refine ⟨iff_of_false ?_ h, iff_of_true ⟨p, hparse⟩ h, fun d hd => absurd ⟨d, hd⟩ h⟩
    rw [hparse]
    rintro (⟨e, he⟩ | ⟨a, ha⟩)
    · cases he
    · cases ha

end Grammar
end Abacus
