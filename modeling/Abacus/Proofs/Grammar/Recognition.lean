import Abacus.Proofs.Grammar.Reading
/-!
The parser accepts what the grammar derives.

Soundness is an invariant of one step: the stack spells the lexemes read so far, so a stack that can
end is a derivation of all of them. Completeness is an induction on the derivation: reading its
lexemes leaves it on the stack, whatever waits below. As reading is a function, two derivations of
one sequence are the same.
-/

namespace Abacus
namespace Grammar

/-! ## The lexemes on the stack -/

def Left.lexemes {n : Nonterminal} {ops : List Operator} (left : Left n ops) : List Lexeme :=
  left.operand.lexemes ++ [⟨.operator left.op, left.sign⟩]

def lexemesOfMinuses (minuses : List Span) : List Lexeme :=
  minuses.reverse.map fun sign => ⟨.operator .sub, sign⟩

def lexemesOfPowers : List (Derivation .unary × Span) → List Lexeme
  | [] => []
  | left :: outer => lexemesOfPowers outer ++ (left.1.lexemes ++ [⟨.operator .pow, left.2⟩])

def Pending.lexemes (p : Pending) : List Lexeme :=
  p.sum.elim [] Left.lexemes ++ (p.product.elim [] Left.lexemes ++ lexemesOfPowers p.powers)

def lexemesBefore (before : Option (Arguments × Span)) : List Lexeme :=
  before.elim [] fun b => b.1.lexemes ++ [⟨.comma, b.2⟩]

def Opening.lexemes : Opening → List Lexeme
  | .group opening => [⟨.openBracket, opening⟩]
  | .call f name opening before =>
      ⟨.function f, name⟩ :: ⟨.openBracket, opening⟩ :: lexemesBefore before

def Frame.lexemes (frame : Frame) : List Lexeme :=
  frame.outside.lexemes ++ (lexemesOfMinuses frame.minuses ++ frame.opening.lexemes)

def lexemesOfFrames : List Frame → List Lexeme
  | [] => []
  | frame :: outer => lexemesOfFrames outer ++ frame.lexemes

/-- Every lexeme that was read. -/
def Reading.lexemes : Reading → List Lexeme
  | .operand p minuses frames => lexemesOfFrames frames ++ (p.lexemes ++ lexemesOfMinuses minuses)
  | .arguments f name p minuses frames =>
      lexemesOfFrames frames ++ (p.lexemes ++ (lexemesOfMinuses minuses ++ [⟨.function f, name⟩]))
  | .operator u p frames => lexemesOfFrames frames ++ (p.lexemes ++ u.lexemes)

attribute [local simp] Derivation.lexemes Arguments.lexemes

theorem lexemes_applyMinuses (minuses : List Span) (u : Derivation .unary) :
    (applyMinuses minuses u).lexemes = lexemesOfMinuses minuses ++ u.lexemes := by
  induction minuses generalizing u with
  | nil => rfl
  | cons sign minuses ih =>
    have h := ih (.minus sign u)
    simpa [applyMinuses, lexemesOfMinuses] using h

theorem lexemes_closePowers (powers : List (Derivation .unary × Span)) (u : Derivation .unary) :
    (closePowers powers u).lexemes = lexemesOfPowers powers ++ u.lexemes := by
  have h : ∀ right : Derivation .power,
      (powers.foldl (fun right left => Derivation.raise left.1 left.2 right) right).lexemes =
        lexemesOfPowers powers ++ right.lexemes := by
    induction powers with
    | nil => intro right; rfl
    | cons left outer ih =>
      intro right
      rw [List.foldl_cons, ih, lexemesOfPowers, Derivation.lexemes]
      simp only [List.append_assoc, List.cons_append, List.nil_append]
  exact h (.base u)

theorem lexemes_closeProduct (p : Pending) (u : Derivation .unary) :
    (p.closeProduct u).lexemes =
      p.product.elim [] Left.lexemes ++ (lexemesOfPowers p.powers ++ u.lexemes) := by
  have h := lexemes_closePowers p.powers u
  obtain ⟨sum, product, powers⟩ := p
  cases product with
  | none => exact h
  | some left => simpa [Pending.closeProduct, Left.lexemes] using h

theorem lexemes_closeSum (p : Pending) (u : Derivation .unary) :
    (p.closeSum u).lexemes = p.lexemes ++ u.lexemes := by
  have h := lexemes_closeProduct p u
  obtain ⟨sum, product, powers⟩ := p
  cases sum with
  | none => simpa [Pending.closeSum, Pending.lexemes] using h
  | some left =>
    simpa [Pending.closeSum, Pending.lexemes, Left.lexemes] using h

theorem lexemes_push (p : Pending) (u : Derivation .unary) (sign : Span) (op : Operator) :
    (p.push u sign op).lexemes = p.lexemes ++ (u.lexemes ++ [⟨.operator op, sign⟩]) := by
  have hproduct := lexemes_closeProduct p u
  have hsum := lexemes_closeSum p u
  cases op with
  | pow => simp [Pending.push, Pending.lexemes, lexemesOfPowers]
  | mul | div | mod => simp [Pending.push, Pending.lexemes, lexemesOfPowers, Left.lexemes, hproduct]
  | add | sub =>
    simp [Pending.push, Pending.lexemes, lexemesOfPowers, Left.lexemes, hsum]

theorem Pending.lexemes_of_isEmpty {p : Pending} (h : p.isEmpty = true) : p.lexemes = [] := by
  obtain ⟨sum, product, powers⟩ := p
  simp only [Pending.isEmpty, Bool.and_eq_true, Option.isNone_iff_eq_none,
    List.isEmpty_iff] at h
  obtain ⟨⟨rfl, rfl⟩, rfl⟩ := h
  rfl

theorem lexemes_appendArgument (before : Option (Arguments × Span)) (e : Derivation .sum) :
    (appendArgument before e).lexemes = lexemesBefore before ++ e.lexemes := by
  cases before with
  | none => rfl
  | some b => simp [appendArgument, lexemesBefore]

namespace Reading

/-- Nothing is read inside a bracket that has just been opened. -/
theorem lexemes_opened (frame : Frame) (frames : List Frame) :
    (Reading.operand {} [] (frame :: frames)).lexemes = lexemesOfFrames frames ++ frame.lexemes := by
  simp [lexemes, lexemesOfFrames, Pending.lexemes, lexemesOfPowers, lexemesOfMinuses]

theorem lexemes_complete (p : Derivation .primary) (pending : Pending) (minuses : List Span)
    (frames : List Frame) :
    (complete p pending minuses frames).lexemes =
      lexemesOfFrames frames ++ (pending.lexemes ++ (lexemesOfMinuses minuses ++ p.lexemes)) := by
  simp only [complete, lexemes, lexemes_applyMinuses, Derivation.lexemes]

theorem lexemes_close {inside : Option (Derivation .sum)} {closing : Span} {frames : List Frame}
    {r : Reading} (h : close inside closing frames = some r) :
    r.lexemes = lexemesOfFrames frames ++
      (inside.elim [] Derivation.lexemes ++ [⟨.closeBracket, closing⟩]) := by
  cases frames with
  | nil => contradiction
  | cons frame frames =>
    obtain ⟨opening, outside, minuses⟩ := frame
    cases opening with
    | group opening =>
      cases inside with
      | none => contradiction
      | some e =>
        cases h
        simp [lexemes_complete, lexemesOfFrames, Frame.lexemes, Opening.lexemes]
    | call f name opening before =>
      cases inside with
      | some e =>
        cases h
        simp [lexemes_complete, lexemesOfFrames, Frame.lexemes, Opening.lexemes,
          lexemes_appendArgument]
      | none =>
        cases before with
        | none =>
          cases h
          simp [lexemes_complete, lexemesOfFrames, Frame.lexemes, Opening.lexemes, lexemesBefore]
        | some before => contradiction

/-- A step puts the lexeme after those that were read. -/
theorem lexemes_advance {r s : Reading} {l : Lexeme} (h : r.advance l = some s) :
    s.lexemes = r.lexemes ++ [l] := by
  obtain ⟨token, span⟩ := l
  cases r with
  | operand p minuses frames =>
    cases token with
    | number text =>
      cases h
      rw [lexemes_complete]
      simp [lexemes]
    | function f =>
      cases h
      simp [lexemes]
    | openBracket =>
      cases h
      rw [lexemes_opened]
      simp [lexemes, Frame.lexemes, Opening.lexemes]
    | operator op =>
      cases op with
      | sub =>
        cases h
        simp [lexemes, lexemesOfMinuses]
      | _ => contradiction
    | comma => contradiction
    | closeBracket =>
      simp only [advance] at h
      split at h
      · rename_i hempty
        simp only [Bool.and_eq_true, List.isEmpty_iff] at hempty
        obtain ⟨hp, rfl⟩ := hempty
        rw [lexemes_close h]
        simp [lexemes, Pending.lexemes_of_isEmpty hp, lexemesOfMinuses]
      · contradiction
  | arguments f name p minuses frames =>
    cases token with
    | openBracket =>
      cases h
      rw [lexemes_opened]
      simp [lexemes, Frame.lexemes, Opening.lexemes, lexemesBefore]
    | _ => contradiction
  | operator u p frames =>
    cases token with
    | operator op =>
      cases h
      simp [lexemes, lexemes_push, lexemesOfMinuses]
    | closeBracket =>
      rw [lexemes_close h]
      simp [lexemes, lexemes_closeSum]
    | comma =>
      cases frames with
      | nil => contradiction
      | cons frame frames =>
        obtain ⟨opening, outside, minuses⟩ := frame
        cases opening with
        | group opening => contradiction
        | call f name opening before =>
          cases h
          rw [lexemes_opened]
          simp [lexemes, lexemesOfFrames, Frame.lexemes, Opening.lexemes, lexemesBefore,
            lexemes_appendArgument, lexemes_closeSum]
    | _ => contradiction

theorem lexemes_run {r s : Reading} {lexemes : List Lexeme} (h : r.run lexemes = some s) :
    s.lexemes = r.lexemes ++ lexemes := by
  induction lexemes generalizing r with
  | nil =>
    cases h
    rw [List.append_nil]
  | cons l rest ih =>
    rw [run_cons] at h
    obtain ⟨t, ht, hs⟩ := Option.bind_eq_some_iff.mp h
    rw [ih hs, lexemes_advance ht, List.append_assoc, List.singleton_append]

theorem lexemes_finish? {r : Reading} {d : Derivation .sum} (h : r.finish? = some d) :
    d.lexemes = r.lexemes := by
  cases r with
  | operator u p frames =>
    cases frames with
    | nil =>
      cases h
      rw [lexemes_closeSum]
      rfl
    | cons frame frames => contradiction
  | operand p minuses frames => contradiction
  | arguments f name p minuses frames => contradiction

end Reading

/-! ## Reading a derivation -/

/-- Reading the lexemes of the derivation leaves it on the stack, not closed yet. -/
def Derivation.IsRead : {n : Nonterminal} → Derivation n → Prop
  | .primary, d => ∀ p minuses frames,
      Reading.run (.operand p minuses frames) d.lexemes = some (.complete d p minuses frames)
  | .unary, d => ∀ p minuses frames,
      Reading.run (.operand p minuses frames) d.lexemes =
        some (.operator (applyMinuses minuses d) p frames)
  | .power, d => ∀ p frames, ∃ u powers,
      Reading.run (.operand p [] frames) d.lexemes =
        some (.operator u { p with powers := powers ++ p.powers } frames) ∧
      closePowers powers u = d
  | .product, d => ∀ sum frames, ∃ u p,
      Reading.run (.operand { sum } [] frames) d.lexemes = some (.operator u p frames) ∧
      p.sum = sum ∧ p.closeProduct u = d
  | .sum, d => ∀ frames, ∃ u p,
      Reading.run (.operand {} [] frames) d.lexemes = some (.operator u p frames) ∧
      p.closeSum u = d

/-- Reading the arguments inside the bracket of a call leaves them in its frame. -/
def Arguments.IsRead (a : Arguments) : Prop :=
  ∀ f name opening outside minuses frames, ∃ before u p,
    Reading.run (.operand {} [] (⟨.call f name opening none, outside, minuses⟩ :: frames))
        a.lexemes =
      some (.operator u p (⟨.call f name opening before, outside, minuses⟩ :: frames)) ∧
    appendArgument before (p.closeSum u) = a

theorem closePowers_append (powers : List (Derivation .unary × Span)) (u left : Derivation .unary)
    (sign : Span) :
    closePowers (powers ++ [(left, sign)]) u = .raise left sign (closePowers powers u) := by
  simp only [closePowers, List.foldl_append, List.foldl_cons, List.foldl_nil]

mutual

theorem Derivation.isRead {n : Nonterminal} (d : Derivation n) : d.IsRead := by
  cases d with
  | number text span => exact fun p minuses frames => rfl
  | emptyCall f name opening closing => exact fun p minuses frames => rfl
  | group opening inner closing =>
    intro p minuses frames
    obtain ⟨u, q, hrun, hclose⟩ := inner.isRead (⟨.group opening, p, minuses⟩ :: frames)
    rw [Derivation.lexemes, List.cons_append, Reading.run_cons, Reading.advance, Option.bind_some,
      Reading.run_append, hrun, Option.bind_some, Reading.run_cons, Reading.advance, hclose]
    rfl
  | call f name opening arguments closing =>
    intro p minuses frames
    obtain ⟨before, u, q, hrun, hclose⟩ := arguments.isRead f name opening p minuses frames
    rw [Derivation.lexemes, List.cons_append, List.cons_append, Reading.run_cons, Reading.advance,
      Option.bind_some, Reading.run_cons, Reading.advance, Option.bind_some, Reading.run_append,
      hrun, Option.bind_some, Reading.run_cons, Reading.advance, Reading.close, hclose]
    rfl
  | unsigned operand =>
    intro p minuses frames
    exact operand.isRead p minuses frames
  | minus sign operand =>
    intro p minuses frames
    rw [Derivation.lexemes, Reading.run_cons, Reading.advance, Option.bind_some]
    exact operand.isRead p (sign :: minuses) frames
  | base operand =>
    intro p frames
    exact ⟨operand, [], operand.isRead p [] frames, rfl⟩
  | raise left sign right =>
    intro p frames
    obtain ⟨u, powers, hrun, hclose⟩ :=
      right.isRead { p with powers := (left, sign) :: p.powers } frames
    refine ⟨u, powers ++ [(left, sign)], ?_, by rw [closePowers_append, hclose]⟩
    rw [Derivation.lexemes, Reading.run_append, left.isRead p [] frames, Option.bind_some,
      Reading.run_cons, Reading.advance, Option.bind_some, List.append_assoc, List.singleton_append]
    exact hrun
  | factor operand =>
    intro sum frames
    obtain ⟨u, powers, hrun, hclose⟩ := operand.isRead { sum } frames
    rw [List.append_nil] at hrun
    exact ⟨u, { sum, powers }, hrun, rfl, by simp only [Pending.closeProduct, hclose]⟩
  | multiply left op h sign right =>
    intro sum frames
    obtain ⟨u, p, hleft, hsum, hclose⟩ := left.isRead sum frames
    obtain ⟨v, powers, hright, hpower⟩ :=
      right.isRead { sum, product := some ⟨left, op, h, sign⟩ } frames
    have hpush : p.push u sign op = { sum, product := some ⟨left, op, h, sign⟩ } := by
      simp only [Operator.multiplicative, List.mem_cons, List.not_mem_nil, or_false] at h
      rcases h with rfl | rfl | rfl <;> simp only [Pending.push, hsum, hclose]
    rw [List.append_nil] at hright
    refine ⟨v, { sum, product := some ⟨left, op, h, sign⟩, powers }, ?_, rfl,
      by simp only [Pending.closeProduct, hpower]⟩
    rw [Derivation.lexemes, Reading.run_append, hleft, Option.bind_some, Reading.run_cons,
      Reading.advance, Option.bind_some, hpush]
    exact hright
  | term operand =>
    intro frames
    obtain ⟨u, p, hrun, hsum, hclose⟩ := operand.isRead none frames
    exact ⟨u, p, hrun, by simp only [Pending.closeSum, hsum, hclose]⟩
  | add left op h sign right =>
    intro frames
    obtain ⟨u, p, hleft, hclose⟩ := left.isRead frames
    obtain ⟨v, q, hright, hsum, hproduct⟩ := right.isRead (some ⟨left, op, h, sign⟩) frames
    have hpush : p.push u sign op = { sum := some ⟨left, op, h, sign⟩ } := by
      simp only [Operator.additive, List.mem_cons, List.not_mem_nil, or_false] at h
      rcases h with rfl | rfl <;> simp only [Pending.push, hclose]
    refine ⟨v, q, ?_, by simp only [Pending.closeSum, hsum, hproduct]⟩
    rw [Derivation.lexemes, Reading.run_append, hleft, Option.bind_some, Reading.run_cons,
      Reading.advance, Option.bind_some, hpush]
    exact hright

theorem Arguments.isRead (a : Arguments) : a.IsRead := by
  cases a with
  | one argument =>
    intro f name opening outside minuses frames
    obtain ⟨u, p, hrun, hclose⟩ :=
      argument.isRead (⟨.call f name opening none, outside, minuses⟩ :: frames)
    exact ⟨none, u, p, hrun, congrArg Arguments.one hclose⟩
  | more before comma argument =>
    intro f name opening outside minuses frames
    obtain ⟨first, u, p, hbefore, hfirst⟩ := before.isRead f name opening outside minuses frames
    obtain ⟨v, q, hrun, hclose⟩ := argument.isRead
      (⟨.call f name opening (some (before, comma)), outside, minuses⟩ :: frames)
    refine ⟨some (before, comma), v, q, ?_, congrArg (Arguments.more before comma) hclose⟩
    rw [Arguments.lexemes, Reading.run_append, hbefore, Option.bind_some, Reading.run_cons,
      Reading.advance, hfirst, Option.bind_some]
    exact hrun

end

end Grammar
end Abacus
