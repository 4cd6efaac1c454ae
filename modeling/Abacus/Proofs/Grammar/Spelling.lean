import Abacus.Proofs.CallNames
import Abacus.Proofs.Grammar.Acceptance
import Abacus.Proofs.Lexing
/-!
The texts of derivable token sequences, however their function names are spelled.

Such a text is balanced, and the normal form writes all its names in small letters, whatever stands
after it.
-/

namespace Abacus

namespace Token

theorem mem_of_isNumberPart {c : Char} (h : isNumberPart c = true) : c ∈ "0123456789.".toList := by
  simp only [isNumberPart, Bool.or_eq_true, beq_iff_eq] at h
  rcases h with h | rfl
  · have hall : ∀ n < 10, Char.ofNat (48 + n) ∈ "0123456789.".toList := by decide
    simp only [Char.isDigit, Bool.and_eq_true, decide_eq_true_eq] at h
    have hlow : 48 ≤ c.toNat := h.1
    have hhigh : c.toNat ≤ 57 := h.2
    have := hall (c.toNat - 48) (by omega)
    rwa [show 48 + (c.toNat - 48) = c.toNat by omega, Char.ofNat_toNat] at this
  · decide

/-- The characters of the tokens that are no names. -/
def symbols : List Char :=
  "0123456789.+-*/%^(),".toList

theorem mem_symbols_of_mem_text {t : Token} (ht : t.IsWritten) (hf : ∀ f, t ≠ function f) :
    ∀ c ∈ t.text, c ∈ symbols := by
  intro c hc
  cases t with
  | number text =>
    have hall : ∀ c ∈ "0123456789.".toList, c ∈ symbols := forall_mem_of_all (by decide)
    exact hall c (mem_of_isNumberPart (ht.2.1 c hc))
  | function f => exact absurd rfl (hf f)
  | operator op =>
    rw [text, List.mem_singleton] at hc
    subst hc
    cases op <;> decide
  | openBracket | closeBracket | comma =>
    rw [text, List.mem_singleton] at hc
    subst hc
    decide

/-- Only a function's name has letters. -/
theorem isWordStart_of_mem_text {t : Token} (ht : t.IsWritten) (hf : ∀ f, t ≠ function f) :
    ∀ c ∈ t.text, isWordStart c = false := by
  have hall : ∀ c ∈ symbols, isWordStart c = false := forall_mem_of_all (by decide)
  exact fun c hc => hall c (mem_symbols_of_mem_text ht hf c hc)

theorem isBlank_of_mem_text {t : Token} (ht : t.IsWritten) : ∀ c ∈ t.text, isBlank c = false := by
  by_cases hf : ∃ f, t = function f
  · obtain ⟨f, rfl⟩ := hf
    cases f <;> exact forall_mem_of_all (by decide)
  · have hall : ∀ c ∈ symbols, isBlank c = false := forall_mem_of_all (by decide)
    exact fun c hc => hall c (mem_symbols_of_mem_text ht (fun f h => hf ⟨f, h⟩) c hc)

theorem isAlpha_eq_false {c : Char} (h : isWordStart c = false) : c.isAlpha = false := by
  rw [isWordStart, Bool.or_eq_false_iff] at h
  exact h.1

/-- A token other than a bracket has no bracket in its text. -/
theorem isBalanced_text {t : Token} (ht : t.IsWritten) (ho : t ≠ openBracket)
    (hc : t ≠ closeBracket) : isBalanced t.text = true := by
  cases t with
  | number text =>
    have hall : ∀ c ∈ "0123456789.".toList, c ≠ '(' ∧ c ≠ ')' :=
      forall_mem_of_all (by decide)
    exact isBalanced_of_forall fun c hc => hall c (mem_of_isNumberPart (ht.2.1 c hc))
  | function f => cases f <;> decide
  | operator op => cases op <;> decide
  | openBracket => exact absurd rfl ho
  | closeBracket => exact absurd rfl hc
  | comma => decide

end Token

namespace Grammar

/-- The texts of the tokens, with nothing between them. -/
def joinedText (lexemes : List Lexeme) : List Char :=
  lexemes.flatMap fun l => l.token.text

@[simp] theorem joinedText_cons (l : Lexeme) (lexemes : List Lexeme) :
    joinedText (l :: lexemes) = l.token.text ++ joinedText lexemes := rfl

@[simp] theorem joinedText_nil : joinedText [] = [] := rfl

@[simp] theorem joinedText_append (a b : List Lexeme) :
    joinedText (a ++ b) = joinedText a ++ joinedText b :=
  List.flatMap_append

/-- A text without gaps is the text of its tokens. -/
theorem eq_joinedText_of_lexFrom {offset : Nat} {text : List Char} {lexemes : List Lexeme}
    (h : Token.lexFrom offset text = .ok lexemes) (hgap : ∀ c ∈ text, Token.isGap c = false) :
    text = joinedText lexemes ∧ ∀ l ∈ lexemes, l.token.IsWritten := by
  have hnone : ∀ gaps : List Char, (∀ c ∈ gaps, Token.isGap c = true) →
      (∀ c ∈ gaps, Token.isGap c = false) → gaps = [] := by
    intro gaps htrue hfalse
    refine List.eq_nil_iff_forall_not_mem.mpr fun c hc => ?_
    have := htrue c hc
    rw [hfalse c hc] at this
    contradiction
  refine ⟨?_, Token.isWritten_of_lexFrom h⟩
  induction lexemes generalizing offset text with
  | nil => exact hnone text (Token.lexFrom_eq_nil h) hgap
  | cons l rest ih =>
    obtain ⟨gaps, after, rfl, hgaps, _, _, _, hrest⟩ := Token.lexFrom_eq_cons h
    obtain rfl := hnone gaps hgaps fun c hc => hgap c (List.mem_append_left _ hc)
    rw [List.nil_append, joinedText_cons, ← ih hrest fun c hc =>
      hgap c (List.mem_append_right _ (List.mem_append_right _ hc))]

/-! ## Brackets -/

mutual

theorem Derivation.isBalanced_joinedText {k : Nonterminal} (d : Derivation k)
    (h : ∀ l ∈ d.lexemes, l.token.IsWritten) : isBalanced (joinedText d.lexemes) = true := by
  cases d with
  | number text span =>
    simp only [Derivation.lexemes, List.forall_mem_cons] at h
    rw [Derivation.lexemes, joinedText_cons, joinedText_nil, List.append_nil]
    exact Token.isBalanced_text h.1 (by simp) (by simp)
  | group opening inner closing =>
    simp only [Derivation.lexemes, List.cons_append, List.forall_mem_cons,
      List.forall_mem_append] at h
    rw [Derivation.lexemes, List.cons_append, joinedText_cons, joinedText_append]
    exact isBalanced_brackets (inner.isBalanced_joinedText h.2.1)
  | emptyCall f name opening closing =>
    show isBalanced (f.name ++ ['(', ')']) = true
    cases f <;> decide
  | call f name opening arguments closing =>
    simp only [Derivation.lexemes, List.cons_append, List.forall_mem_cons,
      List.forall_mem_append] at h
    simp only [Derivation.lexemes, List.cons_append, joinedText_cons, joinedText_append]
    exact isBalanced_append (Token.isBalanced_text h.1 (by simp) (by simp))
      (isBalanced_brackets (arguments.isBalanced_joinedText h.2.2.1))
  | unsigned operand | base operand | factor operand | term operand =>
    rw [Derivation.lexemes] at h ⊢
    exact operand.isBalanced_joinedText h
  | minus sign operand =>
    simp only [Derivation.lexemes, List.forall_mem_cons] at h
    rw [Derivation.lexemes, joinedText_cons]
    exact isBalanced_append (Token.isBalanced_text h.1 (by simp) (by simp))
      (operand.isBalanced_joinedText h.2)
  | raise left sign right | multiply left op hop sign right | add left op hop sign right =>
    simp only [Derivation.lexemes, List.forall_mem_append, List.forall_mem_cons] at h
    rw [Derivation.lexemes, joinedText_append, joinedText_cons]
    exact isBalanced_append (left.isBalanced_joinedText h.1)
      (isBalanced_append (Token.isBalanced_text h.2.1 (by simp) (by simp))
        (right.isBalanced_joinedText h.2.2))

theorem Arguments.isBalanced_joinedText (arguments : Arguments)
    (h : ∀ l ∈ arguments.lexemes, l.token.IsWritten) :
    isBalanced (joinedText arguments.lexemes) = true := by
  cases arguments with
  | one d =>
    rw [Arguments.lexemes] at h ⊢
    exact d.isBalanced_joinedText h
  | more before comma d =>
    simp only [Arguments.lexemes, List.forall_mem_append, List.forall_mem_cons] at h
    rw [Arguments.lexemes, joinedText_append, joinedText_cons]
    exact isBalanced_append (before.isBalanced_joinedText h.1)
      (isBalanced_append (Token.isBalanced_text h.2.1 (by simp) (by simp))
        (d.isBalanced_joinedText h.2.2))

end

/-- The gaps of a text have no brackets. -/
theorem closesFrom_of_lexFrom {offset : Nat} {text : List Char} {lexemes : List Lexeme}
    (h : Token.lexFrom offset text = .ok lexemes) (depth : Nat) :
    closesFrom depth text = closesFrom depth (joinedText lexemes) := by
  have hgap : ∀ gaps : List Char, (∀ c ∈ gaps, Token.isGap c = true) → isBalanced gaps = true := by
    intro gaps hgaps
    have hall : ∀ c ∈ " \t\r\n\x0c".toList, c ≠ '(' ∧ c ≠ ')' := forall_mem_of_all (by decide)
    exact isBalanced_of_forall fun c hc => hall c (Token.mem_of_isGap (hgaps c hc))
  induction lexemes generalizing offset text depth with
  | nil =>
    have := closesFrom_append (hgap text (Token.lexFrom_eq_nil h)) depth []
    rwa [Nat.zero_add, List.append_nil] at this
  | cons l rest ih =>
    obtain ⟨gaps, after, rfl, hgaps, _, _, _, hrest⟩ := Token.lexFrom_eq_cons h
    have := closesFrom_append (hgap gaps hgaps) depth (l.token.text ++ after)
    rw [Nat.zero_add] at this
    rw [this, joinedText_cons]
    exact closesFrom_append_congr (fun depth => ih hrest depth) l.token.text depth

theorem closesFrom_eq_of_sameLetters {a b : List Char} (h : sameLetters a b = true) (depth : Nat) :
    closesFrom depth a = closesFrom depth b := by
  induction b generalizing a depth with
  | nil => rw [eq_of_sameLetters h (by simp)]
  | cons c b ih =>
    obtain ⟨d, s, rfl, hd, hs⟩ := exists_of_sameLetters_cons h
    by_cases hc : c.isAlpha = false
    · rw [eq_of_toLower_eq hd hc, closesFrom_cons, closesFrom_cons, ih hs]
    · -- Neither of the two letters is a bracket.
      have hnot : ∀ x : Char, x.isAlpha = false → c ≠ x ∧ d ≠ x := by
        intro x hx
        refine ⟨fun he => hc (he ▸ hx), fun he => hc ?_⟩
        subst he
        rwa [eq_of_toLower_eq hd.symm hx]
      have hopen := hnot '(' (by decide)
      have hclose := hnot ')' (by decide)
      rw [closesFrom_cons, closesFrom_cons, if_neg fun hstray => hclose.2 hstray.1,
        if_neg fun hstray => hclose.1 hstray.1, CallNames.depthAfter, CallNames.depthAfter,
        if_neg hopen.1, if_neg hopen.2, if_neg hclose.1, if_neg hclose.2, ih hs]

/-! ## Names in capitals -/

/-- The normal form of a text that begins with `spelled` begins with `text`. -/
def IsSpelling (spelled text : List Char) : Prop :=
  ∀ rest, CallNames.lowerNames (spelled ++ rest) = text ++ CallNames.lowerNames rest

theorem IsSpelling.append {a b s t : List Char} (ha : IsSpelling s a) (hb : IsSpelling t b) :
    IsSpelling (s ++ t) (a ++ b) := by
  intro rest
  rw [List.append_assoc, ha, hb, List.append_assoc]

theorem isSpelling_text {t : Token} {s : List Char} (ht : t.IsWritten) (hf : ∀ f, t ≠ .function f)
    (hs : sameLetters s t.text = true) : IsSpelling s t.text := by
  have hplain := Token.isWordStart_of_mem_text ht hf
  obtain rfl := eq_of_sameLetters hs fun c hc => Token.isAlpha_eq_false (hplain c hc)
  exact CallNames.lowerNames_append_of_forall hplain

/-- A name before a bracket that is closed is written in small letters. -/
theorem isSpelling_call {f : Function} {name inner innerText : List Char}
    (hname : sameLetters name f.name = true) (hbalanced : isBalanced inner = true)
    (hinner : IsSpelling inner innerText) :
    IsSpelling (name ++ ('(' :: (inner ++ [')']))) (f.name ++ ('(' :: (innerText ++ [')']))) := by
  intro rest
  obtain ⟨first, others, hcons, hstart, _, _⟩ := Token.name_eq_cons f
  have hpart := Token.wordPart_of_mem_name f
  rw [hcons] at hname hpart
  obtain ⟨c, word, rfl, hc, hword⟩ := exists_of_sameLetters_cons hname
  rw [← isWordStart_eq_of_toLower_eq hc] at hstart
  have hall : ∀ d ∈ word, isWordPart d = true := by
    have := all_eq_of_sameLetters (fun _ _ => isWordPart_eq_of_toLower_eq) hword
    rw [List.all_eq_true.mpr fun d hd => hpart d (List.mem_cons_of_mem first hd)] at this
    exact List.all_eq_true.mp this
  have hafter : ∀ d ∈ ('(' :: (inner ++ ')' :: rest)).head?, isWordPart d = false := by
    rintro d hd
    cases hd
    decide
  have hspelling : CallNames.spelling (c :: word) ('(' :: (inner ++ ')' :: rest)) = f.name := by
    rw [← hcons] at hname
    rw [CallNames.spelling, CallNames.ofNameAnyCase?_eq_some_iff.mpr hname,
      if_pos (CallNames.opensCall_eq_true_iff.mpr ⟨_, _, rfl, hbalanced⟩)]
    rfl
  have := CallNames.lowerNames_word hstart hall hafter
  rw [hspelling, CallNames.lowerNames_cons_of_not (by decide), hinner,
    CallNames.lowerNames_cons_of_not (by decide)] at this
  simpa only [List.append_assoc, List.cons_append, List.nil_append] using this

mutual

/-- In any spelling, the text of a derivation is brought to the spelling of its tokens. -/
theorem Derivation.isSpelling {k : Nonterminal} (d : Derivation k)
    (h : ∀ l ∈ d.lexemes, l.token.IsWritten) {s : List Char}
    (hs : sameLetters s (joinedText d.lexemes) = true) : IsSpelling s (joinedText d.lexemes) := by
  cases d with
  | number text span =>
    simp only [Derivation.lexemes, List.forall_mem_cons] at h
    simp only [Derivation.lexemes, joinedText_cons, joinedText_nil, List.append_nil] at hs ⊢
    exact isSpelling_text h.1 (by simp) hs
  | group opening inner closing =>
    simp only [Derivation.lexemes, List.cons_append, List.forall_mem_cons,
      List.forall_mem_append] at h
    simp only [Derivation.lexemes, List.cons_append, joinedText_cons, joinedText_append,
      joinedText_nil, List.append_nil] at hs ⊢
    obtain ⟨s₁, s, rfl, hs₁, hs⟩ := exists_of_sameLetters_append hs
    obtain ⟨s₂, s₃, rfl, hs₂, hs₃⟩ := exists_of_sameLetters_append hs
    exact (isSpelling_text h.1 (by simp) hs₁).append
      ((inner.isSpelling h.2.1 hs₂).append (isSpelling_text h.2.2.1 (by simp) hs₃))
  | emptyCall f name opening closing =>
    obtain ⟨s₁, s, rfl, hs₁, hs⟩ := exists_of_sameLetters_append hs
    obtain rfl : s = ['(', ')'] := eq_of_sameLetters hs (forall_mem_of_all (by decide))
    have hnothing : IsSpelling [] [] := fun rest => rfl
    exact isSpelling_call hs₁ rfl hnothing
  | call f name opening arguments closing =>
    simp only [Derivation.lexemes, List.cons_append, List.forall_mem_cons,
      List.forall_mem_append] at h
    simp only [Derivation.lexemes, List.cons_append, joinedText_cons, joinedText_append,
      joinedText_nil, List.append_nil] at hs ⊢
    obtain ⟨s₁, s, rfl, hs₁, hs⟩ := exists_of_sameLetters_append hs
    obtain ⟨s₂, s, rfl, hs₂, hs⟩ := exists_of_sameLetters_append hs
    obtain ⟨s₃, s₄, rfl, hs₃, hs₄⟩ := exists_of_sameLetters_append hs
    obtain rfl : s₂ = ['('] := eq_of_sameLetters hs₂ (forall_mem_of_all (by decide))
    obtain rfl : s₄ = [')'] := eq_of_sameLetters hs₄ (forall_mem_of_all (by decide))
    have hbalanced := (closesFrom_eq_of_sameLetters hs₃ 0).trans
      (arguments.isBalanced_joinedText h.2.2.1)
    exact isSpelling_call hs₁ hbalanced (arguments.isSpelling h.2.2.1 hs₃)
  | unsigned operand | base operand | factor operand | term operand =>
    rw [Derivation.lexemes] at h hs ⊢
    exact operand.isSpelling h hs
  | minus sign operand =>
    simp only [Derivation.lexemes, List.forall_mem_cons] at h
    rw [Derivation.lexemes, joinedText_cons] at hs ⊢
    obtain ⟨s₁, s₂, rfl, hs₁, hs₂⟩ := exists_of_sameLetters_append hs
    exact (isSpelling_text h.1 (by simp) hs₁).append (operand.isSpelling h.2 hs₂)
  | raise left sign right | multiply left op hop sign right | add left op hop sign right =>
    simp only [Derivation.lexemes, List.forall_mem_append, List.forall_mem_cons] at h
    rw [Derivation.lexemes, joinedText_append, joinedText_cons] at hs ⊢
    obtain ⟨s₁, s, rfl, hs₁, hs⟩ := exists_of_sameLetters_append hs
    obtain ⟨s₂, s₃, rfl, hs₂, hs₃⟩ := exists_of_sameLetters_append hs
    exact (left.isSpelling h.1 hs₁).append
      ((isSpelling_text h.2.1 (by simp) hs₂).append (right.isSpelling h.2.2 hs₃))

theorem Arguments.isSpelling (arguments : Arguments)
    (h : ∀ l ∈ arguments.lexemes, l.token.IsWritten) {s : List Char}
    (hs : sameLetters s (joinedText arguments.lexemes) = true) :
    IsSpelling s (joinedText arguments.lexemes) := by
  cases arguments with
  | one d =>
    rw [Arguments.lexemes] at h hs ⊢
    exact d.isSpelling h hs
  | more before comma d =>
    simp only [Arguments.lexemes, List.forall_mem_append, List.forall_mem_cons] at h
    rw [Arguments.lexemes, joinedText_append, joinedText_cons] at hs ⊢
    obtain ⟨s₁, s, rfl, hs₁, hs⟩ := exists_of_sameLetters_append hs
    obtain ⟨s₂, s₃, rfl, hs₂, hs₃⟩ := exists_of_sameLetters_append hs
    exact (before.isSpelling h.1 hs₁).append
      ((isSpelling_text h.2.1 (by simp) hs₂).append (d.isSpelling h.2.2 hs₃))

end

end Grammar
end Abacus
