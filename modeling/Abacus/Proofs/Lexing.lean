import Abacus.Proofs.Letters
import Abacus.Token.Lexer
/-!
What the lexer returns, without how it looks for it.

A text with tokens is gaps and token texts in turn, each text followed by nothing that would
lengthen it. `lexFrom_text` and `lexFrom_eq_cons` say this in the two directions; everything else
about a lexed text is an induction on its tokens that uses only these two.
-/

namespace Abacus
namespace Token

/-- Whether the token can come from a text: a number has the form that a number must have. -/
def IsWritten : Token → Prop
  | number text => text ≠ [] ∧ (∀ c ∈ text, isNumberPart c = true) ∧ isNumber text = true
  | function _ | operator _ | openBracket | closeBracket | comma => True

/-- Whether the character would be read as part of the token before it. -/
def absorbs : Token → Char → Bool
  | number _, c => isNumberPart c
  | function _, c => isWordPart c
  | operator _, _ | openBracket, _ | closeBracket, _ | comma, _ => false

/-- The text does not start with a character that the token would absorb. -/
def EndsBefore (t : Token) (after : List Char) : Prop :=
  ∀ c ∈ after.head?, t.absorbs c = false

theorem endsBefore_nil (t : Token) : t.EndsBefore [] := by
  intro c hc
  simp at hc

theorem wordPart_of_mem_name (f : Function) : ∀ c ∈ f.name, isWordPart c = true := by
  cases f <;> exact forall_mem_of_all (by decide)

/-- A function's name starts with a letter, which starts no number and no gap. -/
theorem name_eq_cons (f : Function) : ∃ c rest, f.name = c :: rest ∧ isWordStart c = true ∧
    isNumberPart c = false ∧ isGap c = false := by
  cases f <;> exact ⟨_, _, rfl, by decide, by decide, by decide⟩

/-- A symbol is a single character that starts no longer token. -/
theorem text_eq_singleton {t : Token} (hn : ∀ text, t ≠ number text) (hf : ∀ f, t ≠ function f) :
    ∃ c, t.text = [c] ∧ ofSymbol? c = some t ∧ isNumberPart c = false ∧ isWordStart c = false ∧
      isGap c = false := by
  cases t with
  | number text => exact absurd rfl (hn text)
  | function f => exact absurd rfl (hf f)
  | operator op => cases op <;> exact ⟨_, rfl, by decide, by decide, by decide, by decide⟩
  | openBracket | closeBracket | comma =>
    exact ⟨_, rfl, by decide, by decide, by decide, by decide⟩

theorem text_of_ofSymbol? {c : Char} {t : Token} (h : ofSymbol? c = some t) :
    t.text = [c] ∧ t.IsWritten ∧ ∀ after, t.EndsBefore after := by
  unfold ofSymbol? at h
  split at h
  · rename_i hc
    cases h
    exact ⟨by rw [hc]; rfl, trivial, fun _ _ _ => rfl⟩
  · split at h
    · rename_i hc
      cases h
      exact ⟨by rw [hc]; rfl, trivial, fun _ _ _ => rfl⟩
    · split at h
      · rename_i hc
        cases h
        exact ⟨by rw [hc]; rfl, trivial, fun _ _ _ => rfl⟩
      · obtain ⟨op, hop, rfl⟩ := Option.map_eq_some_iff.mp h
        rw [Operator.ofSymbol?_eq_some_iff.mp hop]
        exact ⟨rfl, trivial, fun _ _ _ => rfl⟩

/-! ## The first piece -/

theorem isGap_of_isNumberPart {c : Char} (h : isNumberPart c = true) : isGap c = false := by
  simp only [isNumberPart, Bool.or_eq_true, beq_iff_eq] at h
  rcases h with h | rfl
  · simp only [isGap, Bool.or_eq_false_iff, beq_eq_false_iff_ne]
    refine ⟨⟨⟨⟨?_, ?_⟩, ?_⟩, ?_⟩, ?_⟩ <;> rintro rfl <;> revert h <;> decide
  · decide

theorem mem_of_isGap {c : Char} (h : isGap c = true) : c ∈ " \t\r\n\x0c".toList := by
  simpa [isGap, or_assoc] using h

theorem isBlank_of_isGap {c : Char} (h : isGap c = true) : isBlank c = true := by
  have hall : ∀ c ∈ " \t\r\n\x0c".toList, isBlank c = true := forall_mem_of_all (by decide)
  exact hall c (mem_of_isGap h)

theorem isGap_eq_false {c : Char} (h : isBlank c = false) : isGap c = false := by
  refine Bool.eq_false_iff.mpr fun hgap => ?_
  rw [isBlank_of_isGap hgap] at h
  contradiction

/-- The first piece of the token's text is the token. -/
theorem firstPiece_text {t : Token} {after : List Char} (ht : t.IsWritten)
    (ha : t.EndsBefore after) :
    ∃ c rest, t.text ++ after = c :: rest ∧ isGap c = false ∧
      firstPiece c rest = ⟨t.text, .ok t, after⟩ := by
  by_cases hn : ∃ text, t = number text
  · obtain ⟨text, rfl⟩ := hn
    obtain ⟨hne, hall, hnum⟩ := ht
    cases text with
    | nil => exact absurd rfl hne
    | cons c tail =>
      have hc := hall c List.mem_cons_self
      obtain ⟨htake, hdrop⟩ := takeWhile_run (p := isNumberPart)
        (fun d hd => hall d (List.mem_cons_of_mem c hd)) ha
      refine ⟨c, tail ++ after, rfl, isGap_of_isNumberPart hc, ?_⟩
      simp only [firstPiece, if_pos hc]
      rw [htake, hdrop, if_pos hnum]
      rfl
  · by_cases hf : ∃ f, t = function f
    · obtain ⟨f, rfl⟩ := hf
      obtain ⟨c, tail, hname, hstart, hnotNumber, hgap⟩ := name_eq_cons f
      have hall := wordPart_of_mem_name f
      rw [hname] at hall
      obtain ⟨htake, hdrop⟩ := takeWhile_run (p := isWordPart)
        (fun d hd => hall d (List.mem_cons_of_mem c hd)) ha
      refine ⟨c, tail ++ after, by rw [text, hname]; rfl, hgap, ?_⟩
      simp only [firstPiece, if_neg (Bool.eq_false_iff.mp hnotNumber), if_pos hstart]
      rw [htake, hdrop, ← hname, Function.ofName?_name]
      rfl
    · obtain ⟨c, hc, hsymbol, hnotNumber, hnotWord, hgap⟩ :=
        text_eq_singleton (fun text h => hn ⟨text, h⟩) (fun f h => hf ⟨f, h⟩)
      refine ⟨c, after, by rw [hc]; rfl, hgap, ?_⟩
      simp only [firstPiece, if_neg (Bool.eq_false_iff.mp hnotNumber),
        if_neg (Bool.eq_false_iff.mp hnotWord), hsymbol, hc]

/-- A first piece that is a token is the token's text, and the token absorbs nothing after it. -/
theorem text_of_firstPiece {c : Char} {rest : List Char} {t : Token}
    (h : (firstPiece c rest).meaning = .ok t) :
    (firstPiece c rest).text = t.text ∧ t.IsWritten ∧ t.EndsBefore (firstPiece c rest).after := by
  have htake : ∀ p : Char → Bool, ∀ d ∈ rest.takeWhile p, p d = true :=
    fun p d hd => List.all_eq_true.mp List.all_takeWhile d hd
  unfold firstPiece at h ⊢
  split at h
  · rename_i hc
    rw [if_pos hc]
    dsimp only at h ⊢
    split at h
    · rename_i hnum
      cases h
      refine ⟨rfl, ⟨List.cons_ne_nil _ _, ?_, hnum⟩, eq_false_of_mem_head?_dropWhile⟩
      intro d hd
      rcases List.mem_cons.mp hd with rfl | hd
      · exact hc
      · exact htake isNumberPart d hd
    · contradiction
  · rename_i hc
    rw [if_neg hc]
    split at h
    · rename_i hstart
      rw [if_pos hstart]
      dsimp only at h ⊢
      split at h
      · rename_i f hf
        cases h
        exact ⟨Function.ofName?_eq_some_iff.mp hf, trivial, eq_false_of_mem_head?_dropWhile⟩
      · contradiction
    · rename_i hstart
      rw [if_neg hstart]
      dsimp only at h ⊢
      split at h
      · rename_i token htoken
        cases h
        obtain ⟨htext, hwritten, hends⟩ := text_of_ofSymbol? htoken
        exact ⟨htext.symm, hwritten, hends rest⟩
      · contradiction

/-! ## The whole text -/

theorem lexFrom_gaps {gaps : List Char} (h : ∀ c ∈ gaps, isGap c = true) (offset : Nat)
    (rest : List Char) :
    lexFrom offset (gaps ++ rest) = lexFrom (offset + byteLength gaps) rest := by
  induction gaps generalizing offset with
  | nil => simp
  | cons c gaps ih =>
    rw [List.cons_append, lexFrom, if_pos (h c List.mem_cons_self),
      ih (fun d hd => h d (List.mem_cons_of_mem c hd)), byteLength_cons, Nat.add_assoc]

/-- The text of a token at the front is read as that token. -/
theorem lexFrom_text {t : Token} {after : List Char} (ht : t.IsWritten) (ha : t.EndsBefore after)
    (offset : Nat) :
    lexFrom offset (t.text ++ after) =
      (lexFrom (offset + byteLength t.text) after).map
        (⟨t, ⟨offset, offset + byteLength t.text⟩⟩ :: ·) := by
  obtain ⟨c, rest, heq, hgap, hpiece⟩ := firstPiece_text ht ha
  rw [heq, lexFrom, if_neg (Bool.eq_false_iff.mp hgap)]
  simp only [hpiece]

/-- A token is told by its text. -/
theorem eq_of_text {s t : Token} (hs : s.IsWritten) (ht : t.IsWritten) (h : s.text = t.text) :
    s = t := by
  have hread := lexFrom_text hs (endsBefore_nil s) 0
  rw [h, lexFrom_text ht (endsBefore_nil t) 0, lexFrom] at hread
  cases hread
  rfl

/-- The text of a list of tokens starts with gaps and the text of the first token. -/
theorem lexFrom_eq_cons {offset : Nat} {text : List Char} {l : Lexeme} {rest : List Lexeme}
    (h : lexFrom offset text = .ok (l :: rest)) :
    ∃ gaps after, text = gaps ++ (l.token.text ++ after) ∧ (∀ c ∈ gaps, isGap c = true) ∧
      l.token.IsWritten ∧ l.token.EndsBefore after ∧
      l.span = ⟨offset + byteLength gaps, offset + byteLength gaps + byteLength l.token.text⟩ ∧
      lexFrom l.span.stop after = .ok rest := by
  fun_induction lexFrom offset text with
  | case1 => cases h
  | case2 offset c text hc ih =>
    obtain ⟨gaps, after, rfl, hgaps, ht, ha, hspan, hrest⟩ := ih h
    refine ⟨c :: gaps, after, rfl, ?_, ht, ha, ?_, hrest⟩
    · intro d hd
      rcases List.mem_cons.mp hd with rfl | hd
      · exact hc
      · exact hgaps d hd
    · rw [hspan, byteLength_cons, Nat.add_assoc]
  | case3 => cases h
  | case4 offset c text hc piece span token hmeaning ih =>
    obtain ⟨htext, ht, ha⟩ := text_of_firstPiece hmeaning
    cases hafter : lexFrom span.stop piece.after with
    | error e =>
      rw [hafter] at h
      cases h
    | ok lexemes =>
      rw [hafter] at h
      cases h
      refine ⟨[], piece.after, ?_, by simp, ht, ha, ?_, hafter⟩
      · rw [List.nil_append, ← htext]
        exact (text_append_after c text).symm
      · rw [← htext]
        rfl

theorem isWritten_of_lexFrom {offset : Nat} {text : List Char} {lexemes : List Lexeme}
    (h : lexFrom offset text = .ok lexemes) : ∀ l ∈ lexemes, l.token.IsWritten := by
  induction lexemes generalizing offset text with
  | nil => simp
  | cons l rest ih =>
    obtain ⟨_, _, _, _, ht, _, _, hrest⟩ := lexFrom_eq_cons h
    exact List.forall_mem_cons.mpr ⟨ht, ih hrest⟩

theorem lexFrom_eq_nil {offset : Nat} {text : List Char} (h : lexFrom offset text = .ok []) :
    ∀ c ∈ text, isGap c = true := by
  fun_induction lexFrom offset text with
  | case1 => simp
  | case2 offset c text hc ih =>
    intro d hd
    rcases List.mem_cons.mp hd with rfl | hd
    · exact hc
    · exact ih h d hd
  | case3 => cases h
  | case4 offset c text hc piece span token hmeaning ih =>
    cases hafter : lexFrom span.stop piece.after <;> rw [hafter] at h <;> cases h

theorem ne_nil_of_lexFrom {offset : Nat} {text : List Char} {lexemes : List Lexeme}
    (h : lexFrom offset text = .ok lexemes) (hne : lexemes ≠ []) : text ≠ [] := by
  rintro rfl
  rw [lexFrom] at h
  exact hne (Except.ok.inj h).symm

/-! ## Positions -/

theorem byteLength_text_pos {t : Token} (h : t.IsWritten) : 0 < byteLength t.text := by
  obtain ⟨c, rest, heq, _, hpiece⟩ := firstPiece_text h (endsBefore_nil t)
  rw [List.append_nil] at heq
  rw [heq, byteLength_cons]
  exact Nat.add_pos_left c.utf8Size_pos _

/-- The spans are not empty and follow each other between the two positions. -/
def Between (stop : Nat) : Nat → List Lexeme → Prop
  | start, [] => start ≤ stop
  | start, l :: rest =>
      start ≤ l.span.start ∧ l.span.start < l.span.stop ∧ Between stop l.span.stop rest

theorem between_of_lexFrom {offset : Nat} {text : List Char} {lexemes : List Lexeme}
    (h : lexFrom offset text = .ok lexemes) :
    Between (offset + byteLength text) offset lexemes := by
  induction lexemes generalizing offset text with
  | nil => exact Nat.le_add_right offset _
  | cons l rest ih =>
    obtain ⟨gaps, after, rfl, _, ht, _, hspan, hrest⟩ := lexFrom_eq_cons h
    have hpos := byteLength_text_pos ht
    have hbetween := ih hrest
    rw [Between]
    have hstop : offset + byteLength (gaps ++ (l.token.text ++ after)) =
        l.span.stop + byteLength after := by
      rw [hspan, byteLength_append, byteLength_append]
      dsimp only
      omega
    rw [hstop]
    refine ⟨?_, ?_, hbetween⟩
    · rw [hspan]
      exact Nat.le_add_right offset _
    · rw [hspan]
      dsimp only
      omega

theorem Between.start_le_stop {stop start : Nat} {lexemes : List Lexeme}
    (h : Between stop start lexemes) : start ≤ stop := by
  induction lexemes generalizing start with
  | nil => exact h
  | cons l rest ih =>
    obtain ⟨h1, h2, h3⟩ := h
    have := ih h3
    omega

theorem Between.append {stop start : Nat} {a b : List Lexeme} (h : Between stop start (a ++ b)) :
    ∃ middle, Between middle start a ∧ Between stop middle b := by
  induction a generalizing start with
  | nil => exact ⟨start, Nat.le_refl start, h⟩
  | cons l rest ih =>
    obtain ⟨h1, h2, h3⟩ := h
    obtain ⟨middle, hrest, hb⟩ := ih h3
    exact ⟨middle, ⟨h1, h2, hrest⟩, hb⟩

theorem Between.of_mem {stop start : Nat} {lexemes : List Lexeme} (h : Between stop start lexemes)
    {l : Lexeme} (hl : l ∈ lexemes) :
    start ≤ l.span.start ∧ l.span.start < l.span.stop ∧ l.span.stop ≤ stop := by
  induction lexemes generalizing start with
  | nil => simp at hl
  | cons m rest ih =>
    obtain ⟨h1, h2, h3⟩ := h
    rcases List.mem_cons.mp hl with rfl | hl
    · exact ⟨h1, h2, h3.start_le_stop⟩
    · obtain ⟨h4, h5, h6⟩ := ih h3 hl
      exact ⟨by omega, h5, h6⟩

theorem Between.pairwise {stop start : Nat} {lexemes : List Lexeme}
    (h : Between stop start lexemes) :
    lexemes.Pairwise fun a b => a.span.stop ≤ b.span.start := by
  induction lexemes generalizing start with
  | nil => exact .nil
  | cons l rest ih =>
    obtain ⟨_, _, hrest⟩ := h
    exact .cons (fun m hm => (hrest.of_mem hm).1) (ih hrest)

end Token
end Abacus
