import Abacus.Proofs.Grammar.Spelling
import Abacus.Proofs.Normalized
import Abacus.Proofs.Parser.Relocation
/-!
The tokens of a text whose blanks are taken out.

Two numbers, two names, or a name and a number after it become one piece when nothing is left
between them. If no blanks separate such tokens, the text without blanks has the same tokens, and the
way back to the typed text moves each of them to where it was typed. In a derivation no two such
tokens stand next to each other.
-/

namespace Abacus

open Normalized

namespace Token

/-- Whether the second token would be read as part of the first if nothing stood between them. -/
def glues : Token → Token → Bool
  | number _, number _ | function _, number _ | function _, function _ => true
  | _, _ => false

theorem isWordPart_eq_false {c : Char} (hn : isNumberPart c = false) (hw : isWordStart c = false) :
    isWordPart c = false := by
  simp only [isNumberPart, isWordStart, Bool.or_eq_false_iff] at hn hw
  simp only [isWordPart, Char.isAlphanum, Bool.or_eq_false_iff]
  exact ⟨⟨hw.1, hn.1⟩, hw.2⟩

theorem isWordStart_of_isGap {c : Char} (h : isGap c = true) : isWordStart c = false := by
  have hall : ∀ c ∈ " \t\r\n\x0c".toList, isWordStart c = false :=
    forall_mem_of_all (by decide)
  exact hall c (mem_of_isGap h)

/-- No token absorbs one that is a single character. -/
theorem endsBefore_symbol {u : Token} (hn : ∀ text, u ≠ number text) (hf : ∀ f, u ≠ function f)
    (t : Token) (after : List Char) : t.EndsBefore (u.text ++ after) := by
  obtain ⟨c, htext, _, hnotNumber, hnotWord, _⟩ := text_eq_singleton hn hf
  rw [htext]
  intro d hd
  cases hd
  cases t with
  | number text => exact hnotNumber
  | function f => exact isWordPart_eq_false hnotNumber hnotWord
  | operator op => rfl
  | openBracket | closeBracket | comma => rfl

theorem endsBefore_text {t u : Token} (h : t.glues u = false) (after : List Char) :
    t.EndsBefore (u.text ++ after) := by
  cases t with
  | number _ =>
    cases u with
    | number _ => contradiction
    | function f =>
      obtain ⟨c, rest, hname, _, hnotNumber, _⟩ := name_eq_cons f
      rw [text, hname]
      intro d hd
      cases hd
      exact hnotNumber
    | operator op => exact endsBefore_symbol (by simp) (by simp) _ after
    | openBracket | closeBracket | comma => exact endsBefore_symbol (by simp) (by simp) _ after
  | function _ =>
    cases u with
    | number _ | function _ => contradiction
    | operator op => exact endsBefore_symbol (by simp) (by simp) _ after
    | openBracket | closeBracket | comma => exact endsBefore_symbol (by simp) (by simp) _ after
  | operator op => exact fun _ _ => rfl
  | openBracket | closeBracket | comma => exact fun _ _ => rfl

theorem text_ne_nil {t : Token} (ht : t.IsWritten) : t.text ≠ [] := by
  intro hnil
  have := byteLength_text_pos ht
  rw [hnil] at this
  contradiction

theorem isTrimmed_text {t : Token} (ht : t.IsWritten) : IsTrimmed t.text :=
  ⟨text_ne_nil ht, fun _ hc => isBlank_of_mem_text ht _ (List.mem_of_mem_head? hc),
    fun _ hc => isBlank_of_mem_text ht _ (List.mem_of_mem_getLast? hc)⟩

theorem withoutBlanks_text {t : Token} (ht : t.IsWritten) : withoutBlanks t.text = t.text :=
  withoutBlanks_eq_self (isBlank_of_mem_text ht)

theorem withoutBlanks_gaps {gaps : List Char} (h : ∀ c ∈ gaps, isGap c = true) :
    withoutBlanks gaps = [] :=
  withoutBlanks_eq_nil_iff.mpr fun c hc => isBlank_of_isGap (h c hc)

theorem withoutBlanks_gaps_text {gaps after : List Char} {t : Token}
    (hgaps : ∀ c ∈ gaps, isGap c = true) (ht : t.IsWritten) :
    withoutBlanks (gaps ++ (t.text ++ after)) = t.text ++ withoutBlanks after := by
  rw [withoutBlanks_append, withoutBlanks_append, withoutBlanks_gaps hgaps, withoutBlanks_text ht,
    List.nil_append]

/-! ## Taking blanks out -/

/-- No blanks separate tokens that would be read as one piece without them. -/
def FreelySpaced (lexemes : List Lexeme) : Prop :=
  lexemes.IsChain fun l m => l.token.glues m.token = true → l.span.stop = m.span.start

instance (lexemes : List Lexeme) : Decidable (FreelySpaced lexemes) :=
  inferInstanceAs (Decidable (List.IsChain _ lexemes))

/-- The token is not lengthened when the blanks after it are taken out. -/
theorem endsBefore_withoutBlanks {l : Lexeme} {rest : List Lexeme} {after : List Char}
    (hspaced : FreelySpaced (l :: rest)) (hl : l.token.EndsBefore after)
    (hrest : lexFrom l.span.stop after = .ok rest) : l.token.EndsBefore (withoutBlanks after) := by
  cases rest with
  | nil =>
    rw [withoutBlanks_gaps (lexFrom_eq_nil hrest)]
    exact endsBefore_nil _
  | cons m rest =>
    obtain ⟨gaps, behind, rfl, hgaps, hm, _, hspan, _⟩ := lexFrom_eq_cons hrest
    rw [withoutBlanks_gaps_text hgaps hm]
    by_cases hglues : l.token.glues m.token = true
    · -- The two tokens stand next to each other already.
      have hnext : l.span.stop = m.span.start := (List.isChain_cons_cons.mp hspaced).1 hglues
      have hnil : gaps = [] := by
        by_contra hne
        have := byteLength_pos hne
        rw [hspan] at hnext
        dsimp only at hnext
        omega
      subst hnil
      intro c hc
      refine hl c ?_
      rw [List.head?_append_of_ne_nil _ (text_ne_nil hm)] at hc
      rwa [List.nil_append, List.head?_append_of_ne_nil _ (text_ne_nil hm)]
    · exact endsBefore_text (Bool.eq_false_iff.mpr hglues) _

end Token

namespace Grammar

open Token

/-- No token would become part of the one before it if nothing stood between them. -/
def KeepApart (lexemes : List Lexeme) : Prop :=
  lexemes.IsChain fun l m => l.token.glues m.token = false

theorem KeepApart.freelySpaced {lexemes : List Lexeme} (h : KeepApart lexemes) :
    FreelySpaced lexemes := by
  refine List.IsChain.imp (fun l m hapart hglues => ?_) h
  rw [hapart] at hglues
  contradiction

theorem glues_symbol {s : Token} (hn : ∀ text, s ≠ number text) (hf : ∀ f, s ≠ function f)
    (t : Token) : t.glues s = false ∧ s.glues t = false := by
  cases s with
  | number text => exact absurd rfl (hn text)
  | function f => exact absurd rfl (hf f)
  | operator _ | openBracket | closeBracket | comma => cases t <;> exact ⟨rfl, rfl⟩

/-- A token that is a single character keeps apart what stands before it and after it. -/
theorem KeepApart.around {a b : List Lexeme} {s : Lexeme} (hn : ∀ text, s.token ≠ number text)
    (hf : ∀ f, s.token ≠ function f) (ha : KeepApart a) (hb : KeepApart b) :
    KeepApart (a ++ s :: b) := by
  refine List.isChain_append.mpr ⟨ha, ?_, fun l _ m hm => ?_⟩
  · exact List.isChain_cons.mpr ⟨fun m _ => (glues_symbol hn hf m.token).2, hb⟩
  · cases hm
    exact (glues_symbol hn hf l.token).1

theorem keepApart_nil : KeepApart [] :=
  .nil

theorem keepApart_singleton (l : Lexeme) : KeepApart [l] :=
  .singleton l

mutual

theorem Derivation.keepApart {k : Nonterminal} (d : Derivation k) : KeepApart d.lexemes := by
  cases d with
  | number text span => exact keepApart_singleton _
  | group opening inner closing =>
    have hclosed : KeepApart (inner.lexemes ++ [⟨closeBracket, closing⟩]) :=
      .around (by simp) (by simp) inner.keepApart keepApart_nil
    show KeepApart ([] ++ _ :: (inner.lexemes ++ [_]))
    exact .around (by simp) (by simp) keepApart_nil hclosed
  | emptyCall f name opening closing =>
    exact .around (by simp) (by simp) (keepApart_singleton ⟨function f, name⟩)
      (keepApart_singleton ⟨closeBracket, closing⟩)
  | call f name opening arguments closing =>
    have hclosed : KeepApart (arguments.lexemes ++ [⟨closeBracket, closing⟩]) :=
      .around (by simp) (by simp) arguments.keepApart keepApart_nil
    show KeepApart ([_] ++ _ :: (arguments.lexemes ++ [_]))
    exact .around (by simp) (by simp) (keepApart_singleton ⟨function f, name⟩) hclosed
  | unsigned operand | base operand | factor operand | term operand =>
    rw [Derivation.lexemes]
    exact operand.keepApart
  | minus sign operand => exact .around (by simp) (by simp) keepApart_nil operand.keepApart
  | raise left sign right | multiply left op hop sign right | add left op hop sign right =>
    rw [Derivation.lexemes]
    exact .around (by simp) (by simp) left.keepApart right.keepApart

theorem Arguments.keepApart (arguments : Arguments) : KeepApart arguments.lexemes := by
  cases arguments with
  | one d =>
    rw [Arguments.lexemes]
    exact d.keepApart
  | more before comma d =>
    rw [Arguments.lexemes]
    exact .around (by simp) (by simp) before.keepApart d.keepApart

end

end Grammar

/-! ## The way back -/

namespace Normalized

/-- Where the starts and the stops of ranges of a normal form were typed. -/
def relocation (n : Normalized) : Relocation where
  start := n.origin
  stop index := n.origin (index - 1) + 1

theorem toTyped_eq_relocation (typed : List Char) {span : Span} (h : span.start < span.stop) :
    (ofText typed).toTyped span = (ofText typed).relocation.span span := by
  have hmono := (strictMono_origin typed).monotone (Nat.le_sub_one_of_lt h)
  rw [toTyped, if_pos h, Nat.max_eq_right (Nat.le_succ_of_le hmono)]
  rfl

theorem relocation_end (typed : List Char) :
    (ofText typed).relocation.span (.endOf (byteLength (ofText typed).text)) =
      .endOf (byteLength typed) :=
  congrArg₂ Span.mk (origin_end typed) (congrArg (· + 1) (origin_end typed))

theorem relocation_of_isTrimmed (before after : List Char) {piece : List Char}
    (h : IsTrimmed piece) :
    (ofText (before ++ piece ++ after)).relocation.span
        ⟨byteLength (withoutBlanks before), byteLength (withoutBlanks (before ++ piece))⟩ =
      ⟨byteLength before, byteLength (before ++ piece)⟩ :=
  congrArg₂ Span.mk (origin_start_of_isTrimmed before after h)
    (origin_last_of_isTrimmed before after h)

end Normalized

namespace Token

/-- The text without blanks has the same tokens, and each comes from where it was typed. -/
theorem exists_lexFrom_withoutBlanks {before text : List Char} {lexemes : List Lexeme}
    (h : lexFrom (byteLength before) text = .ok lexemes) (hspaced : FreelySpaced lexemes) :
    ∃ packed, lexFrom (byteLength (withoutBlanks before)) (withoutBlanks text) = .ok packed ∧
      packed.map (Lexeme.mapSpan (Normalized.ofText (before ++ text)).relocation.span) =
        lexemes := by
  -- What has been passed over moves from `text` to `before`, so the text as a whole stays the same.
  induction lexemes generalizing before text with
  | nil =>
    refine ⟨[], ?_, rfl⟩
    rw [withoutBlanks_gaps (lexFrom_eq_nil h), lexFrom]
  | cons l rest ih =>
    obtain ⟨gaps, after, rfl, hgaps, ht, ha, hspan, hrest⟩ := lexFrom_eq_cons h
    have hready := endsBefore_withoutBlanks hspaced ha hrest
    rw [← byteLength_append, ← byteLength_append] at hspan
    rw [hspan] at hrest
    obtain ⟨packed, hpacked, hmap⟩ := ih hrest hspaced.tail
    have hbefore : withoutBlanks (before ++ gaps) = withoutBlanks before := by
      rw [withoutBlanks_append, withoutBlanks_gaps hgaps, List.append_nil]
    have hkept : byteLength (withoutBlanks (before ++ gaps ++ l.token.text)) =
        byteLength (withoutBlanks before) + byteLength l.token.text := by
      rw [withoutBlanks_append, hbefore, withoutBlanks_text ht, byteLength_append]
    refine ⟨⟨l.token, ⟨byteLength (withoutBlanks before),
      byteLength (withoutBlanks (before ++ gaps ++ l.token.text))⟩⟩ :: packed, ?_, ?_⟩
    · rw [withoutBlanks_gaps_text hgaps ht, lexFrom_text ht hready, ← hkept, hpacked]
      rfl
    · have htyped : before ++ (gaps ++ (l.token.text ++ after)) =
          before ++ gaps ++ l.token.text ++ after := by
        simp only [List.append_assoc]
      have hmoved := relocation_of_isTrimmed (before ++ gaps) after (isTrimmed_text ht)
      rw [hbefore, ← hspan] at hmoved
      rw [htyped, List.map_cons, hmap, Lexeme.mapSpan, hmoved]

/-! ## Names and brackets -/

theorem lowerNames_name (f : Function) {after : List Char} (h : (function f).EndsBefore after) :
    CallNames.lowerNames (f.name ++ after) = f.name ++ CallNames.lowerNames after := by
  obtain ⟨c, word, hname, hstart, _, _⟩ := name_eq_cons f
  have hpart := wordPart_of_mem_name f
  have hspelling : CallNames.spelling f.name after = f.name := by
    rw [CallNames.spelling, CallNames.ofNameAnyCase?_eq_some_iff.mpr (sameLetters_refl f.name)]
    exact ite_self _
  rw [hname] at hpart hspelling ⊢
  rw [CallNames.lowerNames_word hstart (fun d hd => hpart d (List.mem_cons_of_mem c hd)) h,
    hspelling]

/-- A name that can be read is written in small letters already. -/
theorem lowerNames_of_lexFrom {offset : Nat} {text : List Char} {lexemes : List Lexeme}
    (h : lexFrom offset text = .ok lexemes) : CallNames.lowerNames text = text := by
  induction lexemes generalizing offset text with
  | nil =>
    have hplain : ∀ c ∈ text, isWordStart c = false :=
      fun c hc => isWordStart_of_isGap (lexFrom_eq_nil h c hc)
    have := CallNames.lowerNames_append_of_forall hplain []
    rwa [List.append_nil, CallNames.lowerNames, List.append_nil] at this
  | cons l rest ih =>
    obtain ⟨gaps, after, rfl, hgaps, ht, ha, _, hrest⟩ := lexFrom_eq_cons h
    have htoken : CallNames.lowerNames (l.token.text ++ after) =
        l.token.text ++ CallNames.lowerNames after := by
      by_cases hf : ∃ f, l.token = function f
      · obtain ⟨f, hf⟩ := hf
        rw [hf] at ha ⊢
        exact lowerNames_name f ha
      · exact CallNames.lowerNames_append_of_forall
          (isWordStart_of_mem_text ht fun f h => hf ⟨f, h⟩) after
    have hplain : ∀ c ∈ gaps, isWordStart c = false :=
      fun c hc => isWordStart_of_isGap (hgaps c hc)
    rw [CallNames.lowerNames_append_of_forall hplain, htoken, ih hrest]

end Token

namespace Normalized

/-- The normal form of a text whose tokens stay apart is the text without blanks, token by token. -/
theorem exists_lex_text {typed : List Char} {lexemes : List Lexeme}
    (h : Token.lex typed = .ok lexemes) (hspaced : Token.FreelySpaced lexemes) :
    ∃ packed, Token.lex (ofText typed).text = .ok packed ∧
      packed.map (Lexeme.mapSpan (ofText typed).relocation.span) = lexemes := by
  have hstart : Token.lexFrom (byteLength []) typed = .ok lexemes := h
  obtain ⟨packed, hpacked, hmoved⟩ := Token.exists_lexFrom_withoutBlanks hstart hspaced
  have htext : (ofText typed).text = withoutBlanks typed :=
    (CallNames.lowerCalls_eq_lowerNames _).trans (Token.lowerNames_of_lexFrom hpacked)
  rw [htext]
  exact ⟨packed, hpacked, hmoved⟩

theorem closesFrom_withoutBlanks (depth : Nat) (text : List Char) :
    closesFrom depth (withoutBlanks text) = closesFrom depth text :=
  closesFrom_filter (by decide) (by decide) depth text

/-- Blanks and capitals do not count when brackets are paired. -/
theorem isBalanced_text (typed : List Char) :
    isBalanced (ofText typed).text = isBalanced typed := by
  rw [isBalanced, isBalanced, Grammar.closesFrom_eq_of_sameLetters (sameLetters_text typed),
    closesFrom_withoutBlanks]

end Normalized
end Abacus
