import Abacus.Proofs.Lexing
import Abacus.Proofs.Segments
/-!
The tokens of a text, segment by segment.

A segment is good if it is a gap, or the text of a token. A text of good segments has one token for
each segment that is no gap; otherwise the error is about the first segment that is not good.
-/

namespace Abacus

/-- What is wrong with a segment of the kind that is not good. Gaps and symbols always are. -/
def SegmentKind.fault? : SegmentKind → Option LexFault
  | gap | symbol => none
  | number => some .malformedNumber
  | word => some .unknownFunction
  | other => some .unknownCharacter

namespace Segment

def IsGood (s : Segment) : Prop :=
  match s.kind with
  | .gap | .symbol => True
  | .number =>
      (∃ c ∈ s.text.head?, c.isDigit = true) ∧ (∃ c ∈ s.text.getLast?, c.isDigit = true) ∧
        s.text.count '.' ≤ 1
  | .word => ∃ f : Function, s.text = f.name
  | .other => False

/-- The segment is written for the token. -/
inductive IsToken : Segment → Token → Prop where
  | number (text : List Char) : IsToken ⟨.number, text⟩ (.number text)
  | function (f : Function) : IsToken ⟨.word, f.name⟩ (.function f)
  | operator (op : Operator) : IsToken ⟨.symbol, [op.symbol]⟩ (.operator op)
  | openBracket : IsToken ⟨.symbol, ['(']⟩ .openBracket
  | closeBracket : IsToken ⟨.symbol, [')']⟩ .closeBracket
  | comma : IsToken ⟨.symbol, [',']⟩ .comma

theorem IsToken.text_eq {s : Segment} {t : Token} (h : s.IsToken t) : t.text = s.text := by
  cases h <;> rfl

theorem IsToken.kind_ne_gap {s : Segment} {t : Token} (h : s.IsToken t) : s.kind ≠ .gap := by
  cases h <;> simp

/-- The segments, each with its bytes in a text in which the first one starts at `offset`. -/
def placed : Nat → List Segment → List (Segment × Span)
  | _, [] => []
  | offset, s :: segments =>
      (s, ⟨offset, offset + byteLength s.text⟩) :: placed (offset + byteLength s.text) segments

/-- The lexeme is the token of the segment, with its text and at its place. -/
def IsLexeme (p : Segment × Span) (l : Lexeme) : Prop :=
  p.1.IsToken l.token ∧ l.token.text = p.1.text ∧ l.span = p.2

/-- The lexemes are those of the segments that are no gaps, in order. -/
def AreLexemes (offset : Nat) (segments : List Segment) (lexemes : List Lexeme) : Prop :=
  List.Forall₂ IsLexeme ((placed offset segments).filter fun p => p.1.kind != .gap) lexemes

theorem AreLexemes.gap {offset : Nat} {s : Segment} {segments : List Segment}
    {lexemes : List Lexeme} (hs : s.kind = .gap)
    (h : AreLexemes (offset + byteLength s.text) segments lexemes) :
    AreLexemes offset (s :: segments) lexemes := by
  rw [AreLexemes, placed, List.filter_cons_of_neg (by simp [hs])]
  exact h

theorem AreLexemes.token {offset : Nat} {s : Segment} {segments : List Segment}
    {lexemes : List Lexeme} {t : Token} (ht : s.IsToken t)
    (h : AreLexemes (offset + byteLength s.text) segments lexemes) :
    AreLexemes offset (s :: segments)
      (⟨t, ⟨offset, offset + byteLength s.text⟩⟩ :: lexemes) := by
  rw [AreLexemes, placed, List.filter_cons_of_pos (by simp [ht.kind_ne_gap])]
  exact .cons ⟨ht, ht.text_eq, rfl⟩ h

/-- The error is about the first segment that is not good. -/
def IsFirstFault (offset : Nat) (segments : List Segment) (error : LexError) : Prop :=
  ∃ before s after, segments = before ++ s :: after ∧ (∀ q ∈ before, q.IsGood) ∧ ¬ s.IsGood ∧
    s.kind.fault? = some error.fault ∧ error.text = s.text ∧
    error.span =
      ⟨offset + byteLength (textOf before), offset + byteLength (textOf before ++ s.text)⟩

theorem IsFirstFault.head {offset : Nat} {s : Segment} {segments : List Segment} {fault : LexFault}
    (hbad : ¬ s.IsGood) (hfault : s.kind.fault? = some fault) :
    IsFirstFault offset (s :: segments)
      ⟨fault, s.text, ⟨offset, offset + byteLength s.text⟩⟩ :=
  ⟨[], s, segments, rfl, by simp, hbad, hfault, rfl, rfl⟩

theorem IsFirstFault.cons {offset : Nat} {s : Segment} {segments : List Segment}
    {error : LexError} (hs : s.IsGood)
    (h : IsFirstFault (offset + byteLength s.text) segments error) :
    IsFirstFault offset (s :: segments) error := by
  obtain ⟨before, q, after, rfl, hbefore, hq, hfault, htext, hspan⟩ := h
  refine ⟨s :: before, q, after, rfl, List.forall_mem_cons.mpr ⟨hs, hbefore⟩, hq, hfault, htext, ?_⟩
  rw [hspan, textOf_cons, List.append_assoc, byteLength_append s.text, byteLength_append s.text,
    Nat.add_assoc, Nat.add_assoc]

/-- What the segment is taken for. -/
inductive Means (s : Segment) : Except LexFault Token → Prop where
  | token {t : Token} (hgood : s.IsGood) (h : s.IsToken t) : Means s (.ok t)
  | fault {fault : LexFault} (hbad : ¬ s.IsGood) (h : s.kind.fault? = some fault) :
      Means s (.error fault)

/-- The lexemes or the error that a list of segments calls for. -/
inductive IsRead (offset : Nat) (segments : List Segment) :
    Except LexError (List Lexeme) → Prop where
  | ok {lexemes : List Lexeme} (hgood : ∀ s ∈ segments, s.IsGood)
      (h : AreLexemes offset segments lexemes) : IsRead offset segments (.ok lexemes)
  | error {e : LexError} (h : IsFirstFault offset segments e) : IsRead offset segments (.error e)

theorem IsRead.gap {offset : Nat} {s : Segment} {segments : List Segment}
    {result : Except LexError (List Lexeme)} (hs : s.kind = .gap)
    (h : IsRead (offset + byteLength s.text) segments result) :
    IsRead offset (s :: segments) result := by
  have hgood : s.IsGood := by
    rw [IsGood, hs]
    trivial
  cases h with
  | ok hall h => exact .ok (List.forall_mem_cons.mpr ⟨hgood, hall⟩) (h.gap hs)
  | error h => exact .error (h.cons hgood)

theorem IsRead.token {offset : Nat} {s : Segment} {segments : List Segment} {t : Token}
    {result : Except LexError (List Lexeme)} (hgood : s.IsGood) (ht : s.IsToken t)
    (h : IsRead (offset + byteLength s.text) segments result) :
    IsRead offset (s :: segments)
      (result.map (⟨t, ⟨offset, offset + byteLength s.text⟩⟩ :: ·)) := by
  cases h with
  | ok hall h => exact .ok (List.forall_mem_cons.mpr ⟨hgood, hall⟩) (h.token ht)
  | error h => exact .error (h.cons hgood)

end Segment

namespace Token

open Segment
open SegmentKind (ofChar symbolChars)

/-! ## One segment -/

theorem isNumber_iff {piece : List Char} (hne : piece ≠ [])
    (hall : ∀ c ∈ piece, isNumberPart c = true) :
    isNumber piece = true ↔
      (∃ c ∈ piece.head?, c.isDigit = true) ∧ (∃ c ∈ piece.getLast?, c.isDigit = true) ∧
        piece.count '.' ≤ 1 := by
  -- At either end of the run there is a point or a digit.
  have hend : ∀ c ∈ piece, c ≠ '.' ↔ c.isDigit = true := by
    intro c hc
    have hpart := hall c hc
    simp only [isNumberPart, Bool.or_eq_true, beq_iff_eq] at hpart
    constructor
    · exact fun h => hpart.resolve_right h
    · rintro h rfl
      contradiction
  have hhead := hend _ (List.head_mem hne)
  have hlast := hend _ (List.getLast_mem hne)
  simp only [isNumber, List.head?_eq_some_head hne, List.getLast?_eq_some_getLast hne,
    Option.mem_def, Option.some.injEq, exists_eq_left', Bool.and_eq_true, bne_iff_ne, ne_eq,
    decide_eq_true_eq, and_assoc]
  rw [← hhead, ← hlast]

theorem isToken_of_ofSymbol? {c : Char} {t : Token} (h : ofSymbol? c = some t) :
    IsToken ⟨.symbol, [c]⟩ t := by
  unfold ofSymbol? at h
  split at h
  · rename_i hc
    cases h
    rw [hc]
    exact .openBracket
  · split at h
    · rename_i hc
      cases h
      rw [hc]
      exact .closeBracket
    · split at h
      · rename_i hc
        cases h
        rw [hc]
        exact .comma
      · obtain ⟨op, hop, rfl⟩ := Option.map_eq_some_iff.mp h
        rw [Operator.ofSymbol?_eq_some_iff.mp hop]
        exact .operator op

theorem ofSymbol?_eq_none_iff {c : Char} : ofSymbol? c = none ↔ c ∉ symbolChars := by
  constructor
  · intro h hc
    have hall : ∀ c ∈ symbolChars, (ofSymbol? c).isSome = true := forall_mem_of_all (by decide)
    have hsome := hall c hc
    rw [h] at hsome
    simp at hsome
  · intro hc
    cases h : ofSymbol? c with
    | none => rfl
    | some t =>
      refine absurd ?_ hc
      cases isToken_of_ofSymbol? h with
      | operator op => cases op <;> decide
      | openBracket | closeBracket | comma => decide

theorem means_number {piece : List Char} (hne : piece ≠ [])
    (hall : ∀ c ∈ piece, isNumberPart c = true) :
    Means ⟨.number, piece⟩
      (if isNumber piece then .ok (number piece) else .error .malformedNumber) := by
  have hiff := isNumber_iff hne hall
  by_cases hgood : isNumber piece = true
  · rw [if_pos hgood]
    exact .token (hiff.mp hgood) (.number piece)
  · rw [if_neg hgood]
    exact .fault (fun h => hgood (hiff.mpr h)) rfl

theorem means_word (piece : List Char) :
    Means ⟨.word, piece⟩
      (match Function.ofName? piece with
      | some f => .ok (function f)
      | none => .error .unknownFunction) := by
  cases hname : Function.ofName? piece with
  | some f =>
    rw [Function.ofName?_eq_some_iff.mp hname]
    exact .token ⟨f, rfl⟩ (.function f)
  | none =>
    refine .fault ?_ rfl
    rintro ⟨f, hf⟩
    rw [Function.ofName?_eq_some_iff.mpr hf] at hname
    contradiction

theorem means_single (c : Char) :
    Means ⟨if c ∈ symbolChars then .symbol else .other, [c]⟩
      (match ofSymbol? c with
      | some t => .ok t
      | none => .error .unknownCharacter) := by
  cases hsymbol : ofSymbol? c with
  | some t =>
    have hc : c ∈ symbolChars := by
      by_contra hc
      rw [ofSymbol?_eq_none_iff.mpr hc] at hsymbol
      contradiction
    rw [if_pos hc]
    exact .token trivial (isToken_of_ofSymbol? hsymbol)
  | none =>
    rw [if_neg (ofSymbol?_eq_none_iff.mp hsymbol)]
    exact .fault id rfl

/-- The first piece that the lexer looks at is the first segment. -/
theorem exists_firstPiece {c : Char} {tail after : List Char} (hgap : isGap c = false)
    (htail : ∀ d ∈ tail, (ofChar c).goesOnWith d = true)
    (hafter : ∀ d ∈ after.head?, (ofChar c).goesOnWith d = false) :
    ∃ meaning, firstPiece c (tail ++ after) = ⟨c :: tail, meaning, after⟩ ∧
      Means ⟨.ofChar c, c :: tail⟩ meaning := by
  have hkind : ofChar c = if isNumberPart c then .number else if isWordStart c then .word
      else if c ∈ symbolChars then .symbol else .other := by
    rw [ofChar, hgap]
    rfl
  by_cases hnumber : isNumberPart c = true
  · rw [hkind, if_pos hnumber] at htail hafter
    obtain ⟨htake, hdrop⟩ := takeWhile_run (p := isNumberPart) htail hafter
    rw [hkind, firstPiece, if_pos hnumber, if_pos hnumber, htake, hdrop]
    have hall : ∀ d ∈ c :: tail, isNumberPart d = true := List.forall_mem_cons.mpr ⟨hnumber, htail⟩
    exact ⟨_, rfl, means_number (List.cons_ne_nil c tail) hall⟩
  · by_cases hword : isWordStart c = true
    · rw [hkind, if_neg hnumber, if_pos hword] at htail hafter
      obtain ⟨htake, hdrop⟩ := takeWhile_run (p := isWordPart) htail hafter
      rw [hkind, firstPiece, if_neg hnumber, if_neg hnumber, if_pos hword, if_pos hword, htake,
        hdrop]
      exact ⟨_, rfl, means_word (c :: tail)⟩
    · rw [if_neg hnumber, if_neg hword] at hkind
      -- A character of no run is a segment by itself.
      have hnil : tail = [] := by
        apply List.eq_nil_iff_forall_not_mem.mpr
        intro d hd
        have := htail d hd
        rw [hkind] at this
        by_cases hc : c ∈ symbolChars <;> simp [hc, SegmentKind.goesOnWith] at this
      rw [hkind, hnil, firstPiece, if_neg hnumber, if_neg hword]
      exact ⟨_, rfl, means_single c⟩

/-! ## The whole text -/

/-- The lexer returns what the segments of the text call for. -/
theorem isRead_lexFrom {text : List Char} {segments : List Segment} (h : Cut text segments)
    (offset : Nat) : IsRead offset segments (lexFrom offset text) := by
  induction h generalizing offset with
  | nil =>
    rw [lexFrom]
    exact .ok (by simp) .nil
  | @cons c tail after segments htail hafter hrest ih =>
    by_cases hgap : isGap c = true
    · have hkind : ofChar c = .gap := by rw [ofChar, if_pos hgap]
      rw [hkind] at htail ⊢
      have hall : ∀ d ∈ c :: tail, isGap d = true := List.forall_mem_cons.mpr ⟨hgap, htail⟩
      rw [lexFrom_gaps hall]
      exact (ih _).gap rfl
    · obtain ⟨meaning, hpiece, hmeans⟩ :=
        exists_firstPiece (Bool.eq_false_iff.mpr hgap) htail hafter
      rw [List.cons_append, lexFrom, if_neg hgap]
      simp only [hpiece]
      cases hmeans with
      | token hgood ht => exact (ih _).token hgood ht
      | fault hbad hfault => exact .error (.head hbad hfault)

/-- The token of a lexeme stands in the text at the lexeme's place. -/
theorem exists_slice_of_mem {offset : Nat} {text : List Char} {lexemes : List Lexeme} {l : Lexeme}
    (h : lexFrom offset text = .ok lexemes) (hl : l ∈ lexemes) :
    ∃ before after, text = before ++ l.token.text ++ after ∧
      l.span = ⟨offset + byteLength before, offset + byteLength (before ++ l.token.text)⟩ := by
  induction lexemes generalizing offset text with
  | nil => simp at hl
  | cons m rest ih =>
    obtain ⟨gaps, tail, rfl, _, _, _, hspan, hrest⟩ := lexFrom_eq_cons h
    rcases List.mem_cons.mp hl with rfl | hl
    · refine ⟨gaps, tail, (List.append_assoc ..).symm, ?_⟩
      rw [hspan, byteLength_append, Nat.add_assoc]
    · obtain ⟨before, after, rfl, hplace⟩ := ih hrest hl
      refine ⟨gaps ++ m.token.text ++ before, after, by simp, ?_⟩
      rw [hplace, hspan]
      simp only [byteLength_append, Nat.add_assoc]

/-- A character of a text in two parts stands in the first or in the second. -/
theorem append_eq_append_cons {a b before after : List Char} {c : Char}
    (h : a ++ b = before ++ c :: after) :
    (∃ middle, a = before ++ c :: middle) ∨
      ∃ middle, before = a ++ middle ∧ b = middle ++ c :: after := by
  rcases List.append_eq_append_iff.mp h with ⟨middle, hbefore, hb⟩ | ⟨middle, ha, hc⟩
  · exact .inr ⟨middle, hbefore, hb⟩
  · cases middle with
    | nil =>
      rw [List.append_nil] at ha
      exact .inr ⟨[], by rw [ha, List.append_nil], hc.symm⟩
    | cons d middle =>
      obtain ⟨rfl, rfl⟩ := List.cons.inj hc
      exact .inl ⟨middle, ha⟩

/-- A character that is no gap stands in one of the tokens. -/
theorem isGap_or_exists_lexeme {offset : Nat} {text : List Char} {lexemes : List Lexeme}
    (h : lexFrom offset text = .ok lexemes) {before after : List Char} {c : Char}
    (htext : text = before ++ c :: after) :
    isGap c = true ∨ ∃ l ∈ lexemes, l.span.start ≤ offset + byteLength before ∧
      offset + byteLength before + c.utf8Size ≤ l.span.stop := by
  induction lexemes generalizing offset text before with
  | nil =>
    refine .inl (lexFrom_eq_nil h c ?_)
    rw [htext]
    exact List.mem_append_right before List.mem_cons_self
  | cons l rest ih =>
    obtain ⟨gaps, tail, rfl, hgaps, _, _, hspan, hrest⟩ := lexFrom_eq_cons h
    rcases append_eq_append_cons htext with ⟨middle, rfl⟩ | ⟨middle, rfl, htoken⟩
    · exact .inl (hgaps c (List.mem_append_right before List.mem_cons_self))
    · rw [byteLength_append]
      rcases append_eq_append_cons htoken with ⟨inside, hinside⟩ | ⟨beyond, rfl, rfl⟩
      · refine .inr ⟨l, List.mem_cons_self, ?_⟩
        rw [hspan, hinside, byteLength_append, byteLength_cons]
        dsimp only
        omega
      · rcases ih hrest rfl with hgap | ⟨m, hm, hstart, hstop⟩
        · exact .inl hgap
        · rw [hspan] at hstart hstop
          refine .inr ⟨m, List.mem_cons_of_mem l hm, ?_⟩
          rw [byteLength_append]
          dsimp only at hstart hstop
          omega

/--
A text has one cut into segments. It has tokens if and only if every segment is good. The tokens are
then those of the segments that are no gaps, in order, and all that is not in a token is gaps;
otherwise the error is about the first segment that is not good.
-/
theorem lex_of_segments (text : List Char) :
    ∃ segments, Cut text segments ∧ (∀ other, Cut text other → other = segments) ∧
      ((∃ lexemes, lex text = .ok lexemes) ↔ ∀ s ∈ segments, s.IsGood) ∧
      (∀ lexemes, lex text = .ok lexemes →
        AreLexemes 0 segments lexemes ∧
        lexemes.Pairwise (fun a b => a.span.stop ≤ b.span.start) ∧
        (∀ l ∈ lexemes, l.span.start < l.span.stop ∧ ∃ before after,
          text = before ++ l.token.text ++ after ∧
            l.span = ⟨byteLength before, byteLength (before ++ l.token.text)⟩) ∧
        ∀ before c after, text = before ++ c :: after → isGap c = true ∨
          ∃ l ∈ lexemes, l.span.start ≤ byteLength before ∧
            byteLength before + c.utf8Size ≤ l.span.stop) ∧
      ∀ e, lex text = .error e → IsFirstFault 0 segments e := by
  obtain ⟨segments, hcut⟩ := Cut.exists_segments text
  have hread : IsRead 0 segments (lex text) := isRead_lexFrom hcut 0
  refine ⟨segments, hcut, fun other hother => hcut.unique hother, ?_, ?_, ?_⟩
  · generalize lex text = result at hread
    cases hread with
    | ok hgood h => exact ⟨fun _ => hgood, fun _ => ⟨_, rfl⟩⟩
    | error h =>
      obtain ⟨before, s, after, rfl, _, hbad, _⟩ := h
      constructor
      · rintro ⟨_, hok⟩
        contradiction
      · intro hgood
        exact absurd (hgood s (List.mem_append_right before List.mem_cons_self)) hbad
  · intro lexemes hlex
    have hbetween := between_of_lexFrom hlex
    have hlexemes : AreLexemes 0 segments lexemes := by
      rw [hlex] at hread
      cases hread with
      | ok _ h => exact h
    refine ⟨hlexemes, hbetween.pairwise, ?_, ?_⟩
    · intro l hl
      obtain ⟨before, after, htext, hspan⟩ := exists_slice_of_mem hlex hl
      rw [Nat.zero_add, Nat.zero_add] at hspan
      exact ⟨(hbetween.of_mem hl).2.1, before, after, htext, hspan⟩
    · intro before c after htext
      have := isGap_or_exists_lexeme hlex htext
      rwa [Nat.zero_add] at this
  · intro e hlex
    rw [hlex] at hread
    cases hread with
    | error h => exact h

end Token
end Abacus
