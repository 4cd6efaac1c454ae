import Abacus.Diagnostic.Snippet
import Mathlib
/-!
Colours are nothing but escape sequences.

A layout is the same list of pieces whether it is painted or not. A piece whose text holds no escape
character can be told from the sequences around it, so painted output without its escape sequences
is the output that was never painted. All pieces of a diagnostic are like this if its texts are.
-/

namespace Abacus

namespace Ink

/-- The text without its escape sequences, from `ESC [` to `m`; `inside` tells if one is open. -/
def dropEscapes (inside : Bool) : List Char → List Char
  | [] => []
  | c :: text =>
      if inside then dropEscapes (c != 'm') text
      else if c = '\x1b' ∧ text.head? = some '[' ∧ 'm' ∈ text then dropEscapes true text
      else c :: dropEscapes false text

/-- The text without its escape sequences. -/
def withoutEscapes (text : List Char) : List Char :=
  dropEscapes false text

theorem withoutEscapes_append {text : List Char} (h : '\x1b' ∉ text) (rest : List Char) :
    withoutEscapes (text ++ rest) = text ++ withoutEscapes rest := by
  induction text with
  | nil => rfl
  | cons c text ih =>
    rw [List.mem_cons, not_or] at h
    have hc : ¬ (c = '\x1b' ∧ (text ++ rest).head? = some '[' ∧ 'm' ∈ text ++ rest) :=
      fun hescape => h.1 hescape.1.symm
    show dropEscapes false (c :: (text ++ rest)) = c :: (text ++ withoutEscapes rest)
    rw [dropEscapes, if_neg Bool.false_ne_true, if_neg hc, ← ih h.2]
    rfl

theorem dropEscapes_true {style : List Char} (h : 'm' ∉ style) (rest : List Char) :
    dropEscapes true (style ++ 'm' :: rest) = withoutEscapes rest := by
  induction style with
  | nil => rfl
  | cons c style ih =>
    rw [List.mem_cons, not_or] at h
    rw [List.cons_append, dropEscapes, if_pos rfl, bne_iff_ne.mpr (Ne.symm h.1), ih h.2]

theorem withoutEscapes_switch {style : List Char} (h : 'm' ∉ style) (rest : List Char) :
    withoutEscapes (switch style ++ rest) = withoutEscapes rest := by
  have hend : 'm' ∈ '[' :: (style ++ 'm' :: rest) := by simp
  have hswitch : switch style ++ rest = '\x1b' :: '[' :: (style ++ 'm' :: rest) := by
    simp [switch]
  rw [hswitch, withoutEscapes, dropEscapes, if_neg Bool.false_ne_true, if_pos ⟨rfl, rfl, hend⟩,
    dropEscapes, if_pos rfl]
  exact dropEscapes_true h rest

theorem keepStyle_of_not_mem {text : List Char} (h : '\x1b' ∉ text) (style : List Char) :
    keepStyle style text = text := by
  induction text with
  | nil => rfl
  | cons c text ih =>
    rw [List.mem_cons, not_or] at h
    rw [keepStyle, ih h.2]
    rintro rest rfl
    exact absurd rfl h.1

/-- No escape character in the text, and nothing in the style that ends a sequence. -/
def IsClean (piece : Ink) : Prop :=
  '\x1b' ∉ piece.text ∧ ∀ style ∈ piece.style, 'm' ∉ style

@[simp] theorem isClean_plain {text : List Char} : (plain text).IsClean ↔ '\x1b' ∉ text := by
  simp [IsClean, plain]

@[simp] theorem isClean_styled {style : String} {text : List Char} :
    (styled style text).IsClean ↔ '\x1b' ∉ text ∧ 'm' ∉ style.toList := by
  simp [IsClean, styled]

theorem withoutEscapes_inStyle {style text : List Char} (hstyle : 'm' ∉ style)
    (htext : '\x1b' ∉ text) (rest : List Char) :
    withoutEscapes (inStyle style text ++ rest) = text ++ withoutEscapes rest := by
  rw [inStyle, keepStyle_of_not_mem htext, List.append_assoc, List.append_assoc,
    withoutEscapes_switch hstyle, withoutEscapes_append htext, reset,
    withoutEscapes_switch (by decide)]

theorem withoutEscapes_paintPiece (colour : Bool) {piece : Ink} (h : piece.IsClean)
    (rest : List Char) :
    withoutEscapes (paintPiece colour piece ++ rest) = piece.text ++ withoutEscapes rest := by
  obtain ⟨style, text⟩ := piece
  obtain ⟨htext, hstyle⟩ := h
  cases style with
  | none => exact withoutEscapes_append htext rest
  | some style =>
    cases colour with
    | false => exact withoutEscapes_append htext rest
    | true => exact withoutEscapes_inStyle (hstyle style rfl) htext rest

theorem withoutEscapes_paint (colour : Bool) {pieces : List Ink}
    (h : ∀ piece ∈ pieces, piece.IsClean) :
    withoutEscapes (paint colour pieces) = paint false pieces := by
  rw [paint_false]
  induction pieces with
  | nil => rfl
  | cons piece pieces ih =>
    obtain ⟨hpiece, hpieces⟩ := List.forall_mem_cons.mp h
    rw [paint, List.flatMap_cons, withoutEscapes_paintPiece colour hpiece, List.flatMap_cons,
      ← ih hpieces, paint]

end Ink

/-! ## The line that is drawn -/

theorem flatten_splitLines (text : List Char) : (splitLines text).flatten = text := by
  fun_induction splitLines text with
  | case1 => rfl
  | case2 text ih => rw [List.flatten_cons, ih]; rfl
  | case3 c text _ hend ih => rw [List.flatten_cons, ih]; rfl
  | case4 c text _ hend hnil ih =>
    rw [hnil] at ih
    rw [← ih]
    rfl
  | case5 c text _ hend line lines hlines ih =>
    rw [hlines] at ih
    rw [← ih]
    rfl

theorem mem_of_mem_findPlace {number index : Nat} {lines : List (List Char)} {c : Char}
    (h : c ∈ (findPlace number index lines).line) : c ∈ lines.flatten := by
  fun_induction findPlace number index lines with
  | case1 => contradiction
  | case2 number index line lines hline => exact List.mem_flatten.mpr ⟨line, by simp, h⟩
  | case3 number index line lines hline ih =>
    rw [List.flatten_cons]
    exact List.mem_append_right line (ih h)

/-- The line that is drawn is a piece of the text. -/
theorem mem_of_mem_ofSpan {span : Span} {source : List Char} {c : Char}
    (h : c ∈ (Snippet.Marked.ofSpan span source).text) : c ∈ source := by
  have hplace := (List.rdropWhile_prefix isBlank _).subset h
  rw [← flatten_splitLines source]
  exact mem_of_mem_findPlace hplace

/-! ## The pieces of a diagnostic -/

theorem escape_not_mem_natText (n : Nat) : '\x1b' ∉ natText n := by
  intro h
  have hdigit := Nat.isDigit_of_mem_toDigits (by decide) (by decide) h
  revert hdigit
  decide

namespace Snippet

theorem isClean_blanks (n : Nat) : (blanks n).IsClean := by
  rw [blanks, Ink.isClean_plain]
  intro h
  exact absurd (List.eq_of_mem_replicate h) (by decide)

theorem isClean_strokes {c : Char} (hc : c ≠ '\x1b') (width : Nat) :
    ∀ piece ∈ strokes c width, piece.IsClean := by
  rw [strokes, List.forall_mem_map, List.forall_mem_cons]
  refine ⟨by simp [hc.symm, markStyle], fun stroke hstroke => ?_⟩
  rw [List.eq_of_mem_replicate hstroke]
  simp [markStyle]

theorem isClean_lineText {m : Marked} (hm : '\x1b' ∉ m.text) :
    ∀ piece ∈ lineText m, piece.IsClean := by
  rw [lineText, List.forall_mem_flatMap]
  rintro ⟨c, column⟩ hmem
  have hc : c ≠ '\x1b' := ne_of_mem_of_not_mem (List.fst_mem_of_mem_zipIdx hmem) hm
  have hstyle : 'm' ∉ (if m.contains column then markStyle else textStyle).toList := by
    split <;> decide
  dsimp only
  rw [List.forall_mem_map]
  intro cell hcell
  rw [Ink.isClean_styled, List.mem_singleton]
  refine ⟨?_, hstyle⟩
  -- A cell holds the character itself, or a space in the place of a blank.
  split at hcell
  · rw [List.eq_of_mem_replicate hcell]
    decide
  · rw [List.mem_singleton.mp hcell]
    exact hc.symm

theorem isClean_underline (m : Marked) : ∀ piece ∈ underline m, piece.IsClean := by
  rw [underline, List.forall_mem_flatMap]
  intro column _
  split
  · exact isClean_strokes (by decide) _
  split
  · exact isClean_strokes (by decide) _
  · exact List.forall_mem_singleton.mpr (isClean_blanks _)

theorem isClean_arrow (m : Marked) : ∀ piece ∈ arrow m, piece.IsClean := by
  rw [arrow, List.forall_mem_flatMap]
  intro column _
  split
  · exact List.forall_mem_singleton.mpr (isClean_blanks _)
  split
  · exact isClean_strokes (by decide) _
  · exact isClean_strokes (by decide) _

theorem isClean_margin (digits : Nat) : ∀ piece ∈ margin digits, piece.IsClean := by
  simp [margin, marginStyle]

theorem isClean_remark (digits : Nat) {name : String} {text : List Char}
    (hname : '\x1b' ∉ name.toList) (htext : '\x1b' ∉ text) :
    ∀ row ∈ remark digits name text, ∀ piece ∈ row, piece.IsClean := by
  rw [remark, List.forall_mem_cons, List.forall_mem_singleton, List.forall_mem_append]
  exact ⟨isClean_margin digits, isClean_margin digits, by simp [titleStyle, hname, htext]⟩

theorem isClean_title (level : Level) : (title level).IsClean := by
  cases level <;> simp [title]

end Snippet

namespace Diagnostic

/-- All that the diagnostic says. -/
def texts (d : Diagnostic) : List (List Char) :=
  d.message :: d.label.toList ++ d.notes ++ d.help.toList

theorem isClean_rows {d : Diagnostic} {m : Snippet.Marked} (hd : ∀ text ∈ d.texts, '\x1b' ∉ text)
    (hm : '\x1b' ∉ m.text) : ∀ row ∈ Snippet.rows d m, ∀ piece ∈ row, piece.IsClean := by
  simp only [texts, List.forall_mem_append, List.forall_mem_cons] at hd
  obtain ⟨⟨⟨hmessage, hlabel⟩, hnotes⟩, hhelp⟩ := hd
  have hnumber := escape_not_mem_natText m.number
  have hcolumn := escape_not_mem_natText (m.first + 1)
  have hindent := Snippet.isClean_blanks ((natText m.number).length + 2)
  have hmargin := Snippet.isClean_margin (natText m.number).length
  have hframe (text : String) (htext : '\x1b' ∉ text.toList) : (Snippet.frame text).IsClean := by
    simp [Snippet.frame, Snippet.frameStyle, htext]
  simp only [Snippet.rows, List.forall_mem_append, List.forall_mem_flatMap, List.forall_mem_cons]
  refine ⟨⟨⟨⟨⟨?_, ?_, ?_, ?_, by simp⟩, fun label hmem => ?_⟩, fun help hmem => ?_⟩,
    fun note hmem => ?_⟩, ?_, by simp⟩
  · exact ⟨Snippet.isClean_title d.level, by simp [hmessage], by simp⟩
  · refine ⟨hindent, hframe "╭" (by decide), hframe "─" (by decide), hframe "[" (by decide), ?_,
      hframe "]" (by decide), by simp⟩
    simp [hnumber, hcolumn]
  · exact ⟨hindent, hframe "│" (by decide), by simp⟩
  · refine ⟨⟨by simp, ?_, by simp⟩, Snippet.isClean_lineText hm⟩
    simp [Snippet.frameStyle, hnumber]
  · exact ⟨⟨hmargin, Snippet.isClean_underline m⟩,
      ⟨⟨hmargin, Snippet.isClean_arrow m⟩, by simp [hlabel label hmem]⟩, by simp⟩
  · exact Snippet.isClean_remark _ (by decide) (hhelp help hmem)
  · exact Snippet.isClean_remark _ (by decide)
      (hnotes note (List.mem_of_getLast? (Option.mem_toList.mp hmem)))
  · simp [Snippet.frameStyle]

theorem isClean_item {mark text : Ink} (hmark : mark.IsClean) (htext : text.IsClean) :
    ∀ piece ∈ item mark text, piece.IsClean := by
  simp [item, hmark, htext]

theorem isClean_listing {d : Diagnostic} (hd : ∀ text ∈ d.texts, '\x1b' ∉ text) :
    ∀ piece ∈ d.listing, piece.IsClean := by
  simp only [texts, List.forall_mem_append, List.forall_mem_cons] at hd
  obtain ⟨⟨⟨hmessage, -⟩, hnotes⟩, hhelp⟩ := hd
  simp only [listing, List.forall_mem_append, List.forall_mem_flatMap]
  refine ⟨⟨⟨?_, fun span _ => ?_⟩, fun note hnote => ?_⟩, fun help hmem => ?_⟩
  · have hname : '\x1b' ∉ d.level.name := by cases d.level <;> decide
    have hstyle : 'm' ∉ d.level.style.toList := by cases d.level <;> decide
    simp [hname, hstyle, hmessage]
  · refine isClean_item (by simp) ?_
    simp [rangeText, escape_not_mem_natText]
  · exact isClean_item (by simp) (by simp [hnotes note hnote])
  · exact isClean_item (by simp) (by simp [hhelp help hmem])

/--
Colours add escape sequences and nothing else: where neither the diagnostic nor the text it is about
holds an escape character, painted output without its escape sequences is the output in no colour,
both for the listing and for the drawing, whichever of the two is painted.
-/
theorem withoutEscapes_render (d : Diagnostic) (source : List Char) (palette : Palette)
    (hd : ∀ text ∈ d.texts, '\x1b' ∉ text) (hsource : '\x1b' ∉ source) :
    Ink.withoutEscapes (d.render palette) = d.render (.both false) ∧
      Ink.withoutEscapes (d.renderWith palette source) = d.renderWith (.both false) source := by
  have hlisting : Ink.withoutEscapes (d.render palette) = d.render (.both false) := by
    rw [render_eq_paint, render_eq_paint]
    exact Ink.withoutEscapes_paint palette.listing (isClean_listing hd)
  refine ⟨hlisting, ?_⟩
  unfold renderWith
  cases d.span with
  | none => exact hlisting
  | some span =>
    cases source with
    | nil => exact hlisting
    | cons c text =>
      have hm : '\x1b' ∉ (Snippet.Marked.ofSpan (visibleSpan span (c :: text)) (c :: text)).text :=
        fun hmem => hsource (mem_of_mem_ofSpan hmem)
      refine Ink.withoutEscapes_paint palette.snippet ?_
      rw [List.forall_mem_flatMap]
      intro row hrow
      rw [List.forall_mem_append, List.forall_mem_singleton]
      exact ⟨isClean_rows hd hm row hrow, by simp⟩

/-- A range over a tab and a wide character, with two notes and a help. -/
theorem withoutEscapes_render_of_tab_and_wide_character :
    let d : Diagnostic :=
      { level := .warning, message := "[m".toList, span := some ⟨1, 6⟩,
        label := some "here".toList, notes := [['a'], ['b']], help := some ['h'] }
    let source := "1\t+数7".toList
    (∀ text ∈ d.texts, '\x1b' ∉ text) ∧ '\x1b' ∉ source ∧
      '\x1b' ∈ d.render (.both true) ∧
      Ink.withoutEscapes (d.render (.both true)) =
        "warning: [m\n  --> 1..6\n  = note: a\n  = note: b\n  = help: h\n".toList ∧
      '\x1b' ∈ d.renderWith (.both true) source ∧
      Ink.withoutEscapes (d.renderWith (.both true) source) =
        d.renderWith (.both false) source := by
  intro d source
  have hd : ∀ text ∈ d.texts, '\x1b' ∉ text := by decide
  have hsource : '\x1b' ∉ source := by decide
  obtain ⟨hlisting, hdrawing⟩ := withoutEscapes_render d source (.both true) hd hsource
  have hplain : d.render (.both false) =
      "warning: [m\n  --> 1..6\n  = note: a\n  = note: b\n  = help: h\n".toList := by
    decide +kernel
  rw [hplain] at hlisting
  exact ⟨hd, hsource, by decide +kernel, hlisting, by decide +kernel, hdrawing⟩

end Diagnostic

end Abacus
