import Abacus.Diagnostic.Snippet
import Mathlib
/-!
What a diagnostic says and what is seen of it.

The listing shows the message, every note and the help. The drawing under the text shows the
message, the help and the last note: a drawing has a place for one note, and each note takes the
place of the one before. So a diagnostic with at most one note loses nothing, and one with more does.
-/

namespace Abacus

theorem Ink.infix_paint {pieces : List Ink} {piece : Ink} (hpiece : piece ∈ pieces)
    {text : List Char} (h : text <:+: piece.text) : text <:+: paint false pieces := by
  rw [paint_false, List.flatMap_def]
  exact h.trans (List.infix_of_mem_flatten (List.mem_map_of_mem hpiece))

namespace Diagnostic

/-- The message, every note and the help stand somewhere in the output. -/
def IsShownIn (d : Diagnostic) (output : List Char) : Prop :=
  d.message <:+: output ∧ (∀ note ∈ d.notes, note <:+: output) ∧ ∀ help ∈ d.help, help <:+: output

/-- The diagnostic without its notes but the last. -/
def withLastNote (d : Diagnostic) : Diagnostic :=
  { d with notes := d.notes.getLast?.toList }

theorem withLastNote_eq_self {d : Diagnostic} (h : d.notes.length ≤ 1) : d.withLastNote = d := by
  have hnotes : d.notes.getLast?.toList = d.notes := by
    match d.notes, h with
    | [], _ => rfl
    | [note], _ => rfl
  rw [withLastNote, hnotes]

theorem IsShownIn.withLastNote {d : Diagnostic} {output : List Char} (h : d.IsShownIn output) :
    d.withLastNote.IsShownIn output := by
  refine ⟨h.1, fun note hnote => ?_, h.2.2⟩
  exact h.2.1 note (List.mem_of_getLast? (Option.mem_toList.mp hnote))

/-! ## The listing -/

theorem mem_item (mark text : Ink) : text ∈ item mark text := by
  simp [item]

theorem isShownIn_render (d : Diagnostic) : d.IsShownIn (d.render (.both false)) := by
  rw [render_eq_paint]
  refine ⟨?_, fun note hnote => ?_, fun help hhelp => ?_⟩
  · have hmem : Ink.styled "1" d.message ∈ d.listing := by simp [listing]
    exact Ink.infix_paint hmem (List.infix_refl _)
  · have hmem : Ink.styled "90" ("note: ".toList ++ note) ∈ d.listing := by
      refine List.mem_append_left _ (List.mem_append_right _ (List.mem_flatMap.mpr ?_))
      exact ⟨note, hnote, mem_item _ _⟩
    exact Ink.infix_paint hmem (List.suffix_append _ _).isInfix
  · have hmem : Ink.styled "32" ("help: ".toList ++ help) ∈ d.listing := by
      refine List.mem_append_right _ (List.mem_flatMap.mpr ?_)
      exact ⟨help, Option.mem_toList.mpr hhelp, mem_item _ _⟩
    exact Ink.infix_paint hmem (List.suffix_append _ _).isInfix

/-! ## The drawing -/

/-- The rows one below the other. -/
def drawing (d : Diagnostic) (m : Snippet.Marked) : List Char :=
  Ink.paint false ((Snippet.rows d m).flatMap fun row => row ++ [.plain ['\n']])

theorem infix_drawing {d : Diagnostic} {m : Snippet.Marked} {row : List Ink} {piece : Ink}
    (hrow : row ∈ Snippet.rows d m) (hpiece : piece ∈ row) {text : List Char}
    (h : text <:+: piece.text) : text <:+: d.drawing m := by
  have hmem : piece ∈ (Snippet.rows d m).flatMap fun row => row ++ [.plain ['\n']] :=
    List.mem_flatMap.mpr ⟨row, hrow, List.mem_append_left _ hpiece⟩
  exact Ink.infix_paint hmem h

/-- A remark ends with its text. -/
theorem exists_row_of_remark (digits : Nat) (name : String) (text : List Char) :
    ∃ row ∈ Snippet.remark digits name text, ∃ piece ∈ row, text <:+: piece.text :=
  ⟨_, by rw [Snippet.remark]; exact List.mem_cons_of_mem _ List.mem_cons_self,
    .plain (": ".toList ++ text), by simp, (List.suffix_append _ _).isInfix⟩

theorem withLastNote_isShownIn_drawing (d : Diagnostic) (m : Snippet.Marked) :
    d.withLastNote.IsShownIn (d.drawing m) := by
  refine ⟨?_, fun note hnote => ?_, fun help hhelp => ?_⟩
  · have hrow : [Snippet.title d.level, .plain (' ' :: d.message)] ∈ Snippet.rows d m := by
      simp [Snippet.rows]
    exact infix_drawing hrow (List.mem_cons_of_mem _ List.mem_cons_self)
      (List.suffix_cons ' ' d.message).isInfix
  · obtain ⟨row, hrow, piece, hpiece, htext⟩ :=
      exists_row_of_remark (natText m.number).length "Note" note
    have hmem : row ∈ Snippet.rows d m := by
      refine List.mem_append_left _ (List.mem_append_right _ (List.mem_flatMap.mpr ?_))
      exact ⟨note, hnote, hrow⟩
    exact infix_drawing hmem hpiece htext
  · obtain ⟨row, hrow, piece, hpiece, htext⟩ :=
      exists_row_of_remark (natText m.number).length "Help" help
    have hmem : row ∈ Snippet.rows d m := by
      refine List.mem_append_left _ (List.mem_append_left _ (List.mem_append_right _ ?_))
      exact List.mem_flatMap.mpr ⟨help, Option.mem_toList.mpr hhelp, hrow⟩
    exact infix_drawing hmem hpiece htext

/-- A drawing does not depend on the notes before the last. -/
theorem rows_withLastNote (d : Diagnostic) (m : Snippet.Marked) :
    Snippet.rows d.withLastNote m = Snippet.rows d m := by
  have hlast : d.withLastNote.notes.getLast? = d.notes.getLast? := by
    show d.notes.getLast?.toList.getLast? = d.notes.getLast?
    cases d.notes.getLast? <;> rfl
  simp only [Snippet.rows, hlast]
  rfl

theorem renderWith_of_span {d : Diagnostic} {span : Span} (h : d.span = some span)
    {source : List Char} (hsource : source ≠ []) :
    d.renderWith (.both false) source =
      d.drawing (.ofSpan (visibleSpan span source) source) := by
  obtain ⟨c, text, rfl⟩ := List.exists_cons_of_ne_nil hsource
  unfold renderWith
  rw [h]
  rfl

theorem renderWith_of_no_span {d : Diagnostic} (h : d.span = none) (palette : Palette)
    (source : List Char) : d.renderWith palette source = d.render palette := by
  unfold renderWith
  rw [h]

/--
The listing shows all of a diagnostic, and so does the drawing if there is at most one note or no
place to draw at. In any case the drawing shows the message, the help and the last note, and it is
drawn as if this were the only note.
-/
theorem renderWith_shows_last_note (d : Diagnostic) {source : List Char} (h : source ≠ []) :
    let listed := d.render (.both false)
    let drawn := d.renderWith (.both false) source
    d.IsShownIn listed ∧ d.withLastNote.IsShownIn drawn ∧
      (d.span = none ∨ d.notes.length ≤ 1 → d.IsShownIn drawn) ∧
      (d.span ≠ none → drawn = d.withLastNote.renderWith (.both false) source) := by
  intro listed drawn
  have hlisted : d.IsShownIn listed := d.isShownIn_render
  cases hspan : d.span with
  | none =>
    have hdrawn : drawn = listed := renderWith_of_no_span hspan (.both false) source
    rw [hdrawn]
    exact ⟨hlisted, hlisted.withLastNote, fun _ => hlisted, fun hne => absurd rfl hne⟩
  | some span =>
    let m := Snippet.Marked.ofSpan (visibleSpan span source) source
    have hdrawn : drawn = d.drawing m := renderWith_of_span hspan h
    have hspan' : d.withLastNote.span = some span := hspan
    have hlast : d.withLastNote.renderWith (.both false) source = d.withLastNote.drawing m :=
      renderWith_of_span hspan' h
    have hshown : d.withLastNote.IsShownIn drawn := by
      rw [hdrawn]
      exact d.withLastNote_isShownIn_drawing m
    refine ⟨hlisted, hshown, fun hnotes => ?_, fun _ => ?_⟩
    · have hone : d.notes.length ≤ 1 := hnotes.resolve_left (Option.some_ne_none span)
      rwa [withLastNote_eq_self hone] at hshown
    · rw [hdrawn, hlast, drawing, drawing, rows_withLastNote]

/-- One note, which is drawn, and two, of which the first is not. -/
theorem renderWith_shows_last_note_of_two :
    let d : Diagnostic :=
      { level := .error, message := "missing operand".toList, span := some ⟨2, 3⟩,
        notes := ["second remark".toList] }
    let more : Diagnostic := { d with notes := ["first remark".toList, "second remark".toList] }
    let source := "2+".toList
    source ≠ [] ∧ d.notes.length ≤ 1 ∧ d.IsShownIn (d.renderWith (.both false) source) ∧
      more.IsShownIn (more.render (.both false)) ∧ more.span ≠ none ∧
      more.renderWith (.both false) source = d.renderWith (.both false) source := by
  intro d more source
  have hsource : source ≠ [] := by decide
  have hone : d.notes.length ≤ 1 := by decide
  have hspan : more.span ≠ none := Option.some_ne_none _
  obtain ⟨-, -, hshown, -⟩ := renderWith_shows_last_note d hsource
  obtain ⟨hlisted, -, -, hdrawn⟩ := renderWith_shows_last_note more hsource
  exact ⟨hsource, hone, hshown (.inr hone), hlisted, hspan, hdrawn hspan⟩

/-- The first of two notes is in the listing and not in the drawing. -/
theorem not_infix_renderWith_of_first_note :
    let d : Diagnostic :=
      { level := .error, message := "missing operand".toList, span := some ⟨2, 3⟩,
        notes := ["first remark".toList, "second remark".toList] }
    "first remark".toList ∈ d.notes ∧ "first remark".toList <:+: d.render (.both false) ∧
      ¬ "first remark".toList <:+: d.renderWith (.both false) "2+".toList := by
  decide +kernel

end Diagnostic

end Abacus
