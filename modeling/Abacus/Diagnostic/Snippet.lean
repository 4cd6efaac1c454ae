import Abacus.Diagnostic.Listing
import Abacus.Text.Utf8
import Abacus.Text.Width
/-!
A diagnostic drawn under the line it is about.
-/

namespace Abacus

/-- The part of the text that is drawn for a range: whole characters, and always at least one. -/
def visibleSpan (span : Span) (source : List Char) : Span :=
  let length := byteLength source
  let inside := span.clamp length
  let start := boundaryBefore source inside.start
  let stop := boundaryAfter source inside.stop
  if start < stop then ⟨start, stop⟩
  else if start < length then ⟨start, boundaryAfter source (start + 1)⟩
  else ⟨lastStart source, length⟩

/-! ## Lines -/

def endsLine (c : Char) : Bool :=
  c == '\n' || c == '\r' || c == '\x0b' || c == '\x0c' || c == '\u0085' || c == '\u2028' ||
    c == '\u2029'

/-- The lines of a text, each with the characters that end it. -/
def splitLines : List Char → List (List Char)
  | [] => []
  | '\r' :: '\n' :: text => ['\r', '\n'] :: splitLines text
  | c :: text =>
      if endsLine c then [c] :: splitLines text
      else
        match splitLines text with
        | [] => [[c]]
        | line :: lines => (c :: line) :: lines

/-- A line of a text, its number from 1, and a place in it counted in characters from 0. -/
structure Place where
  line : List Char
  number : Nat
  column : Nat

/-- The line that holds the character `index` of the text with these lines. -/
def findPlace (number index : Nat) : List (List Char) → Place
  | [] => ⟨[], number, index⟩
  | line :: lines =>
      if index < line.length ∨ lines.isEmpty then ⟨line, number, index⟩
      else findPlace (number + 1) (index - line.length) lines

/-! ## The drawing -/

namespace Snippet

/-- A line of the drawing and the range of its characters that is marked. -/
structure Marked where
  text : List Char
  number : Nat
  first : Nat
  stop : Nat

namespace Marked

/-- The mark of a range of the text, on the line where the range starts, even if it goes on. -/
def ofSpan (span : Span) (source : List Char) : Marked :=
  let start := charsBefore source span.start
  let place := findPlace 1 start (splitLines source)
  { text := trimEnd place.line
    number := place.number
    first := place.column
    stop := place.column + (charsBefore source span.stop - start) }

/-- The character from which the label hangs. -/
def middle (m : Marked) : Nat :=
  (m.first + m.stop) / 2

def contains (m : Marked) (column : Nat) : Bool :=
  m.first ≤ column && column < m.stop

/-- The width of a place in the line; behind its text every place has width 1. -/
def width (m : Marked) (column : Nat) : Nat :=
  m.text[column]?.elim 1 (charWidth column)

/-- The characters under which the mark and its arrow are drawn. -/
def columns (m : Marked) : List Nat :=
  List.range (m.stop + 2)

end Marked

def markStyle : String := "31"

def frameStyle : String := "38;5;246"

def marginStyle : String := "38;5;240"

def textStyle : String := "38;5;249"

def titleStyle : String := "38;5;115"

def blanks (n : Nat) : Ink :=
  .plain (List.replicate n ' ')

def strokes (c : Char) (width : Nat) : List Ink :=
  (c :: List.replicate (width - 1) '─').map fun c => .styled markStyle [c]

/-- The marked line itself; each blank is drawn as the spaces it takes. -/
def lineText (m : Marked) : List Ink :=
  m.text.zipIdx.flatMap fun (c, column) =>
    let style := if m.contains column then markStyle else textStyle
    let cells := if isBlank c then List.replicate (charWidth column c) ' ' else [c]
    cells.map fun c => .styled style [c]

/-- The line under the marked range, with the place from which the label hangs. -/
def underline (m : Marked) : List Ink :=
  m.columns.flatMap fun column =>
    if column = m.middle then strokes '┬' (m.width column)
    else if m.contains column then strokes '─' (m.width column)
    else [blanks (m.width column)]

/-- The arrow from the middle of the range to the label on its right. -/
def arrow (m : Marked) : List Ink :=
  m.columns.flatMap fun column =>
    if column < m.middle then [blanks (m.width column)]
    else if column = m.middle then strokes '╰' (m.width column)
    else strokes '─' (m.width column)

def frame (text : String) : Ink :=
  .styled frameStyle text.toList

/-- The left border of a row; `digits` is the width of the line number. -/
def margin (digits : Nat) : List Ink :=
  [.plain [' '], .styled marginStyle (List.replicate (digits + 1) ' ' ++ ['│']), .plain [' ']]

/-- A remark below the drawing, after an empty row. -/
def remark (digits : Nat) (title : String) (text : List Char) : List (List Ink) :=
  [margin digits, margin digits ++ [.styled titleStyle title.toList, .plain (": ".toList ++ text)]]

def title : Level → Ink
  | .error => .styled "31" "Error:".toList
  | .warning => .styled "33" "Warning:".toList

/-- The rows of the drawing. Of several notes only the last is drawn. -/
def rows (d : Diagnostic) (m : Marked) : List (List Ink) :=
  let number := natText m.number
  let digits := number.length
  let indent := blanks (digits + 2)
  [[title d.level, .plain (' ' :: d.message)],
    [indent, frame "╭", frame "─", frame "[",
      .plain ("<unknown>:".toList ++ number ++ ':' :: natText (m.first + 1)), frame "]"],
    [indent, frame "│"],
    [.plain [' '], .styled frameStyle (number ++ [' ', '│']), .plain [' ']] ++ lineText m] ++
  d.label.toList.flatMap (fun label =>
    [margin digits ++ underline m, margin digits ++ arrow m ++ [.plain (' ' :: label)]]) ++
  d.help.toList.flatMap (remark digits "Help") ++
  d.notes.getLast?.toList.flatMap (remark digits "Note") ++
  [[.styled frameStyle (List.replicate (digits + 2) '─' ++ ['╯'])]]

end Snippet

/--
Which of the two forms of a diagnostic are written in colour. They can differ: off a terminal a
listing in colour is written without its escape sequences, and a drawing in colour with them.
-/
structure Palette where
  listing : Bool
  snippet : Bool
deriving DecidableEq, Repr

/-- Both forms in colour, or neither. -/
def Palette.both (colour : Bool) : Palette :=
  ⟨colour, colour⟩

namespace Diagnostic

/-- The diagnostic without the text it is about, in colour or not. -/
def render (palette : Palette) (d : Diagnostic) : List Char :=
  if palette.listing then d.renderColored else d.renderPlain

@[simp] theorem render_both_true (d : Diagnostic) : d.render (.both true) = d.renderColored := rfl

@[simp] theorem render_both_false (d : Diagnostic) : d.render (.both false) = d.renderPlain := rfl

theorem render_eq_paint (palette : Palette) (d : Diagnostic) :
    d.render palette = Ink.paint palette.listing d.listing := by
  rw [render]
  cases palette.listing with
  | false => exact d.renderPlain_eq_paint
  | true => exact d.renderColored_eq_paint

/--
The diagnostic under the text it is about, if it has a place there. A range over several lines is
drawn as if all of it lay on the line where it starts (`Snippet.Marked.ofSpan`), and a character that
has no width, such as a combining mark, takes a column (`charWidth`).
-/
def renderWith (palette : Palette) (d : Diagnostic) (source : List Char) : List Char :=
  match d.span, source with
  | some span, _ :: _ =>
      let m := Snippet.Marked.ofSpan (visibleSpan span source) source
      Ink.paint palette.snippet ((Snippet.rows d m).flatMap fun row => row ++ [.plain ['\n']])
  | _, _ => d.render palette

end Diagnostic
end Abacus
