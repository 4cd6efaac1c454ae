/-!
Texts whose pieces can be painted in colour.

A layout is built once, as a list of pieces; painting decides whether their colours are written.
-/

namespace Abacus

/-- A piece of text, with the parameters of the escape sequence that paints it. -/
structure Ink where
  style : Option (List Char)
  text : List Char
deriving DecidableEq, Repr

namespace Ink

def plain (text : List Char) : Ink :=
  ⟨none, text⟩

def styled (style : String) (text : List Char) : Ink :=
  ⟨some style.toList, text⟩

/-- The escape sequence that switches to a style. -/
def switch (style : List Char) : List Char :=
  '\x1b' :: '[' :: style ++ ['m']

def reset : List Char :=
  switch ['0']

/-- The text in a style; where the text itself resets the style, it is switched on again. -/
def keepStyle (style : List Char) : List Char → List Char
  | '\x1b' :: '[' :: '0' :: 'm' :: text => reset ++ switch style ++ keepStyle style text
  | c :: text => c :: keepStyle style text
  | [] => []

/-- The text as it is written in a style. -/
def inStyle (style text : List Char) : List Char :=
  switch style ++ keepStyle style text ++ reset

def paintPiece (colour : Bool) (piece : Ink) : List Char :=
  match piece.style with
  | some style => if colour then inStyle style piece.text else piece.text
  | none => piece.text

@[simp] theorem paintPiece_plain (colour : Bool) (text : List Char) :
    paintPiece colour (plain text) = text := rfl

@[simp] theorem paintPiece_styled_true (style : String) (text : List Char) :
    paintPiece true (styled style text) = inStyle style.toList text := rfl

@[simp] theorem paintPiece_styled_false (style : String) (text : List Char) :
    paintPiece false (styled style text) = text := rfl

/-- The text of the pieces, with their colours or without. -/
def paint (colour : Bool) (pieces : List Ink) : List Char :=
  pieces.flatMap (paintPiece colour)

theorem paint_nil (colour : Bool) : paint colour [] = [] := rfl

theorem paint_cons (colour : Bool) (piece : Ink) (pieces : List Ink) :
    paint colour (piece :: pieces) = paintPiece colour piece ++ paint colour pieces := rfl

theorem paint_append (colour : Bool) (first second : List Ink) :
    paint colour (first ++ second) = paint colour first ++ paint colour second :=
  List.flatMap_append

/-- What is laid out part by part is painted part by part. -/
theorem paint_flatMap {α : Type} (colour : Bool) (parts : List α) (layout : α → List Ink) :
    paint colour (parts.flatMap layout) = parts.flatMap fun part => paint colour (layout part) :=
  List.flatMap_assoc

theorem paint_false (pieces : List Ink) : paint false pieces = pieces.flatMap text := by
  simp only [paint]
  congr 1
  funext piece
  cases piece with
  | mk style text => cases style <;> rfl

end Ink
end Abacus
