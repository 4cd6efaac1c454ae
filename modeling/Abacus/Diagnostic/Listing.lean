import Abacus.Diagnostic
import Abacus.Text.Ink
/-!
A diagnostic as a list of lines, without the text it is about.

There is one listing in colour and one without. Both are the same layout, painted or not.
-/

namespace Abacus

def Level.name : Level → List Char
  | .error => "error".toList
  | .warning => "warning".toList

def Level.style : Level → String
  | .error => "1;31"
  | .warning => "1;33"

namespace Diagnostic

def rangeText (span : Span) : List Char :=
  natText span.start ++ ['.', '.'] ++ natText span.stop

/-- The listing in colour. -/
def renderColored (d : Diagnostic) : List Char :=
  Ink.inStyle d.level.style.toList d.level.name ++ ": ".toList ++
    Ink.inStyle "1".toList d.message ++ ['\n'] ++
  d.span.toList.flatMap (fun span =>
    "  ".toList ++ Ink.inStyle "1;34".toList "-->".toList ++ " ".toList ++ rangeText span ++
      ['\n']) ++
  d.notes.flatMap (fun note =>
    "  ".toList ++ Ink.inStyle "1;34".toList "=".toList ++ " ".toList ++
      Ink.inStyle "90".toList ("note: ".toList ++ note) ++ ['\n']) ++
  d.help.toList.flatMap (fun help =>
    "  ".toList ++ Ink.inStyle "1;32".toList "=".toList ++ " ".toList ++
      Ink.inStyle "32".toList ("help: ".toList ++ help) ++ ['\n'])

/-- The listing without colours. -/
def renderPlain (d : Diagnostic) : List Char :=
  d.level.name ++ ": ".toList ++ d.message ++ ['\n'] ++
  d.span.toList.flatMap (fun span => "  --> ".toList ++ rangeText span ++ ['\n']) ++
  d.notes.flatMap (fun note => "  = note: ".toList ++ note ++ ['\n']) ++
  d.help.toList.flatMap (fun help => "  = help: ".toList ++ help ++ ['\n'])

/-! ## The layout of both -/

/-- A line under the message: two spaces, a mark, and the text it points out. -/
def item (mark : Ink) (text : Ink) : List Ink :=
  [.plain [' ', ' '], mark, .plain [' '], text, .plain ['\n']]

def listing (d : Diagnostic) : List Ink :=
  [.styled d.level.style d.level.name, .plain [':', ' '], .styled "1" d.message,
    .plain ['\n']] ++
  d.span.toList.flatMap (fun span =>
    item (.styled "1;34" "-->".toList) (.plain (rangeText span))) ++
  d.notes.flatMap (fun note =>
    item (.styled "1;34" ['=']) (.styled "90" ("note: ".toList ++ note))) ++
  d.help.toList.flatMap (fun help =>
    item (.styled "1;32" ['=']) (.styled "32" ("help: ".toList ++ help)))

theorem paint_item (colour : Bool) (mark text : Ink) :
    Ink.paint colour (item mark text) =
      "  ".toList ++ Ink.paintPiece colour mark ++ " ".toList ++ Ink.paintPiece colour text ++
        ['\n'] := by
  simp [item, Ink.paint_cons, Ink.paint_nil]

theorem renderColored_eq_paint (d : Diagnostic) : d.renderColored = Ink.paint true d.listing := by
  simp [renderColored, listing, Ink.paint_append, Ink.paint_flatMap, paint_item, Ink.paint_cons]

theorem renderPlain_eq_paint (d : Diagnostic) : d.renderPlain = Ink.paint false d.listing := by
  simp [renderPlain, listing, Ink.paint_append, Ink.paint_flatMap, paint_item, Ink.paint_cons]

end Diagnostic
end Abacus
