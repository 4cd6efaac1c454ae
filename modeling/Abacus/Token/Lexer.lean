import Abacus.Failure
import Abacus.Text.Utf8
import Abacus.Text.Word
/-!
Cutting a text into tokens.

The text is cut from the left into the longest runs of digits and points, the longest words, and
single characters; gaps between them are skipped. The first piece that is no token is the error.
-/

namespace Abacus
namespace Token

/-- The characters that may separate tokens. -/
def isGap (c : Char) : Bool :=
  c == ' ' || c == '\t' || c == '\r' || c == '\n' || c == '\x0c'

def isNumberPart (c : Char) : Bool :=
  c.isDigit || c == '.'

/-- Whether a run of digits and points has at most one point and a digit at each end. -/
def isNumber (piece : List Char) : Bool :=
  piece.head? != some '.' && piece.getLast? != some '.' && piece.count '.' ≤ 1

/-- A piece of the text with what it means, and the text after it. -/
structure Piece where
  text : List Char
  meaning : Except LexFault Token
  after : List Char

/-- The piece that a text starts with; its first character is no gap. -/
def firstPiece (c : Char) (rest : List Char) : Piece :=
  if isNumberPart c then
    let text := c :: rest.takeWhile isNumberPart
    { text
      meaning := if isNumber text then .ok (number text) else .error .malformedNumber
      after := rest.dropWhile isNumberPart }
  else if isWordStart c then
    let text := c :: rest.takeWhile isWordPart
    { text
      meaning := match Function.ofName? text with
        | some f => .ok (function f)
        | none => .error .unknownFunction
      after := rest.dropWhile isWordPart }
  else
    { text := [c]
      meaning := match ofSymbol? c with
        | some token => .ok token
        | none => .error .unknownCharacter
      after := rest }

theorem text_append_after (c : Char) (rest : List Char) :
    (firstPiece c rest).text ++ (firstPiece c rest).after = c :: rest := by
  unfold firstPiece
  split
  · simp
  · split
    · simp
    · simp

theorem length_after_le (c : Char) (rest : List Char) :
    (firstPiece c rest).after.length ≤ rest.length := by
  unfold firstPiece
  split
  · exact (List.dropWhile_suffix isNumberPart).length_le
  · split
    · exact (List.dropWhile_suffix isWordPart).length_le
    · exact Nat.le_refl _

/-- The tokens of a text that starts at byte `offset`. -/
def lexFrom (offset : Nat) (text : List Char) : Except LexError (List Lexeme) :=
  match text with
  | [] => .ok []
  | c :: rest =>
      if isGap c then lexFrom (offset + c.utf8Size) rest
      else
        let piece := firstPiece c rest
        let span : Span := ⟨offset, offset + byteLength piece.text⟩
        match piece.meaning with
        | .error fault => .error ⟨fault, piece.text, span⟩
        | .ok token => (lexFrom span.stop piece.after).map (⟨token, span⟩ :: ·)
termination_by text.length
decreasing_by
  · exact Nat.lt_succ_self _
  · exact Nat.lt_succ_of_le (length_after_le c rest)

def lex (text : List Char) : Except LexError (List Lexeme) :=
  lexFrom 0 text

end Token
end Abacus
