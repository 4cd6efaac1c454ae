import Abacus.Text.Backspace
/-!
Lines read from a stream of bytes, and what can go wrong with reading.
-/

namespace Abacus

inductive ReadError where
  | notFound
  | isDirectory
  | notDirectory
  | invalidData (reason : List Char)
deriving DecidableEq, Repr

namespace ReadError

/-- The bytes are not the UTF-8 form of any text. -/
def notUtf8 : ReadError :=
  invalidData "stream did not contain valid UTF-8".toList

def message : ReadError → List Char
  | notFound => "No such file or directory (os error 2)".toList
  | isDirectory => "Is a directory (os error 21)".toList
  | notDirectory => "Not a directory (os error 20)".toList
  | invalidData reason => reason

end ReadError

/-- A line, or the failure of the attempt to read it. -/
abbrev Line := Except ReadError (List Char)

namespace Lines

/-- The lines of the bytes, each with the line feed that ends it. The last may have none. -/
def split : List UInt8 → List (List UInt8)
  | [] => []
  | b :: bytes =>
      if b = 0x0A then [b] :: split bytes
      else
        match split bytes with
        | [] => [[b]]
        | line :: lines => (b :: line) :: lines

/-- A line without its line feed and one carriage return before that. -/
def dropEnding (line : List UInt8) : List UInt8 :=
  match line.reverse with
  | 0x0A :: 0x0D :: rest => rest.reverse
  | 0x0A :: rest => rest.reverse
  | _ => line

def decode (line : List UInt8) : Line :=
  match decodeUtf8? (dropEnding line) with
  | some text => .ok text
  | none => .error .notUtf8

def ofBytes (bytes : List UInt8) : List Line :=
  (split bytes).map decode

/-- A line as it is typed at the prompt, where a backspace takes back what was typed before it. -/
def decodeTyped (line : List UInt8) : Line :=
  (decode line).map Backspace.erase

/-- The lines typed at the prompt. -/
def typed (bytes : List UInt8) : List Line :=
  (split bytes).map decodeTyped

end Lines
end Abacus
