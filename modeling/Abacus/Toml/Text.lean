import Abacus.Toml.Value
/-!
The blanks, comments, strings and keys of TOML.
-/

namespace Abacus
namespace Toml

/-- The characters of comments and strings, quotes and backslashes aside: no control characters but the tab. -/
def isPlain (c : Char) : Bool :=
  c == '\t' || (0x20 ≤ c.toNat && c.toNat != 0x7F)

def isSpace (c : Char) : Bool :=
  c == ' ' || c == '\t'

def skipSpaces (text : List Char) : List Char :=
  text.dropWhile isSpace

/-- What follows the line break at the start of the text. -/
def lineBreak? : List Char → Option (List Char)
  | '\n' :: text => some text
  | '\r' :: '\n' :: text => some text
  | _ => none

def skipComment : List Char → List Char
  | '#' :: text => text.dropWhile isPlain
  | text => text

/-- What follows the line, on which nothing but blanks and a comment may still stand. -/
def endLine (text : List Char) : Except Error (List Char) :=
  match skipComment (skipSpaces text) with
  | [] => .ok []
  | rest =>
      match lineBreak? rest with
      | some rest => .ok rest
      | none => .error (.unexpected rest)

/-- What follows the blanks, line breaks and comments at the start of the text. -/
def skipFiller : Nat → List Char → List Char
  | 0, text => text
  | fuel + 1, text =>
      let rest := skipComment (skipSpaces text)
      match lineBreak? rest with
      | some rest => skipFiller fuel rest
      | none => rest

/-! ## Strings -/

def isHexDigit (c : Char) : Bool :=
  c.isDigit || ('a' ≤ c && c ≤ 'f') || ('A' ≤ c && c ≤ 'F')

def hexDigitValue (c : Char) : Nat :=
  if c.isDigit then c.toNat - '0'.toNat else c.toLower.toNat - 'a'.toNat + 10

/-- The character of which the digits are the code point. -/
def ofCodePoint? (digits : List Char) : Option Char :=
  if digits.all isHexDigit then
    let n := digits.foldl (fun n c => 16 * n + hexDigitValue c) 0
    if n.isValidChar then some (Char.ofNat n) else none
  else none

/-- The character after a backslash, for the escapes of one letter. -/
def shortEscape? : Char → Option Char
  | 'b' => some '\x08'
  | 't' => some '\t'
  | 'n' => some '\n'
  | 'f' => some '\x0c'
  | 'r' => some '\r'
  | '"' => some '"'
  | '\\' => some '\\'
  | _ => none

/-- The character that the text after a backslash stands for, and the text after it. -/
def escape? : List Char → Option (Char × List Char)
  | 'u' :: a :: b :: c :: d :: text => (ofCodePoint? [a, b, c, d]).map (·, text)
  | 'U' :: a :: b :: c :: d :: e :: f :: g :: h :: text =>
      (ofCodePoint? [a, b, c, d, e, f, g, h]).map (·, text)
  | c :: text => (shortEscape? c).map (·, text)
  | [] => none

/-- What is read from the start of a text, and the text after it. -/
abbrev Read (α : Type) := Except Error (α × List Char)

def prepend (c : Char) (read : Read (List Char)) : Read (List Char) :=
  read.map fun (text, rest) => (c :: text, rest)

/-- The rest of a string in double quotes. -/
def basicString : Nat → List Char → Read (List Char)
  | 0, _ => .error .unterminatedString
  | fuel + 1, text =>
      match text with
      | '"' :: rest => .ok ([], rest)
      | '\\' :: rest =>
          match escape? rest with
          | some (c, rest) => prepend c (basicString fuel rest)
          | none => .error .invalidEscape
      | c :: rest => if isPlain c then prepend c (basicString fuel rest) else .error (.unexpected text)
      | [] => .error .unterminatedString

/-- The rest of a string in single quotes. -/
def literalString : List Char → Read (List Char)
  | '\'' :: rest => .ok ([], rest)
  | c :: rest => if isPlain c then prepend c (literalString rest) else .error (.unexpected (c :: rest))
  | [] => .error .unterminatedString

/-- Up to two quotes may stand before the three that end a string of several lines. -/
def closingQuotes? (quote : Char) : List Char → Option (List Char × List Char)
  | a :: b :: c :: rest =>
      if a = quote ∧ b = quote ∧ c = quote then
        let extra := (rest.takeWhile (· == quote)).take 2
        some (extra, rest.drop extra.length)
      else none
  | _ => none

/-- What follows a backslash at the end of a line: the text after all blanks and line breaks. -/
def continuation? (text : List Char) : Option (List Char) :=
  (lineBreak? (skipSpaces text)).map (skip text.length)
where
  skip : Nat → List Char → List Char
    | 0, text => text
    | fuel + 1, text =>
        match lineBreak? (skipSpaces text) with
        | some rest => skip fuel rest
        | none => skipSpaces text

/-- The rest of a string in three double quotes. -/
def longBasicString : Nat → List Char → Read (List Char)
  | 0, _ => .error .unterminatedString
  | fuel + 1, text =>
      match closingQuotes? '"' text, lineBreak? text, text with
      | some closed, _, _ => .ok closed
      | none, some rest, _ => prepend '\n' (longBasicString fuel rest)
      | none, none, '\\' :: rest =>
          match continuation? rest with
          | some rest => longBasicString fuel rest
          | none =>
              match escape? rest with
              | some (c, rest) => prepend c (longBasicString fuel rest)
              | none => .error .invalidEscape
      | none, none, c :: rest =>
          if isPlain c then prepend c (longBasicString fuel rest) else .error (.unexpected text)
      | none, none, [] => .error .unterminatedString

/-- The rest of a string in three single quotes. -/
def longLiteralString : Nat → List Char → Read (List Char)
  | 0, _ => .error .unterminatedString
  | fuel + 1, text =>
      match closingQuotes? '\'' text, lineBreak? text, text with
      | some closed, _, _ => .ok closed
      | none, some rest, _ => prepend '\n' (longLiteralString fuel rest)
      | none, none, c :: rest =>
          if isPlain c then prepend c (longLiteralString fuel rest) else .error (.unexpected text)
      | none, none, [] => .error .unterminatedString

/-- A line break right after the opening quotes does not belong to the string. -/
def dropFirstBreak (text : List Char) : List Char :=
  (lineBreak? text).getD text

/-- The string that the text starts with, if it starts with a quote. -/
def string? (text : List Char) : Option (Read (List Char)) :=
  match text with
  | '"' :: '"' :: '"' :: rest => some (longBasicString text.length (dropFirstBreak rest))
  | '\'' :: '\'' :: '\'' :: rest => some (longLiteralString text.length (dropFirstBreak rest))
  | '"' :: rest => some (basicString text.length rest)
  | '\'' :: rest => some (literalString rest)
  | _ => none

/-! ## Keys -/

def isBareKey (c : Char) : Bool :=
  c.isAlphanum || c == '_' || c == '-'

/-- The key that the text starts with; it has one line. -/
def simpleKey (text : List Char) : Read (List Char) :=
  match text with
  | '"' :: rest => basicString text.length rest
  | '\'' :: rest => literalString rest
  | _ =>
      let key := text.takeWhile isBareKey
      if key.isEmpty then .error (.unexpected text) else .ok (key, text.dropWhile isBareKey)

/-- No value and no key may be nested as deep as this. -/
def depthLimit : Nat := 80

/-- Keys joined by points, with blanks around each of them. -/
def keyPath : Nat → List Char → Except Error (List (List Char) × List Char)
  | 0, _ => .error .nestedTooDeep
  | fuel + 1, text => do
      let (key, rest) ← simpleKey (skipSpaces text)
      match skipSpaces rest with
      | '.' :: rest =>
          let (keys, rest) ← keyPath fuel rest
          .ok (key :: keys, rest)
      | rest => .ok ([key], rest)

def key (text : List Char) : Read (List (List Char)) :=
  keyPath (depthLimit - 1) text

end Toml
end Abacus
