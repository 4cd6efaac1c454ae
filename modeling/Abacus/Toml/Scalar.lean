import Abacus.Decimal.Literal
import Abacus.Toml.Text
/-!
The numbers, truth values and times of TOML.

No blank can stand inside them, save the one between a date and a time, so each is first taken
whole and then read.
-/

namespace Abacus
namespace Toml

def isScalarPart (c : Char) : Bool :=
  c.isAlphanum || c == '+' || c == '-' || c == '_' || c == '.' || c == ':'

/-! ## Numbers -/

/-- Digits, with single underscores between them. -/
def isDigitRun (isDigit : Char → Bool) : List Char → Bool
  | [] => false
  | [c] => isDigit c
  | c :: '_' :: rest => isDigit c && isDigitRun isDigit rest
  | c :: rest => isDigit c && isDigitRun isDigit rest

def dropUnderscores (text : List Char) : List Char :=
  text.filter fun c => c != '_'

/-- A digit run in which a zero has no other digit behind it. -/
def isWholePart (text : List Char) : Bool :=
  isDigitRun Char.isDigit text && (text.head? != some '0' || text.length == 1)

/-- Integers have 64 bits. -/
def integer? (n : Int) : Option Value :=
  if -Int.pow 2 63 ≤ n ∧ n < Int.pow 2 63 then some (.integer n) else none

def decimalInteger? (text : List Char) : Option Value :=
  let (negative, digits) := Literal.takeSign text
  if isWholePart digits then
    let n : Int := Nat.ofDigitChars 10 (dropUnderscores digits) 0
    integer? (if negative then -n else n)
  else none

def radixInteger? (base : Nat) (isDigit : Char → Bool) (digits : List Char) : Option Value :=
  if isDigitRun isDigit digits then
    integer? ((dropUnderscores digits).foldl (fun n c => base * n + hexDigitValue c) 0 : Nat)
  else none

/-- Whether the text is the exponent of a number, or empty. -/
def isExponent : List Char → Bool
  | [] => true
  | c :: rest => c.toLower == 'e' && isDigitRun Char.isDigit (Literal.takeSign rest).2

/-- Whether the text is an unsigned number with a fraction or an exponent. -/
def isFloat (text : List Char) : Bool :=
  let isRunPart := fun c : Char => c.isDigit || c == '_'
  let rest := text.dropWhile isRunPart
  isWholePart (text.takeWhile isRunPart) &&
    match rest with
    | '.' :: fraction =>
        isDigitRun Char.isDigit (fraction.takeWhile isRunPart) &&
          isExponent (fraction.dropWhile isRunPart)
    | rest => !rest.isEmpty && isExponent rest

/-- A number with a fraction or an exponent; it must not be too large. -/
def float? (text : List Char) : Option Value :=
  let magnitude := (Literal.takeSign text).2
  if magnitude = "inf".toList ∨ magnitude = "nan".toList then (Literal.read? text).map .float
  else if isFloat magnitude then
    match Literal.read? (dropUnderscores text) with
    | some x => if x = Literal.infinity then none else some (.float x)
    | none => none
  else none

/-! ## Dates and times -/

/-- A number of `count` digits at the start of the text, and the text after it. -/
def digits? (count : Nat) (text : List Char) : Option (Nat × List Char) :=
  let digits := text.take count
  if digits.length = count ∧ digits.all Char.isDigit then
    some (Nat.ofDigitChars 10 digits 0, text.drop count)
  else none

def expect? (c : Char) : List Char → Option (List Char)
  | d :: text => if d = c then some text else none
  | [] => none

def isLeapYear (year : Nat) : Bool :=
  year % 4 == 0 && (year % 100 != 0 || year % 400 == 0)

def daysInMonth (year month : Nat) : Nat :=
  if month = 2 then if isLeapYear year then 29 else 28
  else if month ∈ [4, 6, 9, 11] then 30
  else 31

/-- The text after a date. -/
def date? (text : List Char) : Option (List Char) := do
  let (year, text) ← digits? 4 text
  let (month, text) ← digits? 2 (← expect? '-' text)
  let (day, text) ← digits? 2 (← expect? '-' text)
  if 1 ≤ month ∧ month ≤ 12 ∧ 1 ≤ day ∧ day ≤ daysInMonth year month then some text else none

/-- The text after a time of day; a minute may end with a leap second. -/
def time? (text : List Char) : Option (List Char) := do
  let (hour, text) ← digits? 2 text
  let (minute, text) ← digits? 2 (← expect? ':' text)
  let (second, text) ← digits? 2 (← expect? ':' text)
  if hour ≤ 23 ∧ minute ≤ 59 ∧ second ≤ 60 then
    match text with
    | '.' :: fraction =>
        if (fraction.head?.any Char.isDigit) then some (fraction.dropWhile Char.isDigit) else none
    | text => some text
  else none

/-- Whether the text is the distance of a local time from universal time, or empty. -/
def isOffset : List Char → Bool
  | [] => true
  | ['Z'] => true
  | ['z'] => true
  | sign :: text =>
      (sign == '+' || sign == '-') &&
        match (do
          let (hour, text) ← digits? 2 text
          let (minute, text) ← digits? 2 (← expect? ':' text)
          some (hour, minute, text)) with
        | some (hour, minute, []) => hour ≤ 23 && minute ≤ 59
        | _ => false

def isTimeWithOffset (text : List Char) : Bool :=
  match time? text with
  | some rest => isOffset rest
  | none => false

/-- A date, a time, or both with a mark between them. -/
def datetime? (text : List Char) : Option Value :=
  let valid :=
    match date? text with
    | some [] => true
    | some (mark :: time) => (mark == 'T' || mark == 't' || mark == ' ') && isTimeWithOffset time
    | none => time? text = some []
  if valid then some (.datetime text) else none

/-! ## All of them -/

def scalar? (text : List Char) : Option Value :=
  if text = "true".toList then some (.boolean true)
  else if text = "false".toList then some (.boolean false)
  else
    match text with
    | '0' :: 'x' :: digits => radixInteger? 16 isHexDigit digits
    | '0' :: 'o' :: digits => radixInteger? 8 (fun c => '0' ≤ c && c ≤ '7') digits
    | '0' :: 'b' :: digits => radixInteger? 2 (fun c => c == '0' || c == '1') digits
    | _ => (datetime? text).or ((float? text).or (decimalInteger? text))

/-- The time that follows a date after a blank, if there is one. -/
def timeAfterDate (date rest : List Char) : List Char :=
  match rest with
  | ' ' :: rest =>
      let time := rest.takeWhile isScalarPart
      if date? date = some [] ∧ isTimeWithOffset time then ' ' :: time else []
  | _ => []

def scalar (text : List Char) : Read Value :=
  let first := text.takeWhile isScalarPart
  let rest := text.dropWhile isScalarPart
  let time := timeAfterDate first rest
  match scalar? (first ++ time) with
  | some value => .ok (value, rest.drop time.length)
  | none => if first.isEmpty then .error (.unexpected text) else .error (.invalidScalar first)

end Toml
end Abacus
