import Abacus.Span
/-!
Positions in a text counted in the bytes of its UTF-8 form.
-/

namespace Abacus

/-- The number of bytes of the text. -/
def byteLength (text : List Char) : Nat :=
  text.foldr (fun c length => c.utf8Size + length) 0

@[simp] theorem byteLength_nil : byteLength [] = 0 := rfl

@[simp] theorem byteLength_cons (c : Char) (text : List Char) :
    byteLength (c :: text) = c.utf8Size + byteLength text := rfl

@[simp] theorem byteLength_append (a b : List Char) :
    byteLength (a ++ b) = byteLength a + byteLength b := by
  induction a with
  | nil => simp
  | cons c a ih => rw [List.cons_append, byteLength_cons, byteLength_cons, ih, Nat.add_assoc]

/-- The text before byte `index` and the text from there on; none inside a character or past the end. -/
def splitAtByte? : List Char → Nat → Option (List Char × List Char)
  | text, 0 => some ([], text)
  | [], _ + 1 => none
  | c :: text, index + 1 =>
      if c.utf8Size ≤ index + 1 then
        (splitAtByte? text (index + 1 - c.utf8Size)).map fun (before, after) => (c :: before, after)
      else none

theorem eq_append_of_splitAtByte? {text before after : List Char} {index : Nat}
    (h : splitAtByte? text index = some (before, after)) :
    text = before ++ after ∧ byteLength before = index := by
  fun_induction splitAtByte? text index generalizing before after with
  | case1 text =>
    cases h
    exact ⟨rfl, rfl⟩
  | case2 index => contradiction
  | case3 c text index hc ih =>
    obtain ⟨⟨front, rest⟩, hsplit, heq⟩ := Option.map_eq_some_iff.1 h
    cases heq
    obtain ⟨rfl, hlength⟩ := ih hsplit
    refine ⟨rfl, ?_⟩
    rw [byteLength_cons, hlength]
    omega
  | case4 c text index hc => contradiction

/-- The greatest character boundary that is not after byte `index`. -/
def boundaryBefore : List Char → Nat → Nat
  | [], _ => 0
  | c :: text, index =>
      if c.utf8Size ≤ index then c.utf8Size + boundaryBefore text (index - c.utf8Size) else 0

/-- The least character boundary that is not before byte `index`, or the end of the text. -/
def boundaryAfter : List Char → Nat → Nat
  | [], _ => 0
  | _ :: _, 0 => 0
  | c :: text, index => c.utf8Size + boundaryAfter text (index - c.utf8Size)

/-- The byte at which the last character of the text starts. -/
def lastStart (text : List Char) : Nat :=
  byteLength text.dropLast

/-- How many characters of the text start before byte `index`. -/
def charsBefore : List Char → Nat → Nat
  | [], _ => 0
  | _ :: _, 0 => 0
  | c :: text, index => 1 + charsBefore text (index - c.utf8Size)

/--
The characters that UTF-8 reads from the bytes, if they are well-formed.
-/
def decodeUtf8? (bytes : List UInt8) : Option (List Char) :=
  (ByteArray.utf8Decode? ⟨bytes.toArray⟩).map Array.toList

end Abacus
