import Abacus.Proofs.Letters
import Abacus.Token.Lexer
/-!
The segments of a text.

A text is cut from the left into the longest runs of gaps, the longest runs of digits and points, the
longest words, and single characters. Every text can be cut in exactly one way. What a text means,
and which of its words are written anew, can then be said one segment at a time.
-/

namespace Abacus

/-- What a segment is taken for, before it is known whether it is a token. -/
inductive SegmentKind where
  | gap
  | number
  | word
  | symbol
  | other
deriving DecidableEq, Repr

namespace SegmentKind

/-- The characters that are tokens by themselves. -/
def symbolChars : List Char :=
  "+-*/%^(),".toList

/-- The kind of a segment that starts with the character. -/
def ofChar (c : Char) : SegmentKind :=
  if Token.isGap c then gap
  else if Token.isNumberPart c then number
  else if isWordStart c then word
  else if c ∈ symbolChars then symbol
  else other

/-- Whether a segment of the kind goes on with the character. -/
def goesOnWith : SegmentKind → Char → Bool
  | gap, c => Token.isGap c
  | number, c => Token.isNumberPart c
  | word, c => isWordPart c
  | symbol, _ | other, _ => false

end SegmentKind

structure Segment where
  kind : SegmentKind
  text : List Char
deriving DecidableEq, Repr

/-- The segments written one after the other. -/
def Segment.textOf (segments : List Segment) : List Char :=
  segments.flatMap Segment.text

@[simp] theorem Segment.textOf_nil : textOf [] = [] := rfl

@[simp] theorem Segment.textOf_cons (s : Segment) (segments : List Segment) :
    textOf (s :: segments) = s.text ++ textOf segments := rfl

/-- The text is cut from the left into segments, each of them as long as it can be. -/
inductive Cut : List Char → List Segment → Prop where
  | nil : Cut [] []
  | cons {c : Char} {tail after : List Char} {segments : List Segment}
      (htail : ∀ d ∈ tail, (SegmentKind.ofChar c).goesOnWith d = true)
      (hafter : ∀ d ∈ after.head?, (SegmentKind.ofChar c).goesOnWith d = false)
      (hrest : Cut after segments) :
      Cut (c :: tail ++ after) (⟨.ofChar c, c :: tail⟩ :: segments)

namespace Cut

theorem textOf_eq {text : List Char} {segments : List Segment} (h : Cut text segments) :
    Segment.textOf segments = text := by
  induction h with
  | nil => rfl
  | cons _ _ _ ih => rw [Segment.textOf_cons, ih]

theorem exists_segments (text : List Char) : ∃ segments, Cut text segments := by
  induction hn : text.length using Nat.strong_induction_on generalizing text with
  | _ n ih =>
    subst hn
    cases text with
    | nil => exact ⟨[], .nil⟩
    | cons c rest =>
      have hshort : (rest.dropWhile (SegmentKind.ofChar c).goesOnWith).length < (c :: rest).length :=
        Nat.lt_succ_of_le (List.dropWhile_suffix _).length_le
      obtain ⟨segments, hcut⟩ := ih _ hshort _ rfl
      have hrun : ∀ d ∈ rest.takeWhile (SegmentKind.ofChar c).goesOnWith,
          (SegmentKind.ofChar c).goesOnWith d = true :=
        fun d hd => List.all_eq_true.mp List.all_takeWhile d hd
      have := Cut.cons hrun eq_false_of_mem_head?_dropWhile hcut
      rw [List.cons_append, List.takeWhile_append_dropWhile] at this
      exact ⟨_, this⟩

theorem cons_inv {c : Char} {rest : List Char} {segments : List Segment}
    (h : Cut (c :: rest) segments) :
    ∃ segments', segments =
        ⟨.ofChar c, c :: rest.takeWhile (SegmentKind.ofChar c).goesOnWith⟩ :: segments' ∧
      Cut (rest.dropWhile (SegmentKind.ofChar c).goesOnWith) segments' := by
  generalize htext : c :: rest = text at h
  cases h with
  | nil => contradiction
  | cons htail hafter hrest =>
    rw [List.cons_append] at htext
    obtain ⟨rfl, rfl⟩ := List.cons.inj htext
    obtain ⟨htake, hdrop⟩ := takeWhile_run htail hafter
    rw [htake, hdrop]
    exact ⟨_, rfl, hrest⟩

theorem unique {text : List Char} {segments other : List Segment} (h : Cut text segments)
    (h' : Cut text other) : other = segments := by
  induction h generalizing other with
  | nil =>
    generalize htext : [] = text at h'
    cases h' with
    | nil => rfl
    | cons => contradiction
  | cons htail hafter _ ih =>
    obtain ⟨htake, hdrop⟩ := takeWhile_run htail hafter
    rw [List.cons_append] at h'
    obtain ⟨segments', rfl, hcut⟩ := cons_inv h'
    rw [hdrop] at hcut
    rw [htake, ih hcut]

end Cut
end Abacus
