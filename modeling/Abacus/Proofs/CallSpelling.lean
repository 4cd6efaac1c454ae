import Abacus.Proofs.BracketLanguage
import Abacus.Proofs.Segments
/-!
The normal form of a text, segment by segment.

A word is written in small letters if it names a function, in capitals or not, and a bracket follows
that is closed somewhere in the text. Every other segment is left as it is.
-/

namespace Abacus

open CallNames

/-- The text starts with a bracket that is closed in it: the brackets in between are paired. -/
def StartsPair (text : List Char) : Prop :=
  ∃ body rest, text = '(' :: (body ++ ')' :: rest) ∧ Paired (brackets body)

theorem opensCall_iff_startsPair {text : List Char} : opensCall text = true ↔ StartsPair text := by
  simp only [opensCall_eq_true_iff, isBalanced_iff_paired]
  rfl

/-! ## Words -/

namespace SegmentKind

theorem isWordStart_of_ofChar {c : Char} (h : ofChar c = word) : isWordStart c = true := by
  unfold ofChar at h
  split at h
  · contradiction
  · split at h
    · contradiction
    · split at h
      · assumption
      · split at h <;> contradiction

theorem isWordStart_of_isNumberPart {c : Char} (h : Token.isNumberPart c = true) :
    isWordStart c = false := by
  have hall : ∀ c ∈ "0123456789.".toList, isWordStart c = false := forall_mem_of_all (by decide)
  exact hall c (Token.mem_of_isNumberPart h)

theorem ofChar_of_isWordStart {c : Char} (h : isWordStart c = true) : ofChar c = word := by
  have hgap : ¬ Token.isGap c = true := by
    intro hgap
    rw [Token.isWordStart_of_isGap hgap] at h
    contradiction
  have hnumber : ¬ Token.isNumberPart c = true := by
    intro hnumber
    rw [isWordStart_of_isNumberPart hnumber] at h
    contradiction
  rw [ofChar, if_neg hgap, if_neg hnumber, if_pos h]

/-- No word starts inside a segment that is not a word. -/
theorem isWordStart_of_goesOnWith {kind : SegmentKind} (hkind : kind ≠ word) {c : Char}
    (h : kind.goesOnWith c = true) : isWordStart c = false := by
  cases kind with
  | gap => exact Token.isWordStart_of_isGap h
  | number => exact isWordStart_of_isNumberPart h
  | word => contradiction
  | symbol | other => contradiction

end SegmentKind

/-! ## The names of calls -/

namespace Segment

/-- The segment is a function's name, in capitals or not, before a bracket that is closed. -/
def IsCallName (s : Segment) (after : List Char) : Prop :=
  s.kind = .word ∧ (∃ f : Function, sameLetters s.text f.name = true) ∧ StartsPair after

theorem isSome_ofNameAnyCase?_iff {word : List Char} :
    (Function.ofNameAnyCase? word).isSome = true ↔
      ∃ f : Function, sameLetters word f.name = true := by
  simp only [Option.isSome_iff_exists, ofNameAnyCase?_eq_some_iff]

instance (s : Segment) (after : List Char) : Decidable (s.IsCallName after) :=
  decidable_of_iff
    (s.kind = .word ∧ (Function.ofNameAnyCase? s.text).isSome = true ∧ opensCall after = true)
    (and_congr_right' (and_congr isSome_ofNameAnyCase?_iff opensCall_iff_startsPair))

/-- The segments in order, the names of calls in small letters. -/
def spelled : List Segment → List Char
  | [] => []
  | s :: segments =>
      (if s.IsCallName (textOf segments) then s.text.map Char.toLower else s.text) ++
        spelled segments

theorem map_toLower_name (f : Function) : f.name.map Char.toLower = f.name := by
  cases f <;> decide

/-- A word is written as the segment that it is. -/
theorem spelling_eq (word after : List Char) :
    spelling word after =
      if IsCallName ⟨.word, word⟩ after then word.map Char.toLower else word := by
  by_cases hcall : IsCallName ⟨.word, word⟩ after
  · obtain ⟨_, ⟨f, hf⟩, hafter⟩ := id hcall
    rw [if_pos hcall, spelling, if_pos (opensCall_iff_startsPair.mpr hafter),
      ofNameAnyCase?_eq_some_iff.mpr hf, sameLetters_iff.mp hf, map_toLower_name]
    rfl
  · rw [if_neg hcall, spelling]
    by_cases hafter : opensCall after = true
    · cases hf : Function.ofNameAnyCase? word with
      | none => exact ite_self _
      | some f =>
        have hname := ofNameAnyCase?_eq_some_iff.mp hf
        exact absurd ⟨rfl, ⟨f, hname⟩, opensCall_iff_startsPair.mp hafter⟩ hcall
    · rw [if_neg hafter]

end Segment

namespace Cut

open SegmentKind (ofChar)

/-- One pass over the text, character by character and word by word, is one over its segments. -/
theorem lowerNames_eq {text : List Char} {segments : List Segment} (h : Cut text segments) :
    lowerNames text = Segment.spelled segments := by
  induction h with
  | nil =>
    rw [lowerNames]
    rfl
  | @cons c tail after segments htail hafter hrest ih =>
    rw [Segment.spelled, hrest.textOf_eq, ← ih]
    by_cases hword : ofChar c = .word
    · rw [hword] at htail hafter ⊢
      rw [lowerNames_word (SegmentKind.isWordStart_of_ofChar hword) htail hafter,
        Segment.spelling_eq]
    · have hplain : ∀ d ∈ c :: tail, isWordStart d = false := by
        refine List.forall_mem_cons.mpr ⟨?_, fun d hd => ?_⟩
        · exact Bool.eq_false_iff.mpr fun hc => hword (SegmentKind.ofChar_of_isWordStart hc)
        · exact SegmentKind.isWordStart_of_goesOnWith hword (htail d hd)
      rw [lowerNames_append_of_forall hplain, if_neg fun hcall => hword hcall.1]

/-- The outer call is incomplete, the inner one is not. -/
example :
    Segment.spelled [⟨.word, "SQRT".toList⟩, ⟨.symbol, ['(']⟩, ⟨.word, "Abs".toList⟩,
      ⟨.symbol, ['(']⟩, ⟨.number, ['2']⟩, ⟨.symbol, [')']⟩] = "SQRT(abs(2)".toList := by
  decide

end Cut

/-! ## Arguments -/

namespace CallNames

/-- The arguments between the commas of a balanced text can be rewritten one by one. -/
theorem intercalate_map_lowerCalls {body : List Char} (h : isBalanced body = true) :
    [','].intercalate ((splitCommas 0 body).map lowerCalls) = lowerCalls body := by
  have hpieces : ∀ p ∈ splitCommas 0 body, isBalanced p = true :=
    fun p hp => isBalanced_of_mem_splitCommas h hp
  rw [funext lowerCalls_eq_lowerNames, ← lowerNames_intercalate hpieces, intercalate_splitCommas]

end CallNames

namespace Normalized

/--
The normal form is the text without its blanks, with the names of calls in small letters and nothing
else changed. Cutting a balanced text at the commas outside all brackets and rewriting the pieces
is rewriting the text.
-/
theorem text_of_segments (typed : List Char) :
    (∃ segments, Cut (withoutBlanks typed) segments ∧
      (∀ other, Cut (withoutBlanks typed) other → other = segments) ∧
      (ofText typed).text = Segment.spelled segments) ∧
    ∀ body, Paired (brackets body) →
      [','].intercalate (splitCommas 0 body) = body ∧
        [','].intercalate ((splitCommas 0 body).map lowerCalls) = lowerCalls body := by
  constructor
  · obtain ⟨segments, hcut⟩ := Cut.exists_segments (withoutBlanks typed)
    refine ⟨segments, hcut, fun other hother => hcut.unique hother, ?_⟩
    calc (ofText typed).text
      _ = lowerCalls (withoutBlanks typed) := rfl
      _ = lowerNames (withoutBlanks typed) := lowerCalls_eq_lowerNames _
      _ = Segment.spelled segments := hcut.lowerNames_eq
  · intro body hbody
    have hbalanced := (isBalanced_iff_paired body).mpr hbody
    exact ⟨intercalate_splitCommas 0 body, intercalate_map_lowerCalls hbalanced⟩

end Normalized
end Abacus
