import Abacus.Function
import Abacus.Text.Word
/-!
Calls as they are typed, and the spelling of their function names.

A call is a word that names a function in any case, followed at once by a bracket that is closed
somewhere in the text. `lowerCalls` writes the name of each call in small letters; the arguments
are treated on their own, those of `power` one by one.
-/

namespace Abacus
namespace CallNames

/-- The text up to the bracket that closes `depth` open ones and the one before it, and the text after it. -/
def closing? : Nat → List Char → Option (List Char × List Char)
  | _, [] => none
  | depth, '(' :: text => (closing? (depth + 1) text).map fun (body, rest) => ('(' :: body, rest)
  | 0, ')' :: text => some ([], text)
  | depth + 1, ')' :: text => (closing? depth text).map fun (body, rest) => (')' :: body, rest)
  | depth, c :: text => (closing? depth text).map fun (body, rest) => (c :: body, rest)

theorem eq_of_closing? {depth : Nat} {text body rest : List Char}
    (h : closing? depth text = some (body, rest)) : text = body ++ ')' :: rest := by
  fun_induction closing? depth text generalizing body rest with
  | case1 depth => contradiction
  | case3 text =>
    cases h
    rfl
  -- Every other character goes before what is found behind it.
  | case2 depth text ih | case4 depth text ih | case5 depth c text hopen hclose hclose' ih =>
    obtain ⟨⟨inner, after⟩, hinner, heq⟩ := Option.map_eq_some_iff.1 h
    cases heq
    rw [ih hinner, List.cons_append]

theorem length_lt_of_closing? {depth : Nat} {text body rest : List Char}
    (h : closing? depth text = some (body, rest)) :
    body.length < text.length ∧ rest.length < text.length := by
  rw [eq_of_closing? h, List.length_append, List.length_cons]
  omega

/-- The brackets that are open after a character; one that closes nothing is passed over. -/
def depthAfter (depth : Nat) (c : Char) : Nat :=
  if c = '(' then depth + 1 else if c = ')' then depth - 1 else depth

/-- The pieces between the commas that stand outside all brackets. -/
def splitCommas : Nat → List Char → List (List Char)
  | _, [] => [[]]
  | depth, c :: text =>
      if depth = 0 ∧ c = ',' then [] :: splitCommas 0 text
      else
        match splitCommas (depthAfter depth c) text with
        | [] => [[c]]
        | piece :: pieces => (c :: piece) :: pieces

theorem length_le_of_mem_splitCommas {depth : Nat} {text piece : List Char}
    (h : piece ∈ splitCommas depth text) : piece.length ≤ text.length := by
  fun_induction splitCommas depth text generalizing piece with
  | case1 depth => exact Nat.le_of_eq (congrArg List.length (List.mem_singleton.1 h))
  | case2 depth c text hcut ih =>
    rcases List.mem_cons.1 h with rfl | h
    · exact Nat.zero_le _
    · exact Nat.le_succ_of_le (ih h)
  | case3 depth c text hcut hnil ih =>
    rw [List.mem_singleton.1 h]
    exact Nat.succ_le_succ (Nat.zero_le _)
  | case4 depth c text hcut first pieces hcons ih =>
    rw [hcons] at ih
    rcases List.mem_cons.1 h with rfl | h
    · exact Nat.succ_le_succ (ih List.mem_cons_self)
    · exact Nat.le_succ_of_le (ih (List.mem_cons_of_mem first h))

/-- A call in the text after which `rest` follows. -/
structure Call where
  function : Function
  arguments : List (List Char)
  rest : List Char

/-- The call that a word and the text after it begin with. -/
def call? (word after : List Char) : Option Call :=
  match Function.ofNameAnyCase? word, after with
  | some .power, '(' :: text =>
      (closing? 0 text).map fun (body, rest) => ⟨.power, splitCommas 0 body, rest⟩
  | some function, '(' :: text =>
      (closing? 0 text).map fun (body, rest) => ⟨function, [body], rest⟩
  | _, _ => none

/-- A call leaves less than the text after its word: the brackets are gone. -/
theorem length_lt_of_call? {word after : List Char} {call : Call} (h : call? word after = some call) :
    call.rest.length < after.length ∧ ∀ a ∈ call.arguments, a.length < after.length := by
  unfold call? at h
  split at h
  · obtain ⟨⟨body, rest⟩, hbody, rfl⟩ := Option.map_eq_some_iff.1 h
    obtain ⟨hinside, hafter⟩ := length_lt_of_closing? hbody
    refine ⟨Nat.lt_succ_of_lt hafter, fun a ha => ?_⟩
    exact Nat.lt_succ_of_lt (Nat.lt_of_le_of_lt (length_le_of_mem_splitCommas ha) hinside)
  · obtain ⟨⟨body, rest⟩, hbody, rfl⟩ := Option.map_eq_some_iff.1 h
    obtain ⟨hinside, hafter⟩ := length_lt_of_closing? hbody
    refine ⟨Nat.lt_succ_of_lt hafter, fun a ha => ?_⟩
    rw [List.mem_singleton.1 ha]
    exact Nat.lt_succ_of_lt hinside
  · contradiction

/-- The text with the function names of its calls in small letters. -/
def lowerCalls (text : List Char) : List Char :=
  match text with
  | [] => []
  | c :: tail =>
      if isWordStart c then
        let word := c :: tail.takeWhile isWordPart
        let after := tail.dropWhile isWordPart
        match _ : call? word after with
        | some call =>
            let arguments := call.arguments.attach.map fun ⟨argument, _⟩ => lowerCalls argument
            call.function.name ++ '(' :: [','].intercalate arguments ++ ')' :: lowerCalls call.rest
        | none => word ++ lowerCalls after
      else c :: lowerCalls tail
termination_by text.length
decreasing_by
  · have := (length_lt_of_call? ‹_ = some call›).2 argument ‹_›
    have : after.length ≤ tail.length := (List.dropWhile_suffix isWordPart).length_le
    simp only [List.length_cons]
    omega
  · have := (length_lt_of_call? ‹_ = some call›).1
    have : after.length ≤ tail.length := (List.dropWhile_suffix isWordPart).length_le
    simp only [List.length_cons]
    omega
  · exact Nat.lt_succ_of_le (List.dropWhile_suffix isWordPart).length_le
  · exact Nat.lt_succ_self _

end CallNames
end Abacus
