import Abacus.Proofs.Brackets
import Abacus.Proofs.Letters
/-!
The spelling of calls, without recursion into arguments.

`lowerNames` passes over the text once, word by word. It writes a function's name in small letters if
a bracket follows that is closed somewhere, and leaves everything else as it is. `lowerCalls` does
the same: the arguments of a call are balanced, so nothing outside of them decides about a name
inside.
-/

namespace Abacus
namespace CallNames

/-- Whether the text starts with a bracket that is closed in it. -/
def opensCall : List Char → Bool
  | '(' :: text => (closing? 0 text).isSome
  | _ => false

/-- How a word is written before the text that follows it. -/
def spelling (word after : List Char) : List Char :=
  if opensCall after then (Function.ofNameAnyCase? word).elim word Function.name else word

/-- The text with the function names of its calls in small letters. -/
def lowerNames (text : List Char) : List Char :=
  match text with
  | [] => []
  | c :: tail =>
      if isWordStart c then
        spelling (c :: tail.takeWhile isWordPart) (tail.dropWhile isWordPart) ++
          lowerNames (tail.dropWhile isWordPart)
      else c :: lowerNames tail
termination_by text.length
decreasing_by
  · exact Nat.lt_succ_of_le (List.dropWhile_suffix isWordPart).length_le
  · exact Nat.lt_succ_self _

/-! ## Calls -/

theorem ofNameAnyCase?_eq_some_iff {word : List Char} {f : Function} :
    Function.ofNameAnyCase? word = some f ↔ sameLetters word f.name = true := by
  constructor
  · intro h
    exact sameLetters_symm (List.find?_some (p := fun g : Function => sameLetters g.name word) h)
  · intro h
    -- The names of two functions differ in more than capitals.
    have hnames : ∀ f g : Function, sameLetters f.name g.name = true → f = g := by
      intro f g
      cases f <;> cases g <;> decide
    cases hfind : Function.ofNameAnyCase? word with
    | none =>
      have := List.find?_eq_none.mp hfind f f.mem_all
      exact absurd (sameLetters_symm h) this
    | some g =>
      have hg := List.find?_some (p := fun g : Function => sameLetters g.name word) hfind
      rw [hnames g f (sameLetters_trans hg h)]

theorem opensCall_eq_true_iff {after : List Char} :
    opensCall after = true ↔
      ∃ body rest, after = '(' :: (body ++ ')' :: rest) ∧ isBalanced body = true := by
  constructor
  · intro h
    cases after with
    | nil => contradiction
    | cons c text =>
      by_cases hc : c = '('
      · subst hc
        rw [opensCall] at h
        obtain ⟨⟨body, rest⟩, hbody⟩ := Option.isSome_iff_exists.mp h
        exact ⟨body, rest, by rw [eq_of_closing? hbody], closesFrom_of_closing? hbody⟩
      · rw [opensCall] at h
        · contradiction
        · intro text heq
          exact hc (List.cons.inj heq).1
  · rintro ⟨body, rest, rfl, hbody⟩
    rw [opensCall, closing?_balanced hbody]
    rfl

/-- The arguments of a call are balanced, and with commas between them they are the text inside. -/
theorem call?_eq_some {word after : List Char} {call : Call} (h : call? word after = some call) :
    sameLetters word call.function.name = true ∧
      after = '(' :: ([','].intercalate call.arguments ++ ')' :: call.rest) ∧
      isBalanced ([','].intercalate call.arguments) = true ∧
      ∀ a ∈ call.arguments, isBalanced a = true := by
  unfold call? at h
  split at h
  · rename_i hf
    obtain ⟨⟨body, rest⟩, hbody, rfl⟩ := Option.map_eq_some_iff.mp h
    have hbalanced : isBalanced body = true := closesFrom_of_closing? hbody
    refine ⟨ofNameAnyCase?_eq_some_iff.mp hf, ?_, ?_, ?_⟩
    · rw [intercalate_splitCommas, eq_of_closing? hbody]
    · rwa [intercalate_splitCommas]
    · exact fun a ha => isBalanced_of_mem_splitCommas hbalanced ha
  · rename_i hf
    obtain ⟨⟨body, rest⟩, hbody, rfl⟩ := Option.map_eq_some_iff.mp h
    have hbalanced : isBalanced body = true := closesFrom_of_closing? hbody
    refine ⟨ofNameAnyCase?_eq_some_iff.mp hf, ?_, ?_, ?_⟩
    · rw [List.intercalate_singleton, eq_of_closing? hbody]
    · rwa [List.intercalate_singleton]
    · simpa using hbalanced
  · contradiction

theorem opensCall_eq_false_of_call? {word after : List Char} (h : call? word after = none) :
    opensCall after = false ∨ Function.ofNameAnyCase? word = none := by
  cases hf : Function.ofNameAnyCase? word with
  | none => exact .inr rfl
  | some f =>
    refine .inl (Bool.eq_false_iff.mpr fun ho => ?_)
    obtain ⟨body, rest, rfl, hbody⟩ := opensCall_eq_true_iff.mp ho
    unfold call? at h
    rw [hf] at h
    cases f <;> simp [closing?_balanced hbody] at h

/-! ## Passing over the text -/

theorem lowerNames_cons_of_not {c : Char} (h : isWordStart c = false) (text : List Char) :
    lowerNames (c :: text) = c :: lowerNames text := by
  rw [lowerNames, if_neg (Bool.eq_false_iff.mp h)]

/-- A text in which no word starts is written as it is. -/
theorem lowerNames_append_of_forall {a : List Char} (h : ∀ c ∈ a, isWordStart c = false)
    (rest : List Char) : lowerNames (a ++ rest) = a ++ lowerNames rest := by
  induction a with
  | nil => rfl
  | cons c a ih =>
    rw [List.cons_append, lowerNames_cons_of_not (h c List.mem_cons_self),
      ih fun d hd => h d (List.mem_cons_of_mem c hd), List.cons_append]

/-- A word is written by what follows it. -/
theorem lowerNames_word {c : Char} {word after : List Char} (hc : isWordStart c = true)
    (hword : ∀ d ∈ word, isWordPart d = true) (hafter : ∀ d ∈ after.head?, isWordPart d = false) :
    lowerNames (c :: word ++ after) = spelling (c :: word) after ++ lowerNames after := by
  obtain ⟨htake, hdrop⟩ := takeWhile_run hword hafter
  rw [List.cons_append, lowerNames, if_pos hc, htake, hdrop]

/-- The character ends a word and does not make it a call. -/
def IsBarrier (c : Char) : Prop :=
  isWordPart c = false ∧ c ≠ '('

theorem opensCall_append {depth : Nat} {a rest : List Char} (h : closesFrom depth a = true)
    (hrest : ∀ c ∈ rest.head?, IsBarrier c) : opensCall (a ++ rest) = opensCall a := by
  cases a with
  | nil =>
    refine Bool.eq_false_iff.mpr fun ho => ?_
    obtain ⟨body, after, heq, _⟩ := opensCall_eq_true_iff.mp ho
    rw [List.nil_append] at heq
    rw [heq] at hrest
    exact (hrest '(' rfl).2 rfl
  | cons c a =>
    by_cases hc : c = '('
    · subst hc
      -- The bracket is closed inside of `a`, since `a` leaves no bracket open.
      have hclosed := isSome_closing?_of_closesFrom (closesFrom_tail h) (Nat.succ_pos depth)
      obtain ⟨⟨body, after⟩, hbody⟩ := Option.isSome_iff_exists.mp hclosed
      have hbalanced : isBalanced body = true := closesFrom_of_closing? hbody
      rw [eq_of_closing? hbody]
      trans true
      · exact opensCall_eq_true_iff.mpr ⟨body, after ++ rest, by simp, hbalanced⟩
      · exact (opensCall_eq_true_iff.mpr ⟨body, after, rfl, hbalanced⟩).symm
    · have hfalse : ∀ t, opensCall (c :: t) = false := by
        intro t
        rw [opensCall]
        intro text heq
        exact hc (List.cons.inj heq).1
      rw [List.cons_append, hfalse, hfalse]

theorem exists_closesFrom_of_suffix {depth : Nat} {a b : List Char}
    (h : closesFrom depth a = true) (hb : b <:+ a) : ∃ k, closesFrom k b = true := by
  obtain ⟨front, rfl⟩ := hb
  induction front generalizing depth with
  | nil => exact ⟨depth, h⟩
  | cons c front ih => exact ih (closesFrom_tail h)

/-- What stands after a balanced text does not matter to the words in it. -/
theorem lowerNames_append {depth : Nat} {a rest : List Char} (h : closesFrom depth a = true)
    (hrest : ∀ c ∈ rest.head?, IsBarrier c) :
    lowerNames (a ++ rest) = lowerNames a ++ lowerNames rest := by
  fun_induction lowerNames a generalizing depth with
  | case1 => rfl
  | case2 c tail hc ih =>
    obtain ⟨htake, hdrop⟩ := takeWhile_append_of_head? (a := tail) fun d hd => (hrest d hd).1
    obtain ⟨k, hk⟩ := exists_closesFrom_of_suffix (closesFrom_tail h)
      (List.dropWhile_suffix isWordPart)
    rw [List.cons_append, lowerNames, if_pos hc, htake, hdrop, ih hk, spelling, spelling,
      opensCall_append hk hrest, List.append_assoc]
  | case3 c tail hc ih =>
    rw [List.cons_append, lowerNames_cons_of_not (Bool.eq_false_iff.mpr hc), ih (closesFrom_tail h)]
    rfl

theorem lowerNames_intercalate {pieces : List (List Char)} (h : ∀ p ∈ pieces, isBalanced p = true) :
    lowerNames ([','].intercalate pieces) = [','].intercalate (pieces.map lowerNames) := by
  induction pieces with
  | nil => rw [List.map_nil, List.intercalate_nil, lowerNames]
  | cons piece pieces ih =>
    cases pieces with
    | nil => rw [List.map_singleton, List.intercalate_singleton, List.intercalate_singleton]
    | cons next pieces =>
      rw [List.map_cons, List.map_cons, List.intercalate_cons_cons, List.intercalate_cons_cons,
        ← List.map_cons, ← ih fun p hp => h p (List.mem_cons_of_mem piece hp), List.append_assoc,
        List.singleton_append, lowerNames_append (h piece List.mem_cons_self)]
      · rw [lowerNames_cons_of_not (by decide), List.append_assoc]
        rfl
      · rintro c hc
        cases hc
        exact ⟨by decide, by decide⟩

/-- The recursion into the arguments of calls writes what one pass over the text writes. -/
theorem lowerCalls_eq_lowerNames (text : List Char) : lowerCalls text = lowerNames text := by
  induction hn : text.length using Nat.strong_induction_on generalizing text with
  | _ n ih =>
    subst hn
    cases text with
    | nil => rw [lowerCalls, lowerNames]
    | cons c tail =>
      have hdrop : (tail.dropWhile isWordPart).length < (c :: tail).length :=
        Nat.lt_succ_of_le (List.dropWhile_suffix isWordPart).length_le
      rw [lowerCalls, lowerNames]
      by_cases hc : isWordStart c = true
      · rw [if_pos hc, if_pos hc]
        dsimp only
        split
        · rename_i call hcall
          obtain ⟨hword, hafter, hbody, harguments⟩ := call?_eq_some hcall
          obtain ⟨hrest, hshort⟩ := length_lt_of_call? hcall
          have hmap : call.arguments.attach.map (fun a => lowerCalls a.1) =
              call.arguments.map lowerNames := by
            rw [List.attach_map_val (f := lowerCalls)]
            refine List.map_congr_left fun a ha => ih _ ?_ a rfl
            have := hshort a ha
            omega
          have hspelling : spelling (c :: tail.takeWhile isWordPart)
              (tail.dropWhile isWordPart) = call.function.name := by
            rw [spelling, ofNameAnyCase?_eq_some_iff.mpr hword,
              if_pos (opensCall_eq_true_iff.mpr ⟨_, _, hafter, hbody⟩)]
            rfl
          rw [hspelling, hmap, ih _ (by omega) call.rest rfl, hafter,
            lowerNames_cons_of_not (by decide), lowerNames_append hbody,
            lowerNames_intercalate harguments, lowerNames_cons_of_not (by decide)]
          · simp only [List.append_assoc, List.cons_append]
          · rintro d hd
            cases hd
            exact ⟨by decide, by decide⟩
        · rename_i hcall
          have hspelling : spelling (c :: tail.takeWhile isWordPart)
              (tail.dropWhile isWordPart) = c :: tail.takeWhile isWordPart := by
            rw [spelling]
            rcases opensCall_eq_false_of_call? hcall with ho | hf
            · rw [ho]
              rfl
            · rw [hf]
              exact ite_self _
          rw [hspelling, ih _ hdrop _ rfl]
      · rw [if_neg hc, if_neg hc, ih _ (Nat.lt_succ_self _) _ rfl]

/-! ## Letters -/

theorem sameLetters_spelling (word after : List Char) :
    sameLetters (spelling word after) word = true := by
  rw [spelling]
  by_cases ho : opensCall after = true
  · rw [if_pos ho]
    cases hf : Function.ofNameAnyCase? word with
    | none => exact sameLetters_refl word
    | some f => exact sameLetters_symm (ofNameAnyCase?_eq_some_iff.mp hf)
  · rw [if_neg ho]
    exact sameLetters_refl word

/-- Only the spelling of letters changes. -/
theorem sameLetters_lowerCalls (text : List Char) : sameLetters (lowerCalls text) text = true := by
  rw [lowerCalls_eq_lowerNames]
  fun_induction lowerNames text with
  | case1 => rfl
  | case2 c tail hc ih =>
    have := sameLetters_append (sameLetters_spelling (c :: tail.takeWhile isWordPart)
      (tail.dropWhile isWordPart)) ih
    rwa [List.cons_append, List.takeWhile_append_dropWhile] at this
  | case3 c tail hc ih => exact sameLetters_cons c ih

end CallNames
end Abacus
