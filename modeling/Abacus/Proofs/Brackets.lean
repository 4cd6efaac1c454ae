import Abacus.Brackets
import Abacus.CallNames
import Mathlib
/-!
Counting brackets.

The check for balance, the search for a closing bracket and the cutting at commas all carry the
number of open brackets past one character after the other, as `depthAfter` says. The lemmas on them
are inductions on the text that use the three equations for a first character.
-/

namespace Abacus

open CallNames

/-! ## One character -/

/-- A closing bracket that has no partner before it. -/
def IsStray (depth : Nat) (c : Char) : Prop :=
  c = ')' ∧ depth = 0

instance (depth : Nat) (c : Char) : Decidable (IsStray depth c) :=
  inferInstanceAs (Decidable (c = ')' ∧ depth = 0))

theorem closesFrom_cons (depth : Nat) (c : Char) (text : List Char) :
    closesFrom depth (c :: text) =
      if IsStray depth c then false else closesFrom (depthAfter depth c) text := by
  by_cases ho : c = '('
  · subst ho
    cases depth <;> rfl
  · by_cases hc : c = ')'
    · subst hc
      cases depth <;> rfl
    · rw [if_neg fun hs => hc hs.1, depthAfter, if_neg ho, if_neg hc, closesFrom]
      · exact ho
      · exact fun _ => hc
      · exact fun _ _ => hc

theorem closing?_cons (depth : Nat) (c : Char) (text : List Char) :
    closing? depth (c :: text) =
      if IsStray depth c then some ([], text)
      else (closing? (depthAfter depth c) text).map fun (body, rest) => (c :: body, rest) := by
  by_cases ho : c = '('
  · subst ho
    cases depth <;> rfl
  · by_cases hc : c = ')'
    · subst hc
      cases depth <;> rfl
    · rw [if_neg fun hs => hc hs.1, depthAfter, if_neg ho, if_neg hc, closing?]
      · exact ho
      · exact fun _ => hc
      · exact fun _ _ => hc

theorem depthAfter_add {depth : Nat} {c : Char} (h : ¬ IsStray depth c) (k : Nat) :
    depthAfter (depth + k) c = depthAfter depth c + k := by
  simp only [IsStray, not_and] at h
  unfold depthAfter
  by_cases ho : c = '('
  · rw [if_pos ho, if_pos ho]
    omega
  · rw [if_neg ho, if_neg ho]
    by_cases hc : c = ')'
    · have := h hc
      rw [if_pos hc, if_pos hc]
      omega
    · rw [if_neg hc, if_neg hc]

theorem not_isStray_add {depth : Nat} {c : Char} (h : ¬ IsStray depth c) (k : Nat) :
    ¬ IsStray (depth + k) c := by
  rintro ⟨hc, hd⟩
  exact h ⟨hc, by omega⟩

theorem not_isStray_of_closesFrom {depth : Nat} {c : Char} {text : List Char}
    (h : closesFrom depth (c :: text) = true) : ¬ IsStray depth c := by
  intro hs
  rw [closesFrom_cons, if_pos hs] at h
  contradiction

theorem closesFrom_tail {depth : Nat} {c : Char} {text : List Char}
    (h : closesFrom depth (c :: text) = true) : closesFrom (depthAfter depth c) text = true := by
  have hs := not_isStray_of_closesFrom h
  rwa [closesFrom_cons, if_neg hs] at h

/-- Characters other than brackets do not count. -/
theorem closesFrom_filter {p : Char → Bool} (ho : p '(' = true) (hc : p ')' = true) (depth : Nat)
    (text : List Char) : closesFrom depth (text.filter p) = closesFrom depth text := by
  induction text generalizing depth with
  | nil => rfl
  | cons c text ih =>
    by_cases hp : p c = true
    · rw [List.filter_cons_of_pos hp, closesFrom_cons, closesFrom_cons, ih]
    · have hopen : c ≠ '(' := fun he => hp (he ▸ ho)
      have hclose : c ≠ ')' := fun he => hp (he ▸ hc)
      rw [List.filter_cons_of_neg hp, ih, closesFrom_cons, if_neg fun hs => hclose hs.1, depthAfter,
        if_neg hopen, if_neg hclose]

theorem closesFrom_append_congr {a b : List Char}
    (h : ∀ depth, closesFrom depth a = closesFrom depth b) (front : List Char) (depth : Nat) :
    closesFrom depth (front ++ a) = closesFrom depth (front ++ b) := by
  induction front generalizing depth with
  | nil => exact h depth
  | cons c front ih => rw [List.cons_append, List.cons_append, closesFrom_cons, closesFrom_cons, ih]

/-! ## Texts that close what is open -/

/-- A text that closes `depth` brackets can be passed over when that many more are open. -/
theorem closesFrom_append {depth : Nat} {a : List Char} (h : closesFrom depth a = true) (k : Nat)
    (rest : List Char) : closesFrom (depth + k) (a ++ rest) = closesFrom k rest := by
  induction a generalizing depth with
  | nil =>
    rw [closesFrom, beq_iff_eq] at h
    rw [h, Nat.zero_add, List.nil_append]
  | cons c a ih =>
    have hs := not_isStray_of_closesFrom h
    rw [List.cons_append, closesFrom_cons, if_neg (not_isStray_add hs k), depthAfter_add hs,
      ih (closesFrom_tail h)]

theorem closing?_append {depth : Nat} {a : List Char} (h : closesFrom depth a = true) (k : Nat)
    (rest : List Char) : closing? (depth + k) (a ++ rest) =
      (closing? k rest).map fun (body, after) => (a ++ body, after) := by
  induction a generalizing depth with
  | nil =>
    rw [closesFrom, beq_iff_eq] at h
    rw [h, Nat.zero_add, List.nil_append]
    exact Option.map_id'.symm ▸ rfl
  | cons c a ih =>
    have hs := not_isStray_of_closesFrom h
    rw [List.cons_append, closing?_cons, if_neg (not_isStray_add hs k), depthAfter_add hs,
      ih (closesFrom_tail h), Option.map_map]
    rfl

/-- The bracket that closes a balanced text is the one after it. -/
theorem closing?_balanced {body : List Char} (h : isBalanced body = true) (rest : List Char) :
    closing? 0 (body ++ ')' :: rest) = some (body, rest) := by
  have := closing?_append h 0 (')' :: rest)
  rw [closing?_cons, if_pos ⟨rfl, rfl⟩, Option.map_some] at this
  simpa only [List.append_nil] using this

theorem closesFrom_of_closing? {depth : Nat} {text body rest : List Char}
    (h : closing? depth text = some (body, rest)) : closesFrom depth body = true := by
  induction text generalizing depth body with
  | nil => rw [closing?] at h; contradiction
  | cons c text ih =>
    rw [closing?_cons] at h
    by_cases hs : IsStray depth c
    · rw [if_pos hs] at h
      cases h
      rw [hs.2]
      rfl
    · rw [if_neg hs, Option.map_eq_some_iff] at h
      obtain ⟨⟨body, rest⟩, hbody, heq⟩ := h
      cases heq
      rw [closesFrom_cons, if_neg hs]
      exact ih hbody

/-- In a text that closes more brackets than are counted, the bracket after these is found. -/
theorem isSome_closing?_of_closesFrom {depth outer : Nat} {text : List Char}
    (h : closesFrom outer text = true) (hlt : depth < outer) : (closing? depth text).isSome := by
  induction text generalizing depth outer with
  | nil =>
    rw [closesFrom, beq_iff_eq] at h
    omega
  | cons c text ih =>
    rw [closing?_cons]
    by_cases hs : IsStray depth c
    · rw [if_pos hs]
      rfl
    · rw [if_neg hs, Option.isSome_map]
      obtain ⟨k, rfl⟩ : ∃ k, outer = depth + (k + 1) := ⟨outer - depth - 1, by omega⟩
      refine ih (closesFrom_tail h) ?_
      rw [depthAfter_add hs]
      omega

theorem isBalanced_append {a b : List Char} (ha : isBalanced a = true) (hb : isBalanced b = true) :
    isBalanced (a ++ b) = true := by
  have := closesFrom_append ha 0 b
  exact this.trans hb

theorem isBalanced_brackets {text : List Char} (h : isBalanced text = true) :
    isBalanced ('(' :: text ++ [')']) = true := by
  have := closesFrom_append h 1 [')']
  exact this

/-- A text without brackets is balanced. -/
theorem isBalanced_of_forall {text : List Char} (h : ∀ c ∈ text, c ≠ '(' ∧ c ≠ ')') :
    isBalanced text = true := by
  induction text with
  | nil => rfl
  | cons c text ih =>
    obtain ⟨ho, hc⟩ := h c List.mem_cons_self
    have hs : ¬ IsStray 0 c := fun hs => hc hs.1
    rw [isBalanced, closesFrom_cons, if_neg hs, depthAfter, if_neg ho, if_neg hc]
    exact ih fun d hd => h d (List.mem_cons_of_mem c hd)

/-! ## Pieces between commas -/

theorem splitCommas_ne_nil (depth : Nat) (text : List Char) : splitCommas depth text ≠ [] := by
  fun_cases splitCommas depth text with
  | case1 | case2 | case3 | case4 => exact List.cons_ne_nil _ _

/-- The commas between the pieces are all that the cutting takes out. -/
theorem intercalate_splitCommas (depth : Nat) (text : List Char) :
    [','].intercalate (splitCommas depth text) = text := by
  fun_induction splitCommas depth text with
  | case1 depth => rfl
  | case2 depth c text h ih =>
    obtain ⟨piece, pieces, hcons⟩ := List.exists_cons_of_ne_nil (splitCommas_ne_nil 0 text)
    rw [hcons] at ih ⊢
    rw [List.intercalate_cons_cons, ih, h.2]
    rfl
  | case3 depth c text h hnil ih => exact absurd hnil (splitCommas_ne_nil _ _)
  | case4 depth c text h piece pieces hcons ih =>
    rw [hcons] at ih
    cases pieces with
    | nil =>
      rw [List.intercalate_singleton] at ih ⊢
      rw [ih]
    | cons next pieces =>
      rw [List.intercalate_cons_cons] at ih ⊢
      rw [← ih]
      rfl

/-- The first piece closes the brackets that are open before it, the others are balanced. -/
theorem closesFrom_splitCommas {depth : Nat} {text piece : List Char} {pieces : List (List Char)}
    (h : closesFrom depth text = true) (hsplit : splitCommas depth text = piece :: pieces) :
    closesFrom depth piece = true ∧ ∀ p ∈ pieces, isBalanced p = true := by
  induction text generalizing depth piece pieces with
  | nil =>
    rw [splitCommas] at hsplit
    cases hsplit
    exact ⟨h, by simp⟩
  | cons c text ih =>
    have hs := not_isStray_of_closesFrom h
    have htail := closesFrom_tail h
    rw [splitCommas] at hsplit
    by_cases hcut : depth = 0 ∧ c = ','
    · rw [if_pos hcut] at hsplit
      obtain ⟨rfl, rfl⟩ := hcut
      cases hsplit
      obtain ⟨first, others, hcons⟩ := List.exists_cons_of_ne_nil (splitCommas_ne_nil 0 text)
      obtain ⟨hfirst, hothers⟩ := ih htail hcons
      refine ⟨rfl, ?_⟩
      rw [hcons]
      exact List.forall_mem_cons.mpr ⟨hfirst, hothers⟩
    · rw [if_neg hcut] at hsplit
      obtain ⟨first, others, hcons⟩ :=
        List.exists_cons_of_ne_nil (splitCommas_ne_nil (depthAfter depth c) text)
      rw [hcons] at hsplit
      cases hsplit
      obtain ⟨hfirst, hothers⟩ := ih htail hcons
      refine ⟨?_, hothers⟩
      rw [closesFrom_cons, if_neg hs]
      exact hfirst

theorem isBalanced_of_mem_splitCommas {text piece : List Char} (h : isBalanced text = true)
    (hp : piece ∈ splitCommas 0 text) : isBalanced piece = true := by
  obtain ⟨first, others, hcons⟩ := List.exists_cons_of_ne_nil (splitCommas_ne_nil 0 text)
  rw [hcons] at hp
  obtain ⟨hfirst, hothers⟩ := closesFrom_splitCommas h hcons
  rcases List.mem_cons.mp hp with rfl | hp
  · exact hfirst
  · exact hothers piece hp

end Abacus
