import Abacus.Decimal.Shown
import Abacus.Proofs.Binary64
import Abacus.Proofs.Lexing
import Abacus.Proofs.Letters
/-!
Reading back what is written in decimal.

Every positional text is read as the decimal of its digits. The text of a number's exact expansion
has the number's value, so reading it rounds nothing; a shorter text was read again before it was
taken.
-/

namespace Abacus

open Float.Model UnpackedFloat

/-! ## Positional texts -/

namespace Decimal

/-- Digits with a point between them, and no point if none follow it. -/
def pointed (whole : List Char) : List Char → List Char
  | [] => whole
  | c :: fraction => whole ++ '.' :: c :: fraction

/-- Digits on both sides of a point, and at least one before it. -/
structure IsPositional (whole fraction : List Char) : Prop where
  ne_nil : whole ≠ []
  isDigit_whole : ∀ c ∈ whole, c.isDigit = true
  isDigit_fraction : ∀ c ∈ fraction, c.isDigit = true

theorem text_eq_pointed (d : Decimal) :
    d.text = pointed (Nat.toDigits 10 (d.digits * 10 ^ d.exponent.toNat / 10 ^ (-d.exponent).toNat))
      (fractionText (-d.exponent).toNat
        (d.digits * 10 ^ d.exponent.toNat % 10 ^ (-d.exponent).toNat)) := by
  rw [text]
  simp only [Nat.pow_eq]
  split
  · rename_i h
    rw [h, pointed]
  · rename_i h
    rw [h, pointed]

theorem isDigit_of_mem_toDigits {n : Nat} : ∀ c ∈ Nat.toDigits 10 n, c.isDigit = true :=
  fun _ hc => Nat.isDigit_of_mem_toDigits (by decide) (by decide) hc

theorem isPositional_toDigits (n : Nat) {fraction : List Char}
    (h : ∀ c ∈ fraction, c.isDigit = true) : IsPositional (Nat.toDigits 10 n) fraction :=
  ⟨Nat.toDigits_ne_nil, isDigit_of_mem_toDigits, h⟩

/-- Without the zeros at its end, a list of digits is shorter by these zeros. -/
theorem exists_dropEnd_append_replicate (digits : List Char) :
    ∃ zeros, digits = (digits.reverse.dropWhile (· == '0')).reverse ++ List.replicate zeros '0' := by
  refine ⟨(digits.reverse.takeWhile (· == '0')).length, ?_⟩
  have hzeros : digits.reverse.takeWhile (· == '0') =
      List.replicate (digits.reverse.takeWhile (· == '0')).length '0' := by
    refine List.eq_replicate_iff.mpr ⟨rfl, fun c hc => ?_⟩
    simpa using List.all_eq_true.mp List.all_takeWhile c hc
  have := congrArg List.reverse (List.takeWhile_append_dropWhile (p := (· == '0')) (l := digits.reverse))
  rw [List.reverse_append, List.reverse_reverse, hzeros, List.reverse_replicate] at this
  exact this.symm

theorem isDigit_of_mem_fractionText {places n : Nat} :
    ∀ c ∈ fractionText places n, c.isDigit = true := by
  intro c hc
  rw [fractionText, List.mem_reverse] at hc
  have hmem := (List.dropWhile_suffix _).subset hc
  rw [List.mem_reverse, List.leftpad, List.mem_append] at hmem
  rcases hmem with h | h
  · rw [List.eq_of_mem_replicate h]
    decide
  · exact isDigit_of_mem_toDigits c h

theorem exists_text_eq_pointed (d : Decimal) :
    ∃ whole fraction, d.text = pointed whole fraction ∧ IsPositional whole fraction :=
  ⟨_, _, d.text_eq_pointed, isPositional_toDigits _ isDigit_of_mem_fractionText⟩

/-- The digits after the point have the value of the fraction, up to the zeros left out. -/
theorem ofDigitChars_fractionText {places n : Nat} (h : n < 10 ^ places) :
    ∃ zeros, (fractionText places n).length + zeros = places ∧
      Nat.ofDigitChars 10 (fractionText places n) 0 * 10 ^ zeros = n := by
  by_cases hplaces : places = 0
  · subst hplaces
    rw [Nat.pow_zero, Nat.lt_one_iff] at h
    subst h
    exact ⟨0, by decide, by decide⟩
  · have hlength := (Nat.length_toDigits_le_iff (by decide) (by omega)).mpr h
    obtain ⟨zeros, hzeros⟩ :=
      exists_dropEnd_append_replicate ((Nat.toDigits 10 n).leftpad places '0')
    rw [← fractionText] at hzeros
    refine ⟨zeros, ?_, ?_⟩
    · have := congrArg List.length hzeros
      rw [List.leftpad, List.length_append, List.length_append, List.length_replicate,
        List.length_replicate] at this
      omega
    · have := congrArg (Nat.ofDigitChars 10 · 0) hzeros
      rw [List.leftpad, Nat.ofDigitChars_append, Nat.ofDigitChars_append,
        Nat.ofDigitChars_replicate_zero, Nat.ofDigitChars_replicate_zero, Nat.mul_zero,
        Nat.ofDigitChars_ten_toDigits] at this
      rw [Nat.mul_comm]
      exact this.symm

end Decimal

/-! ## Reading -/

namespace Literal

open Decimal

variable {whole fraction : List Char}

theorem takeDigits_pointed (h : IsPositional whole fraction) :
    takeDigits (pointed whole fraction) = (whole, fraction, []) := by
  cases fraction with
  | nil =>
    rw [pointed, takeDigits, List.takeWhile_eq_self_iff.mpr h.isDigit_whole,
      List.dropWhile_eq_nil_iff.mpr h.isDigit_whole]
  | cons c fraction =>
    obtain ⟨htake, hdrop⟩ := takeWhile_run (p := Char.isDigit)
      (b := '.' :: c :: fraction) h.isDigit_whole (by rintro d hd; cases hd; decide)
    rw [pointed, takeDigits, htake, hdrop]
    simp only [List.takeWhile_eq_self_iff.mpr h.isDigit_fraction,
      List.dropWhile_eq_nil_iff.mpr h.isDigit_fraction]

theorem readDecimal?_pointed (h : IsPositional whole fraction) :
    readDecimal? (pointed whole fraction) = some (Decimal.ofDigits whole fraction) := by
  rw [readDecimal?, takeDigits_pointed h]
  have hempty : whole.isEmpty = false := by
    rw [Bool.eq_false_iff, ne_eq, List.isEmpty_iff]
    exact h.ne_nil
  simp only [hempty, Bool.false_and, Bool.false_eq_true, if_false, readExponent?, Option.map_some,
    Int.add_zero]

theorem pointed_eq_cons (h : IsPositional whole fraction) :
    ∃ c rest, pointed whole fraction = c :: rest ∧ c.isDigit = true := by
  obtain ⟨c, whole, rfl⟩ := List.exists_cons_of_ne_nil h.ne_nil
  have hdigit := h.isDigit_whole c List.mem_cons_self
  cases fraction with
  | nil => exact ⟨c, whole, rfl, hdigit⟩
  | cons d fraction => exact ⟨c, whole ++ '.' :: d :: fraction, rfl, hdigit⟩

theorem sameLetters_digit {c d : Char} (hc : c.isDigit = true) (hd : d.isDigit = false)
    (a b : List Char) : sameLetters (c :: a) (d :: b) = false := by
  refine Bool.eq_false_iff.mpr fun h => ?_
  obtain ⟨e, s, heq, he, _⟩ := exists_of_sameLetters_cons h
  cases heq
  have := apply_eq_of_toLower_eq (f := Char.isDigit) (forall_mem_of_all (by decide)) he
  rw [hc, hd] at this
  contradiction

/-- A text that starts with a digit has no sign and is no name of a special value. -/
theorem value_pointed (h : IsPositional whole fraction) :
    value (pointed whole fraction) = (Decimal.ofDigits whole fraction).toFloat := by
  have hread := readDecimal?_pointed h
  obtain ⟨c, rest, hcons, hdigit⟩ := pointed_eq_cons h
  rw [hcons] at hread ⊢
  have hsign : takeSign (c :: rest) = (false, c :: rest) := by
    unfold takeSign
    split
    · rename_i heq
      cases heq
      contradiction
    · rename_i heq
      cases heq
      contradiction
    · rfl
  have hmagnitude : readMagnitude? (c :: rest) = some (Decimal.ofDigits whole fraction).toFloat := by
    have hinf : sameLetters (c :: rest) "inf".toList = false :=
      sameLetters_digit hdigit (by decide) rest _
    have hinfinity : sameLetters (c :: rest) "infinity".toList = false :=
      sameLetters_digit hdigit (by decide) rest _
    have hnan : sameLetters (c :: rest) "nan".toList = false :=
      sameLetters_digit hdigit (by decide) rest _
    rw [readMagnitude?, hinf, hinfinity, hnan, hread]
    rfl
  rw [value, read?, hsign]
  simp only [hmagnitude, Option.map_some, Bool.false_eq_true, if_false, Option.getD_some]

end Literal

namespace Token

open Decimal

theorem ne_point_of_isDigit {c : Char} (h : c.isDigit = true) : c ≠ '.' := by
  rintro rfl
  contradiction

theorem count_point_of_digits {digits : List Char} (h : ∀ c ∈ digits, c.isDigit = true) :
    digits.count '.' = 0 :=
  List.count_eq_zero.mpr fun hmem => ne_point_of_isDigit (h '.' hmem) rfl

variable {whole fraction : List Char}

theorem getLast?_pointed (h : IsPositional whole fraction) :
    ∃ c, (pointed whole fraction).getLast? = some c ∧ c.isDigit = true := by
  cases fraction with
  | nil =>
    exact ⟨whole.getLast h.ne_nil, List.getLast?_eq_some_getLast h.ne_nil,
      h.isDigit_whole _ (List.getLast_mem h.ne_nil)⟩
  | cons c fraction =>
    refine ⟨(c :: fraction).getLast (List.cons_ne_nil _ _), ?_,
      h.isDigit_fraction _ (List.getLast_mem _)⟩
    rw [pointed, List.getLast?_append, List.getLast?_cons_cons,
      List.getLast?_eq_some_getLast (List.cons_ne_nil c fraction), Option.some_or]

/-- A positional text has the form that the lexer asks of a number. -/
theorem isWritten_pointed (h : IsPositional whole fraction) :
    (number (pointed whole fraction)).IsWritten := by
  have hpart : ∀ c : Char, c.isDigit = true → isNumberPart c = true := by
    intro c hc
    rw [isNumberPart, hc, Bool.true_or]
  obtain ⟨c, rest, hcons, hc⟩ := Literal.pointed_eq_cons h
  obtain ⟨d, hlast, hd⟩ := getLast?_pointed h
  refine ⟨by rw [hcons]; exact List.cons_ne_nil c rest, ?_, ?_⟩
  · cases fraction with
    | nil => exact fun e he => hpart e (h.isDigit_whole e he)
    | cons f fraction =>
      intro e he
      rw [pointed, List.mem_append, List.mem_cons] at he
      rcases he with he | rfl | he
      · exact hpart e (h.isDigit_whole e he)
      · decide
      · exact hpart e (h.isDigit_fraction e he)
  · have hhead : ((pointed whole fraction).head? != some '.') = true := by
      rw [hcons]
      simpa using ne_point_of_isDigit hc
    have htail : ((pointed whole fraction).getLast? != some '.') = true := by
      rw [hlast]
      simpa using ne_point_of_isDigit hd
    have hcount : (pointed whole fraction).count '.' ≤ 1 := by
      cases fraction with
      | nil =>
        rw [pointed, count_point_of_digits h.isDigit_whole]
        decide
      | cons f fraction =>
        rw [pointed, List.count_append, List.count_cons_self,
          count_point_of_digits h.isDigit_whole, count_point_of_digits h.isDigit_fraction]
    rw [isNumber, hhead, htail, decide_eq_true hcount]
    rfl

end Token

/-! ## Numbers and their texts -/

theorem Decimal.toFloat_eq {d : Decimal} {x : Float}
    (h : UnpackedFloat.ofScientific .binary64 d.digits d.exponent = x.toModel.unpack) :
    d.toFloat = x := by
  rw [Decimal.toFloat, Float.Model.ofScientific, h, Binary64.pack_unpack]

theorem Decimal.isPositional_zero : Decimal.IsPositional ['0'] [] :=
  ⟨List.cons_ne_nil _ _, forall_mem_of_all (by decide), forall_mem_of_all (by decide)⟩

theorem Literal.value_zero {x : Float} (hx : x.toModel.unpack = .zero .positive) :
    value ['0'] = x := by
  show value (Decimal.pointed ['0'] []) = x
  rw [value_pointed Decimal.isPositional_zero]
  refine Decimal.toFloat_eq ?_
  rw [hx]
  rfl

namespace Shortest

open Decimal

theorem text_eq_pointed (significand : Nat) (power : Int) :
    ∃ whole fraction, text significand power = pointed whole fraction ∧
      IsPositional whole fraction :=
  Decimal.exists_text_eq_pointed _

/-- What the search returns has been read back. -/
theorem readsAs_of_find? {significand : Nat} {power : Int} {d : Decimal}
    (h : find? significand power = some d) : readsAs d.text significand power = true := by
  obtain ⟨n, _, hn⟩ := List.exists_of_findSome?_eq_some h
  exact List.find?_some (p := fun d : Decimal => readsAs d.text significand power) hn

theorem unpack_toFloat_of_readsAs {text : List Char} {significand : Nat} {power : Int} {d : Decimal}
    {h : 0 < significand} (hd : Literal.readDecimal? text = some d)
    (hreads : readsAs text significand power = true) :
    d.toFloat.toModel.unpack = .finite .positive significand power h := by
  rw [readsAs, hd] at hreads
  dsimp only at hreads
  split at hreads
  · rename_i m q hm hunpack
    rw [Bool.and_eq_true, beq_iff_eq, beq_iff_eq] at hreads
    obtain ⟨rfl, rfl⟩ := hreads
    exact hunpack
  · contradiction

/-- The digits of the exact expansion have the value of the number. -/
theorem writes_exact (significand : Nat) (power : Int) :
    ∃ whole fraction, (exact significand power).text = pointed whole fraction ∧
      IsPositional whole fraction ∧
      Binary64.Writes (Decimal.ofDigits whole fraction).digits fraction.length significand power := by
  refine ⟨_, _, Decimal.text_eq_pointed _, isPositional_toDigits _ isDigit_of_mem_fractionText, ?_⟩
  have hplaces : (-(exact significand power).exponent).toNat = (-power).toNat := by
    show (-min power 0).toNat = (-power).toNat
    omega
  have hscale : (exact significand power).exponent.toNat = 0 := by
    show (min power 0).toNat = 0
    omega
  rw [hplaces, hscale, Nat.pow_zero, Nat.mul_one]
  show Binary64.Writes (Nat.ofDigitChars 10 (_ ++ _) 0) _ _ _
  obtain ⟨digits, hdigits⟩ : ∃ digits, digits = (exact significand power).digits := ⟨_, rfl⟩
  rw [← hdigits]
  have hmod : digits % 10 ^ (-power).toNat < 10 ^ (-power).toNat :=
    Nat.mod_lt _ (Nat.pow_pos (by decide))
  obtain ⟨zeros, hlength, hvalue⟩ := ofDigitChars_fractionText hmod
  rw [Nat.ofDigitChars_append, Nat.ofDigitChars_ten_toDigits,
    Nat.ofDigitChars_eq_ofDigitChars_zero]
  generalize fractionText (-power).toNat (digits % 10 ^ (-power).toNat) = fraction at *
  -- With the zeros that were left out, the digits are those of the exact expansion.
  have hall : (10 ^ fraction.length * (digits / 10 ^ (-power).toNat) +
      Nat.ofDigitChars 10 fraction 0) * 10 ^ zeros =
        significand * 2 ^ power.toNat * 5 ^ (-power).toNat :=
    calc (10 ^ fraction.length * (digits / 10 ^ (-power).toNat) +
          Nat.ofDigitChars 10 fraction 0) * 10 ^ zeros
        = 10 ^ (fraction.length + zeros) * (digits / 10 ^ (-power).toNat) +
            Nat.ofDigitChars 10 fraction 0 * 10 ^ zeros := by rw [Nat.pow_add]; ring
      _ = digits := by rw [hlength, hvalue, Nat.div_add_mod]
      _ = significand * 2 ^ power.toNat * 5 ^ (-power).toNat := hdigits
  rw [Binary64.Writes]
  refine Nat.eq_of_mul_eq_mul_right (Nat.pow_pos (show 0 < 10 by decide) : 0 < 10 ^ zeros) ?_
  rw [Nat.mul_right_comm, hall, Nat.mul_assoc, ← Nat.mul_pow, Nat.mul_assoc _ (10 ^ fraction.length),
    ← Nat.pow_add, hlength]

/-- The text of a number reads as that number. -/
theorem value_text {x : Float} {significand : Nat} {power : Int} {h : 0 < significand}
    (hx : x.toModel.unpack = .finite .positive significand power h) :
    Literal.value (text significand power) = x := by
  cases hfind : find? significand power with
  | some d =>
    rw [text, hfind, Option.getD_some]
    have hreads := readsAs_of_find? hfind
    obtain ⟨whole, fraction, htext, hpositional⟩ := d.exists_text_eq_pointed
    rw [htext] at hreads ⊢
    rw [Literal.value_pointed hpositional]
    refine Binary64.eq_of_unpack_eq ((unpack_toFloat_of_readsAs ?_ hreads).trans hx.symm)
    exact Literal.readDecimal?_pointed hpositional
  | none =>
    obtain ⟨whole, fraction, htext, hpositional, hwrites⟩ := writes_exact significand power
    rw [text, hfind, Option.getD_none, htext, Literal.value_pointed hpositional]
    refine Decimal.toFloat_eq ?_
    rw [hx]
    exact (Binary64.isCanonical_of_unpack hx).ofScientific_of_writes hwrites

end Shortest

/-- The number is finite and has no sign. -/
def isUnsigned (x : Float) : Bool :=
  match x.toModel.unpack with
  | .zero .positive | .finite .positive _ _ _ => true
  | _ => false

/-- A number without a sign is written as digits with at most one point between them. -/
theorem isWritten_literalText {x : Float} (h : isUnsigned x = true) :
    (Token.number (literalText x)).IsWritten := by
  rw [isUnsigned] at h
  rw [literalText]
  split at h
  · rename_i hx
    rw [hx]
    exact ⟨List.cons_ne_nil _ _, forall_mem_of_all (by decide), by decide⟩
  · rename_i significand power hpos hx
    obtain ⟨whole, fraction, htext, hpositional⟩ := Shortest.text_eq_pointed significand power
    rw [hx]
    show (Token.number ([] ++ Shortest.text significand power)).IsWritten
    rw [List.nil_append, htext]
    exact Token.isWritten_pointed hpositional
  · contradiction

/-- A number without a sign is read back from its text. -/
theorem value_literalText {x : Float} (h : isUnsigned x = true) :
    Literal.value (literalText x) = x := by
  rw [isUnsigned] at h
  rw [literalText]
  split at h
  · rename_i hx
    rw [hx]
    exact Literal.value_zero hx
  · rename_i significand power hpos hx
    rw [hx]
    exact Shortest.value_text hx
  · contradiction

end Abacus
