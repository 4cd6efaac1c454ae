import Abacus.Decimal.Shown
import Abacus.Proofs.Binary64
/-!
Whole numbers among the finite binary64 numbers.

A whole number of at most 53 bits has a significand and a power, and reading its digits rounds
nothing. A longer one is rounded to a multiple of a power of two that is itself whole. So digits
without a point are always read as a whole number.
-/

namespace Abacus
namespace Binary64

open Float.Model UnpackedFloat

/-! ## Rounding a whole number -/

theorem mantissa_shiftRight (em : ExtendedMantissa) (n : Nat) :
    (em >>> n).mantissa = em.mantissa / 2 ^ n := by
  show (n.repeat ExtendedMantissa.shiftRightOne em).mantissa = _
  induction n with
  | zero => rw [Nat.pow_zero, Nat.div_one]; rfl
  | succ n ih =>
    rw [Nat.repeat, ExtendedMantissa.shiftRightOne]
    dsimp only
    rw [ih, Nat.div_div_eq_div_mul, Nat.pow_succ]

theorem roundedMantissa_bounds (em : ExtendedMantissa) :
    em.mantissa ≤ em.roundedMantissa ∧ em.roundedMantissa ≤ em.mantissa + 1 := by
  obtain ⟨m, roundBit, stickyBit⟩ := em
  cases roundBit with
  | false => cases stickyBit <;> exact ⟨Nat.le_refl m, Nat.le_succ m⟩
  | true =>
    cases stickyBit with
    | false =>
      show m ≤ m + m % 2 ∧ m + m % 2 ≤ m + 1
      omega
    | true => exact ⟨Nat.le_succ m, Nat.le_refl _⟩

/-- A significand of 53 bits is kept, and one that has just outgrown them is halved. -/
theorem exists_shift_of_rounded {r : Nat} {e : Int} (he : -1074 ≤ e) (hlow : 2 ^ 52 ≤ r)
    (hhigh : r ≤ 2 ^ 53) :
    ∃ m q, shiftToTargetExponent .binary64 r e .exact = (⟨m, false, false⟩, q) ∧
      2 ^ 52 ≤ m ∧ m < 2 ^ 53 ∧ e ≤ q ∧ q ≤ e + 1 := by
  rw [shiftToTargetExponent, IsCanonical.targetExponent_eq, totalExponent]
  rcases Nat.lt_or_eq_of_le hhigh with hlt | rfl
  · have hlog : r.log2 = 52 := (Nat.log2_eq_iff (by omega)).mpr ⟨hlow, hlt⟩
    refine ⟨r, e, ?_, hlow, hlt, Int.le_refl e, by omega⟩
    rw [hlog, shiftToExponent]
    rw [show (max (((52 : Nat) : Int) + 1 + e - 53) (-1074) - e).toNat = 0 by omega]
    rw [Int.natCast_zero, Int.add_zero]
    rfl
  · refine ⟨2 ^ 52, e + 1, ?_, Nat.le_refl _, by decide, by omega, Int.le_refl _⟩
    rw [Nat.log2_two_pow, shiftToExponent]
    rw [show (max (((53 : Nat) : Int) + 1 + e - 53) (-1074) - e).toNat = 1 by omega]
    rfl

/--
A significand of at least 53 bits is rounded to one of 53 bits. Its power is the one that keeps the
leading bit in its place, or one more if rounding carries over.
-/
theorem exists_round_of_log2 {n : Nat} {e : Int} (sign : Sign) (h : 52 ≤ n.log2)
    (he : -1074 ≤ n.log2 + e - 52) :
    ∃ m q hm, roundWithAccuracy .binary64 sign n e .exact = .finite sign m q hm ∧
      2 ^ 52 ≤ m ∧ m < 2 ^ 53 ∧ n.log2 + e - 52 ≤ q ∧ q ≤ n.log2 + e - 51 := by
  have hn : n ≠ 0 := by
    intro hzero
    rw [hzero] at h
    contradiction
  obtain ⟨t, ht⟩ : ∃ t, n.log2 = t + 52 := ⟨n.log2 - 52, by omega⟩
  have hfirst : shiftToTargetExponent .binary64 n e .exact =
      ((⟨n, false, false⟩ : ExtendedMantissa) >>> t, e + t) := by
    rw [shiftToTargetExponent, IsCanonical.targetExponent_eq, totalExponent, ht, shiftToExponent]
    rw [show (max (((t + 52 : Nat) : Int) + 1 + e - 53) (-1074) - e).toNat = t by omega]
    rfl
  generalize hem : (⟨n, false, false⟩ : ExtendedMantissa) >>> t = em at hfirst
  have hmantissa : em.mantissa = n / 2 ^ t := by
    rw [← hem, mantissa_shiftRight]
  have hlow : 2 ^ 52 ≤ n / 2 ^ t := by
    rw [Nat.le_div_iff_mul_le (Nat.two_pow_pos t), ← Nat.pow_add, Nat.add_comm, ← ht]
    exact Nat.log2_self_le hn
  have hhigh : n / 2 ^ t < 2 ^ 53 := by
    rw [Nat.div_lt_iff_lt_mul (Nat.two_pow_pos t), ← Nat.pow_add,
      show 53 + t = n.log2 + 1 by omega]
    exact Nat.lt_log2_self
  have hrounded := roundedMantissa_bounds em
  rw [hmantissa] at hrounded
  obtain ⟨m, q, hsecond, hm, hm', hq, hq'⟩ := exists_shift_of_rounded (r := em.roundedMantissa)
    (show -1074 ≤ e + t by omega) (by omega) (by omega)
  refine ⟨m, q, by omega, ?_, hm, hm', by omega, by omega⟩
  rw [roundWithAccuracy, hfirst]
  simp only [hsecond]
  rw [dif_neg (by omega)]

/-- A whole number of at least 54 bits is rounded to one with a significand of 53 bits. -/
theorem exists_round_of_large {n : Nat} (h : 53 ≤ n.log2) :
    ∃ m q hm, roundWithAccuracy .binary64 .positive (n * 2 ^ 53) (-53) .exact =
      .finite .positive m q hm ∧ 2 ^ 52 ≤ m ∧ m < 2 ^ 53 ∧ 0 ≤ q := by
  have hn : 0 < n := by
    refine Nat.pos_of_ne_zero fun hzero => ?_
    rw [hzero] at h
    contradiction
  have hlog : (n * 2 ^ 53).log2 = n.log2 + 53 := log2_mul_two_pow hn 53
  obtain ⟨m, q, hm, hround, hlow, hhigh, hq, -⟩ :=
    exists_round_of_log2 (n := n * 2 ^ 53) (e := -53) .positive (by omega) (by omega)
  exact ⟨m, q, hm, hround, hlow, hhigh, by omega⟩

/-- A shorter significand is filled up with zeros, as far as the powers go. -/
theorem exists_isCanonical_shifted {n : Nat} {e : Int} (hpos : 0 < n) (hlt : n < 2 ^ 53)
    (hlow : -1074 ≤ e) (hhigh : e ≤ 971) : ∃ t : Nat, IsCanonical (n * 2 ^ t) (e - t) := by
  have hlog := Nat.log2_self_le hpos.ne'
  have hlog' := Nat.lt_log2_self (n := n)
  have hbits : n.log2 < 53 := (Nat.log2_lt hpos.ne').mpr hlt
  obtain ⟨t, ht⟩ : ∃ t, t = min (52 - n.log2) (e + 1074).toNat := ⟨_, rfl⟩
  refine ⟨t, Nat.mul_pos hpos (Nat.two_pow_pos t), ?_, by omega, by omega, ?_⟩
  · calc n * 2 ^ t
        < 2 ^ (n.log2 + 1) * 2 ^ t := Nat.mul_lt_mul_of_pos_right hlog' (Nat.two_pow_pos t)
      _ = 2 ^ (n.log2 + 1 + t) := (Nat.pow_add 2 _ _).symm
      _ ≤ 2 ^ 53 := Nat.pow_le_pow_right (by decide) (by omega)
  · rcases Nat.le_total (52 - n.log2) (e + 1074).toNat with hle | hle
    · refine .inl ?_
      calc 2 ^ 52 = 2 ^ n.log2 * 2 ^ t := by
            rw [← Nat.pow_add]
            congr 1
            omega
        _ ≤ n * 2 ^ t := Nat.mul_le_mul_right _ hlog
    · exact .inr (by omega)

/-- A whole number of at most 53 bits has a significand and a power of its own. -/
theorem exists_writes_of_small {n : Nat} (hn : 0 < n) (h : n.log2 < 53) :
    ∃ m q, IsCanonical m q ∧ Writes n 0 m q ∧ isWhole m q = true := by
  obtain ⟨t, hc⟩ :=
    exists_isCanonical_shifted (e := 0) hn ((Nat.log2_lt hn.ne').mp h) (by decide) (by decide)
  rw [Int.zero_sub] at hc
  refine ⟨n * 2 ^ t, -t, hc, ?_, ?_⟩
  · rw [Writes, Int.neg_neg, Int.toNat_natCast, Int.toNat_of_nonpos (by omega), Nat.pow_zero,
      Nat.pow_zero, Nat.mul_one, Nat.mul_one]
  · rw [isWhole, Int.neg_neg, Int.toNat_natCast, Nat.pow_eq, Nat.mul_mod_left]
    rfl

/-- A number that is too large for the format becomes infinite, and no other changes. -/
theorem unpack_pack_or_infinity {m : Nat} {q : Int} (hlow : 2 ^ 52 ≤ m) (hhigh : m < 2 ^ 53)
    (hq : 0 ≤ q) (sign : Sign) (hm : 0 < m) :
    (Float.Model.pack (.finite sign m q hm)).unpack = .finite sign m q hm ∨
      (Float.Model.pack (.finite sign m q hm)).unpack = .infinity sign := by
  by_cases hfits : q ≤ 971
  · have hcanonical : IsCanonical m q := ⟨hm, hhigh, by omega, hfits, .inl hlow⟩
    exact .inl (unpack_pack hcanonical sign)
  · have hpack : UnpackedFloat.pack .binary64 (.finite sign m q hm) =
        packedInfinity .binary64 sign := by
      rw [UnpackedFloat.pack]
      dsimp only
      rw [if_pos]
      show 2 ^ 11 ≤ (q + (1023 : Nat) + (52 : Nat)).toNat + 1
      omega
    refine .inr ?_
    show UnpackedFloat.unpack .binary64 (UnpackedFloat.pack .binary64 _) = _
    rw [hpack, unpack_packedInfinity]

theorem isWhole_of_nonneg {m : Nat} {q : Int} (hq : 0 ≤ q) : isWhole m q = true := by
  rw [isWhole, Int.toNat_of_nonpos (by omega), Nat.pow_eq, Nat.pow_zero, Nat.mod_one]
  rfl

/-- The digits of a whole number are read as a whole number, however many there are. -/
theorem isWhole_of_ofScientific {n m : Nat} {q : Int} {sign : Sign} {hm : 0 < m}
    (h : (Float.Model.ofScientific n 0).unpack = .finite sign m q hm) : isWhole m q = true := by
  rw [Float.Model.ofScientific] at h
  by_cases hn : n = 0
  · have hzero : (Float.Model.pack (.zero .positive)).unpack = .zero .positive := unpack_packedZero
    rw [UnpackedFloat.ofScientific, dif_pos hn, hzero] at h
    cases h
  by_cases hsmall : n.log2 < 53
  · obtain ⟨m', q', hcanonical, hwrites, hwhole⟩ :=
      exists_writes_of_small (Nat.pos_of_ne_zero hn) hsmall
    have hread := hcanonical.ofScientific_of_writes hwrites
    rw [Int.natCast_zero, Int.neg_zero] at hread
    rw [hread, unpack_pack hcanonical] at h
    cases h
    exact hwhole
  · obtain ⟨m', q', hm', hround, hlow, hhigh, hq⟩ := exists_round_of_large (Nat.le_of_not_lt hsmall)
    have hread : UnpackedFloat.ofScientific .binary64 n 0 = .finite .positive m' q' hm' := by
      rw [UnpackedFloat.ofScientific, dif_neg hn, if_neg (by decide), if_neg, if_pos (by decide),
        UnpackedFloat.mul, Nat.shiftLeft_eq, Int.toNat_zero, Nat.pow_zero, Nat.mul_one]
      · exact hround
      · show ¬ (0 : Int) < -((2 ^ 11 : Int) + n.log2)
        omega
    rw [hread] at h
    rcases unpack_pack_or_infinity hlow hhigh hq .positive hm' with hsame | hinfinity
    · rw [hsame] at h
      cases h
      exact isWhole_of_nonneg hq
    · rw [hinfinity] at h
      cases h

/-! ## The rational number behind a binary64 number -/

/-- The factor that a sign stands for. -/
def factor : Sign → ℤ
  | .positive => 1
  | .negative => -1

/-- The rational number that a finite number stands for. -/
def exactValue? (x : Float) : Option ℚ :=
  match x.toModel.unpack with
  | .zero _ => some 0
  | .finite sign significand power _ => some (factor sign * significand * 2 ^ power)
  | .notANumber | .infinity _ => none

/-- The number is finite and stands for an integer. -/
def IsInteger (x : Float) : Prop :=
  ∃ n : ℤ, exactValue? x = some (n : ℚ)

theorem isWhole_iff (sign : Sign) (significand : Nat) (power : Int) :
    isWhole significand power = true ↔
      ∃ n : ℤ, (factor sign * significand * 2 ^ power : ℚ) = n := by
  have hpow : (2 : ℚ) ^ power * 2 ^ (-power).toNat = 2 ^ power.toNat := by
    rw [← zpow_natCast, ← zpow_natCast, ← zpow_add₀ two_ne_zero]
    congr 1
    omega
  rw [isWhole, beq_iff_eq, Nat.pow_eq, ← Nat.dvd_iff_mod_eq_zero]
  constructor
  · rintro ⟨c, rfl⟩
    refine ⟨factor sign * c * 2 ^ power.toNat, ?_⟩
    push_cast
    rw [← hpow]
    ring
  · rintro ⟨n, hn⟩
    have hscaled : (factor sign * significand * 2 ^ power.toNat : ℚ) = n * 2 ^ (-power).toNat := by
      rw [← hpow, ← hn]
      ring
    have hint : factor sign * significand * 2 ^ power.toNat = n * 2 ^ (-power).toNat := by
      exact_mod_cast hscaled
    by_cases hp : 0 ≤ power
    · rw [Int.toNat_of_nonpos (by omega), Nat.pow_zero]
      exact Nat.one_dvd significand
    · rw [Int.toNat_of_nonpos (by omega), pow_zero, mul_one] at hint
      have hdvd : ((2 ^ (-power).toNat : Nat) : ℤ) ∣ significand := by
        cases sign with
        | positive =>
          refine ⟨n, ?_⟩
          rw [factor] at hint
          push_cast
          linarith
        | negative =>
          refine ⟨-n, ?_⟩
          rw [factor] at hint
          push_cast
          linarith
      exact Int.natCast_dvd_natCast.mp hdvd

theorem isInteger_iff_of_finite {x : Float} {sign : Sign} {significand : Nat} {power : Int}
    {h : 0 < significand} (hx : x.toModel.unpack = .finite sign significand power h) :
    IsInteger x ↔ isWhole significand power = true := by
  rw [isWhole_iff sign, IsInteger, exactValue?, hx]
  simp only [Option.some.injEq]

theorem isInteger_of_zero {x : Float} {sign : Sign} (hx : x.toModel.unpack = .zero sign) :
    IsInteger x := by
  refine ⟨0, ?_⟩
  rw [exactValue?, hx, Int.cast_zero]

end Binary64
end Abacus
