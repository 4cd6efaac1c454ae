import Abacus.Proofs.WholeNumbers
/-!
Sums of binary64 numbers that need no rounding.

A sum or a difference is the exact one, rounded. Rounding leaves a number alone if the format has
it, in whatever significand and power it comes. So where the exact sum is a number of the format, it
is the sum.
-/

namespace Abacus
namespace Binary64

open Float.Model UnpackedFloat

/-! ## Values -/

theorem apply_eq_factor_mul (sign : Sign) (n : ℤ) : sign.apply n = factor sign * n := by
  cases sign with
  | positive => exact (one_mul n).symm
  | negative => exact (neg_one_mul n).symm

theorem factor_neg (sign : Sign) : factor (-sign) = -factor sign := by
  cases sign <;> rfl

theorem exactValue?_of_zero {x : Float} {sign : Sign} (hx : x.toModel.unpack = .zero sign) :
    exactValue? x = some 0 := by
  rw [exactValue?, hx]

theorem exactValue?_of_finite {x : Float} {sign : Sign} {m : Nat} {q : Int} {hm : 0 < m}
    (hx : x.toModel.unpack = .finite sign m q hm) :
    exactValue? x = some (factor sign * m * 2 ^ q : ℚ) := by
  rw [exactValue?, hx]

/-- A number with a value is a zero or has a significand and a power. -/
theorem cases_of_exactValue? {x : Float} {v : ℚ} (h : exactValue? x = some v) :
    (∃ sign, x.toModel.unpack = .zero sign ∧ v = 0) ∨
      ∃ sign m q hm, x.toModel.unpack = .finite sign m q hm ∧ v = factor sign * m * 2 ^ q := by
  rw [exactValue?] at h
  cases hx : x.toModel.unpack with
  | notANumber | infinity sign =>
    rw [hx] at h
    contradiction
  | zero sign =>
    rw [hx] at h
    exact .inl ⟨sign, rfl, (Option.some.inj h).symm⟩
  | finite sign m q hm =>
    rw [hx] at h
    exact .inr ⟨sign, m, q, hm, rfl, (Option.some.inj h).symm⟩

theorem exactValue?_neg (x : Float) : exactValue? (-x) = (exactValue? x).map (-·) := by
  rw [exactValue?, exactValue?, unpack_neg]
  cases x.toModel.unpack with
  | notANumber | infinity sign => rfl
  | zero sign => simp [UnpackedFloat.neg]
  | finite sign m q hm => simp [UnpackedFloat.neg, factor_neg]

/-! ## Numbers of the format -/

/-- The format has the number. -/
def IsRepresentable (v : ℚ) : Prop :=
  ∃ n e : ℤ, n.natAbs < 2 ^ 53 ∧ -1074 ≤ e ∧ e ≤ 971 ∧ v = n * 2 ^ e

theorem isRepresentable_intCast {n : ℤ} (h : n.natAbs < 2 ^ 53) : IsRepresentable n :=
  ⟨n, 0, h, by decide, by decide, by rw [zpow_zero, mul_one]⟩

theorem abs_intCast_mul_two_zpow (n e : ℤ) : |(n * 2 ^ e : ℚ)| = n.natAbs * 2 ^ e := by
  rw [abs_mul, abs_of_pos (zpow_pos (two_pos : (0 : ℚ) < 2) e), ← Int.cast_abs, ← Nat.cast_natAbs]

theorem IsRepresentable.exists_isCanonical {v : ℚ} (h : IsRepresentable v) (hv : v ≠ 0) :
    ∃ m q, IsCanonical m q ∧ |v| = m * 2 ^ q := by
  obtain ⟨n, e, hlt, hlow, hhigh, rfl⟩ := h
  have hpos : 0 < n.natAbs := by
    refine Int.natAbs_pos.mpr fun hzero => hv ?_
    rw [hzero, Int.cast_zero, zero_mul]
  obtain ⟨t, hc⟩ := exists_isCanonical_shifted hpos hlt hlow hhigh
  refine ⟨_, _, hc, ?_⟩
  rw [abs_intCast_mul_two_zpow, zpow_sub₀ two_ne_zero, zpow_natCast]
  push_cast
  field_simp

/-! ## Rounding -/

/-- Two spellings of one number differ by zeros at the end of a significand. -/
theorem shifts_eq_of_value_eq {n m : Nat} {e q : Int} (h : (n * 2 ^ e : ℚ) = m * 2 ^ q) :
    n * 2 ^ (e - q).toNat = m * 2 ^ (q - e).toNat := by
  have hcommon : ∀ a b : Int, (2 : ℚ) ^ (a - b).toNat * 2 ^ min a b = 2 ^ a := by
    intro a b
    rw [← zpow_natCast, ← zpow_add₀ two_ne_zero]
    congr 1
    omega
  have hscaled : (n * 2 ^ (e - q).toNat * 2 ^ min e q : ℚ) =
      m * 2 ^ (q - e).toNat * 2 ^ min e q := by
    rw [mul_assoc, hcommon, min_comm, mul_assoc, hcommon, h]
  have hpos : (2 : ℚ) ^ min e q ≠ 0 := zpow_ne_zero _ two_ne_zero
  exact_mod_cast mul_right_cancel₀ hpos hscaled

/-- Rounding finds the significand and the power of a number that has them. -/
theorem round_of_isCanonical {n m : Nat} {e q : Int} (hc : IsCanonical m q) (sign : Sign)
    (h : (n * 2 ^ e : ℚ) = m * 2 ^ q) :
    UnpackedFloat.round .binary64 sign n e = .finite sign m q hc.pos := by
  have hshift := shifts_eq_of_value_eq h
  have hn : 0 < n := by
    refine Nat.pos_of_ne_zero fun hzero => ?_
    have := Nat.mul_pos hc.pos (Nat.two_pow_pos (q - e).toNat)
    rw [hzero, Nat.zero_mul] at hshift
    omega
  have hpower : e - (e - q).toNat = q - (q - e).toNat := by omega
  have htotal : totalExponent n e = totalExponent m q := by
    rw [← totalExponent_mul_two_pow hn e (e - q).toNat, hshift, hpower,
      totalExponent_mul_two_pow hc.pos]
  have hround := hc.roundWithAccuracy_shifted sign (q - e).toNat
  rw [UnpackedFloat.round, htotal, hc.targetExponent, decreaseExponent]
  dsimp only
  rw [Nat.shiftLeft_eq, hshift, hpower]
  exact hround

/-- The binary64 number for an exact result, `zero` being the sign of a zero. -/
def rounded (n : ℤ) (e : Int) (zero : Sign) : Float :=
  .ofModel (.pack (UnpackedFloat.normalize .binary64 n e zero))

theorem normalize_factor_mul (sign zero : Sign) {n : Nat} (hn : 0 < n) (e : Int) :
    UnpackedFloat.normalize .binary64 (factor sign * n) e zero =
      UnpackedFloat.round .binary64 sign n e := by
  rw [UnpackedFloat.normalize]
  cases sign with
  | positive =>
    rw [show factor .positive * (n : ℤ) = n by rw [factor, one_mul],
      Int.compare_eq_gt.mpr (by omega), Int.toNat_natCast]
  | negative =>
    rw [show factor .negative * (n : ℤ) = -n by rw [factor, neg_one_mul],
      Int.compare_eq_lt.mpr (by omega), neg_neg, Int.toNat_natCast]

theorem exists_factor_mul {n : ℤ} (h : n ≠ 0) : ∃ sign, n = factor sign * n.natAbs := by
  rcases lt_or_gt_of_ne h with hneg | hpos
  · exact ⟨.negative, by rw [factor]; omega⟩
  · exact ⟨.positive, by rw [factor]; omega⟩

theorem normalize_of_isCanonical {n m : Nat} {e q : Int} (hc : IsCanonical m q)
    (sign zero : Sign) (hn : 0 < n) (h : (n * 2 ^ e : ℚ) = m * 2 ^ q) :
    UnpackedFloat.normalize .binary64 (factor sign * n) e zero = .finite sign m q hc.pos := by
  rw [normalize_factor_mul sign zero hn, round_of_isCanonical hc sign h]

theorem unpack_rounded {n : ℤ} {e q : Int} {zero sign : Sign} {m : Nat} (hc : IsCanonical m q)
    (h : UnpackedFloat.normalize .binary64 n e zero = .finite sign m q hc.pos) :
    (rounded n e zero).toModel.unpack = .finite sign m q hc.pos := by
  show (Float.Model.pack (UnpackedFloat.normalize .binary64 n e zero)).unpack = _
  rw [h, unpack_pack hc]

/-- Rounding leaves the numbers of the format alone. -/
theorem exactValue?_rounded {n : ℤ} {e : Int} (h : IsRepresentable (n * 2 ^ e)) (zero : Sign) :
    exactValue? (rounded n e zero) = some (n * 2 ^ e : ℚ) := by
  by_cases hn : n = 0
  · subst hn
    have hzero : (rounded 0 e zero).toModel.unpack = .zero zero := unpack_packedZero
    rw [exactValue?_of_zero hzero, Int.cast_zero, zero_mul]
  · have hne : (n * 2 ^ e : ℚ) ≠ 0 :=
      mul_ne_zero (Int.cast_ne_zero.mpr hn) (zpow_ne_zero e two_ne_zero)
    obtain ⟨m, q, hc, hsize⟩ := h.exists_isCanonical hne
    rw [abs_intCast_mul_two_zpow] at hsize
    obtain ⟨sign, hsign⟩ := exists_factor_mul hn
    have hfinite := normalize_of_isCanonical hc sign zero (Int.natAbs_pos.mpr hn) hsize
    rw [← hsign] at hfinite
    have hvalue : (n : ℚ) = factor sign * n.natAbs := by
      have := congrArg (Int.cast : ℤ → ℚ) hsign
      rwa [Int.cast_mul, Int.cast_natCast] at this
    rw [exactValue?_of_finite (unpack_rounded hc hfinite), mul_assoc, ← hsize, ← mul_assoc,
      ← hvalue]

theorem exactValue?_rounded_intCast {n : ℤ} (h : n.natAbs < 2 ^ 53) (zero : Sign) :
    exactValue? (rounded n 0 zero) = some (n : ℚ) := by
  have hvalue : (n * 2 ^ (0 : ℤ) : ℚ) = n := by rw [zpow_zero, mul_one]
  have hrounded := exactValue?_rounded (hvalue ▸ isRepresentable_intCast h) zero
  rwa [hvalue] at hrounded

/-! ## Sums -/

/-- A significand is written with a lower power. -/
theorem apply_shiftLeft_value (sign : Sign) (m : Nat) {e d : Int} (h : d ≤ e) :
    ((sign.apply (m <<< (e - d).toNat : Nat) : ℤ) * 2 ^ d : ℚ) = factor sign * m * 2 ^ e := by
  have hpower : (2 : ℚ) ^ (e - d).toNat * 2 ^ d = 2 ^ e := by
    rw [← zpow_natCast, ← zpow_add₀ two_ne_zero]
    congr 1
    omega
  rw [apply_eq_factor_mul, Nat.shiftLeft_eq, ← hpower]
  push_cast
  ring

/-- A sum is the exact one, rounded. -/
theorem exists_add_eq_rounded {x y : Float} {v w : ℚ} (hx : exactValue? x = some v)
    (hy : exactValue? y = some w) :
    ∃ n e zero, x + y = rounded n e zero ∧ (n * 2 ^ e : ℚ) = v + w := by
  have hsum : x + y = .ofModel (.pack
      (UnpackedFloat.add .binary64 x.toModel.unpack y.toModel.unpack)) := rfl
  rcases cases_of_exactValue? hx with ⟨s, hs, rfl⟩ | ⟨s, m, q, hm, hs, rfl⟩
  · rcases cases_of_exactValue? hy with ⟨s', hs', rfl⟩ | ⟨s', m', q', hm', hs', rfl⟩
    · refine ⟨0, 0, if s == s' then s else .positive, ?_, by simp⟩
      rw [hsum, hs, hs', UnpackedFloat.add]
      split <;> rfl
    · refine ⟨factor s' * m', q', .positive, ?_, by push_cast; ring⟩
      rw [hsum, hs, hs', rounded,
        normalize_of_isCanonical (isCanonical_of_unpack hs') s' .positive hm' rfl]
      rfl
  · rcases cases_of_exactValue? hy with ⟨s', hs', rfl⟩ | ⟨s', m', q', hm', hs', rfl⟩
    · refine ⟨factor s * m, q, .positive, ?_, by push_cast; ring⟩
      rw [hsum, hs, hs', rounded,
        normalize_of_isCanonical (isCanonical_of_unpack hs) s .positive hm rfl]
      rfl
    · refine ⟨_, min q q', .positive, by rw [hsum, hs, hs']; rfl, ?_⟩
      rw [Int.cast_add, add_mul, apply_shiftLeft_value s m (min_le_left q q'),
        apply_shiftLeft_value s' m' (min_le_right q q')]

theorem exactValue?_add {x y : Float} {v w : ℚ} (hx : exactValue? x = some v)
    (hy : exactValue? y = some w) (h : IsRepresentable (v + w)) :
    exactValue? (x + y) = some (v + w) := by
  obtain ⟨n, e, zero, hsum, hvalue⟩ := exists_add_eq_rounded hx hy
  rw [← hvalue] at h ⊢
  rw [hsum, exactValue?_rounded h]

theorem unpacked_sub_eq_add_neg (a b : UnpackedFloat) :
    UnpackedFloat.sub .binary64 a b = UnpackedFloat.add .binary64 a b.neg := by
  cases a with
  | notANumber | infinity s | zero s => cases b <;> rfl
  | finite s m q hm =>
    cases b with
    | notANumber | infinity s' | zero s' => rfl
    | finite s' m' q' hm' =>
      rw [UnpackedFloat.sub, UnpackedFloat.neg, UnpackedFloat.add]
      dsimp only
      rw [apply_eq_factor_mul (-s'), factor_neg, neg_mul, ← apply_eq_factor_mul s',
        ← sub_eq_add_neg]

/-- A difference is the sum with the negative number. -/
theorem float_sub_eq_add_neg (x y : Float) : x - y = x + -y := by
  show Float.ofModel (.pack (UnpackedFloat.sub .binary64 x.toModel.unpack y.toModel.unpack)) =
    .ofModel (.pack (UnpackedFloat.add .binary64 x.toModel.unpack (-y).toModel.unpack))
  rw [unpack_neg, unpacked_sub_eq_add_neg]

/-- A difference is the exact one, rounded. -/
theorem exists_sub_eq_rounded {x y : Float} {v w : ℚ} (hx : exactValue? x = some v)
    (hy : exactValue? y = some w) :
    ∃ n e zero, x - y = rounded n e zero ∧ (n * 2 ^ e : ℚ) = v - w := by
  have hneg : exactValue? (-y) = some (-w) := by
    rw [exactValue?_neg, hy]
    rfl
  rw [float_sub_eq_add_neg, sub_eq_add_neg]
  exact exists_add_eq_rounded hx hneg

end Binary64
end Abacus
