import Abacus.Arithmetic.Rounding
import Abacus.Proofs.ExactSums
/-!
Rounding to the nearest integer is exact.

Only one of the three steps rounds anything. A floor is a number of the format, and so is the
integer after it where it is asked for. The distance to the floor is exact if it is less than one
half. From one half on it can be rounded, even to one, but not below one half, which is a number of
the format. So the comparison with one half has the answer of the exact distance.
-/

namespace Abacus
namespace Binary64

open Float.Model UnpackedFloat

/-! ## Order -/

section

variable {m m' : Nat} {q q' : Int} (h : IsCanonical m q) (h' : IsCanonical m' q')

include h h'

/-- With a higher power every significand has its leading bit. -/
theorem value_lt_of_power_lt (hq : q < q') : (m * 2 ^ q : ℚ) < m' * 2 ^ q' := by
  have hnormal : 2 ^ 52 ≤ m' := by
    have := h.low
    rcases h'.normal with hnormal | hlowest
    · exact hnormal
    · omega
  have hdouble : m < m' * 2 := by
    have := h.lt
    omega
  have hdouble' : (m : ℚ) < m' * 2 := by exact_mod_cast hdouble
  calc (m * 2 ^ q : ℚ)
      < m' * 2 * 2 ^ q := mul_lt_mul_of_pos_right hdouble' (zpow_pos two_pos q)
    _ = m' * 2 ^ (q + 1) := by rw [zpow_add_one₀ two_ne_zero]; ring
    _ ≤ m' * 2 ^ q' :=
        mul_le_mul_of_nonneg_left (zpow_le_zpow_right₀ one_le_two hq) m'.cast_nonneg

/-- The order of the values is the order of the powers, then of the significands. -/
theorem compare_value :
    compare (m * 2 ^ q : ℚ) (m' * 2 ^ q') = (compare q q').then (compare m m') := by
  rcases lt_trichotomy q q' with hq | rfl | hq
  · rw [compare_lt_iff_lt.mpr hq, compare_lt_iff_lt.mpr (value_lt_of_power_lt h h' hq)]
    rfl
  · have hmono : StrictMono fun k : Nat => (k * 2 ^ q : ℚ) := fun _ _ hlt =>
      mul_lt_mul_of_pos_right (Nat.cast_lt.mpr hlt) (zpow_pos two_pos q)
    rw [compare_eq_iff_eq.mpr (rfl : q = q), ← cmp_eq_compare, ← cmp_eq_compare]
    exact hmono.cmp_map_eq m m'
  · rw [compare_gt_iff_gt.mpr hq, compare_gt_iff_gt.mpr (value_lt_of_power_lt h' h hq)]
    rfl

end

theorem isCanonical_half : IsCanonical (2 ^ 52) (-53) :=
  ⟨by decide, by decide, by decide, by decide, .inl (Nat.le_refl _)⟩

theorem unpack_half :
    (0.5 : Float).toModel.unpack = .finite .positive (2 ^ 52) (-53) isCanonical_half.pos := rfl

theorem half_eq : (1 / 2 : ℚ) = (2 ^ 52 : Nat) * 2 ^ (-53 : Int) := by norm_num

theorem half_le_iff {x : Float} {v : ℚ} (hx : exactValue? x = some v) :
    (0.5 : Float) ≤ x ↔ 1 / 2 ≤ v := by
  have hle : (0.5 : Float) ≤ x ↔
      ((0.5 : Float).toModel.unpack.compare x.toModel.unpack).any (·.isLE) = true :=
    decide_eq_true_iff
  rw [hle, unpack_half]
  rcases cases_of_exactValue? hx with ⟨sign, hs, rfl⟩ | ⟨sign, m, q, hm, hs, rfl⟩
  · rw [hs]
    norm_num [UnpackedFloat.compare]
  · have hpos : (0 : ℚ) < m * 2 ^ q := mul_pos (Nat.cast_pos.mpr hm) (zpow_pos two_pos q)
    rw [hs]
    cases sign with
    | negative =>
      refine iff_of_false Bool.false_ne_true (not_le.mpr ?_)
      rw [factor, Int.cast_neg, Int.cast_one, neg_one_mul, neg_mul]
      linarith
    | positive =>
      rw [half_eq, factor, Int.cast_one, one_mul, ← compare_le_iff_le,
        compare_value isCanonical_half (isCanonical_of_unpack hs)]
      exact Ordering.isLE_iff_ne_gt

/-! ## Fractions -/

/--
The number is a fraction with a numerator of at most 53 bits and a power of two as its denominator.
It need not be in lowest terms.
-/
structure IsDyadic (v : ℚ) (a : ℤ) (j : ℕ) : Prop where
  lt : a.natAbs < 2 ^ 53
  pos : 0 < j
  le : j ≤ 1074
  eq : v = a / (2 ^ j : ℕ)

/-- What the floor of a number is, of an integer and of a fraction. -/
theorem floor_spec {x : Float} {v : ℚ} (h : exactValue? x = some v) :
    (floor x = x ∧ ∃ n : ℤ, v = n) ∨
      ∃ a j, IsDyadic v a j ∧ floor x = rounded (a / (2 ^ j : ℕ)) 0 .positive := by
  rcases cases_of_exactValue? h with ⟨sign, hx, rfl⟩ | ⟨sign, m, q, hm, hx, rfl⟩
  · refine .inl ⟨?_, 0, Int.cast_zero.symm⟩
    rw [floor, hx]
  · have hc := isCanonical_of_unpack hx
    by_cases hq : 0 ≤ q
    · obtain ⟨j, rfl⟩ := Int.eq_ofNat_of_zero_le hq
      refine .inl ⟨?_, factor sign * m * 2 ^ j, by push_cast; rfl⟩
      rw [floor, hx]
      exact if_pos hq
    · obtain ⟨j, rfl⟩ : ∃ j : ℕ, q = -j := ⟨(-q).toNat, by omega⟩
      have hlow := hc.low
      refine .inr ⟨factor sign * m, j, ⟨?_, by omega, by omega, ?_⟩, ?_⟩
      · rw [Int.natAbs_mul, show (factor sign).natAbs = 1 by cases sign <;> rfl, one_mul,
          Int.natAbs_natCast]
        exact hc.lt
      · rw [zpow_neg, zpow_natCast]
        push_cast
        exact (div_eq_mul_inv _ _).symm
      · rw [floor, hx]
        dsimp only
        rw [if_neg hq, apply_eq_factor_mul, neg_neg, Int.toNat_natCast]
        rfl

namespace IsDyadic

variable {v : ℚ} {a : ℤ} {j : ℕ} (h : IsDyadic v a j)

include h

theorem floor_eq : ⌊v⌋ = a / (2 ^ j : ℕ) := by
  rw [h.eq, Rat.floor_intCast_div_natCast]

theorem fract_eq : Int.fract v = (a % (2 ^ j : ℕ) : ℤ) / (2 ^ j : ℕ) := by
  rw [h.eq, Int.fract_div_intCast_eq_div_intCast_mod]

theorem natAbs_floor_lt : (⌊v⌋).natAbs < 2 ^ 53 := by
  rw [h.floor_eq]
  exact (Int.natAbs_ediv_le_natAbs _ _).trans_lt h.lt

/-- The denominator is at least two, so the integer after the floor is no larger. -/
theorem natAbs_floor_add_one_lt : (⌊v⌋ + 1).natAbs < 2 ^ 53 := by
  have hlt := h.lt
  have hfloor := h.natAbs_floor_lt
  rcases Int.lt_or_le ⌊v⌋ 0 with hneg | hnonneg
  · omega
  · have hdenominator : (2 : ℤ) ≤ (2 ^ j : ℕ) := by
      exact_mod_cast Nat.le_self_pow h.pos.ne' 2
    have hdouble : ⌊v⌋ * 2 ≤ a :=
      calc ⌊v⌋ * 2 ≤ ⌊v⌋ * (2 ^ j : ℕ) := Int.mul_le_mul_of_nonneg_left hdenominator hnonneg
        _ ≤ a := by
          rw [h.floor_eq]
          exact Int.ediv_mul_le a (by omega)
    omega

/-- If less than one half is left over, what is left has at most 53 bits. -/
theorem natAbs_emod_lt (hsmall : Int.fract v < 1 / 2) : (a % (2 ^ j : ℕ)).natAbs < 2 ^ 53 := by
  have hlt := h.lt
  have hpos := Nat.two_pow_pos j
  have hnonneg : 0 ≤ a % (2 ^ j : ℕ) := Int.emod_nonneg a (by omega)
  have hhalf : a % (2 ^ j : ℕ) * 2 < (2 ^ j : ℕ) := by
    rw [h.fract_eq, div_lt_div_iff₀ (Nat.cast_pos.mpr hpos) two_pos, one_mul] at hsmall
    exact_mod_cast hsmall
  rcases Nat.lt_or_ge j 55 with hj | hj
  · have : 2 ^ j ≤ 2 ^ 54 := Nat.pow_le_pow_right two_pos (Nat.le_of_lt_succ hj)
    omega
  · -- A negative numerator would leave nearly the whole denominator.
    have hlarge : 2 ^ 55 ≤ 2 ^ j := Nat.pow_le_pow_right two_pos hj
    rcases Int.lt_or_le a 0 with hneg | ha
    · have hmod : a % (2 ^ j : ℕ) = a + (2 ^ j : ℕ) := by
        rw [← Int.add_emod_right, Int.emod_eq_of_lt (by omega) (by omega)]
      omega
    · rw [Int.emod_eq_of_lt ha (by omega)]
      exact hlt

theorem isRepresentable_fract (hsmall : Int.fract v < 1 / 2) : IsRepresentable (Int.fract v) := by
  have hle := h.le
  refine ⟨_, -j, h.natAbs_emod_lt hsmall, by omega, by omega, ?_⟩
  rw [h.fract_eq, zpow_neg, zpow_natCast, div_eq_mul_inv]
  push_cast
  rfl

end IsDyadic

/-! ## The floor -/

section

variable {x : Float} {v : ℚ} (h : exactValue? x = some v)

include h

/-- The floor is exact. -/
theorem exactValue?_floor : exactValue? (floor x) = some (⌊v⌋ : ℚ) := by
  rcases floor_spec h with ⟨hsame, n, rfl⟩ | ⟨a, j, hdyadic, hfloor⟩
  · rw [hsame, h, Int.floor_intCast]
  · rw [hfloor, ← hdyadic.floor_eq, exactValue?_rounded_intCast hdyadic.natAbs_floor_lt]

/-- The integer after the floor is exact, if the number is not an integer itself. -/
theorem exactValue?_floor_add_one (hfract : Int.fract v ≠ 0) :
    exactValue? (floor x + 1) = some ((⌊v⌋ + 1 : ℤ) : ℚ) := by
  rcases floor_spec h with ⟨-, n, rfl⟩ | ⟨a, j, hdyadic, -⟩
  · exact absurd (Int.fract_intCast n) hfract
  · have hone : exactValue? 1 = some ((1 : ℤ) : ℚ) := by
      rw [show (1 : Float) = rounded 1 0 .positive from rfl,
        exactValue?_rounded_intCast (by decide)]
    have hnext := isRepresentable_intCast hdyadic.natAbs_floor_add_one_lt
    rw [Int.cast_add] at hnext ⊢
    exact exactValue?_add (exactValue?_floor h) hone hnext

/-! ## The distance to the floor -/

theorem isRepresentable_fract_of_lt (hsmall : Int.fract v < 1 / 2) :
    IsRepresentable (Int.fract v) := by
  rcases floor_spec h with ⟨-, n, rfl⟩ | ⟨a, j, hdyadic, -⟩
  · have hzero : Int.fract (n : ℚ) = (0 : ℤ) := by rw [Int.fract_intCast, Int.cast_zero]
    rw [hzero]
    exact isRepresentable_intCast (by decide)
  · exact hdyadic.isRepresentable_fract hsmall

end

/-! ## Rounding from one half on -/

theorem two_zpow_le_value {n : Nat} (hn : 0 < n) (e : Int) :
    (2 : ℚ) ^ (totalExponent n e - 1) ≤ n * 2 ^ e := by
  have hpower : (2 : ℚ) ^ (totalExponent n e - 1) = (2 ^ n.log2 : Nat) * 2 ^ e := by
    rw [Nat.cast_pow, Nat.cast_ofNat, ← zpow_natCast, ← zpow_add₀ two_ne_zero, totalExponent]
    congr 1
    omega
  rw [hpower]
  exact mul_le_mul_of_nonneg_right (Nat.cast_le.mpr (Nat.log2_self_le hn.ne'))
    (zpow_pos two_pos e).le

theorem value_lt_two_zpow (n : Nat) (e : Int) : (n * 2 ^ e : ℚ) < 2 ^ totalExponent n e := by
  have hpower : (2 : ℚ) ^ totalExponent n e = (2 ^ (n.log2 + 1) : Nat) * 2 ^ e := by
    rw [Nat.cast_pow, Nat.cast_ofNat, ← zpow_natCast, ← zpow_add₀ two_ne_zero, totalExponent]
    congr 1
  rw [hpower]
  exact mul_lt_mul_of_pos_right (Nat.cast_lt.mpr Nat.lt_log2_self) (zpow_pos two_pos e)

/-- The leading bit of a number from one half to one stands right behind the point. -/
theorem totalExponent_eq_zero {n : Nat} {e : Int} (hn : 0 < n) (hlow : (1 / 2 : ℚ) ≤ n * 2 ^ e)
    (hhigh : (n * 2 ^ e : ℚ) < 1) : totalExponent n e = 0 := by
  have hleading : (2 : ℚ) ^ (totalExponent n e - 1) < 2 ^ (0 : Int) := by
    rw [zpow_zero]
    exact (two_zpow_le_value hn e).trans_lt hhigh
  have hbeyond : (2 : ℚ) ^ (-1 : Int) < 2 ^ totalExponent n e := by
    rw [zpow_neg_one, ← one_div]
    exact hlow.trans_lt (value_lt_two_zpow n e)
  have := (zpow_lt_zpow_iff_right₀ one_lt_two).mp hleading
  have := (zpow_lt_zpow_iff_right₀ one_lt_two).mp hbeyond
  omega

/-- A number from one half to one is not rounded below one half. -/
theorem half_le_rounded {n : ℤ} {e : Int} (hlow : (1 / 2 : ℚ) ≤ n * 2 ^ e)
    (hhigh : (n * 2 ^ e : ℚ) < 1) (zero : Sign) :
    ∃ w, exactValue? (rounded n e zero) = some w ∧ 1 / 2 ≤ w := by
  have hpos : 0 < n := by
    have hvalue : (0 : ℚ) < n * 2 ^ e := (half_pos one_pos).trans_le hlow
    exact_mod_cast pos_of_mul_pos_left hvalue (zpow_pos two_pos e).le
  obtain ⟨k, rfl⟩ := Int.eq_ofNat_of_zero_le hpos.le
  have hk : 0 < k := Int.natCast_pos.mp hpos
  have htotal := totalExponent_eq_zero hk hlow hhigh
  -- The significand is filled up to at least 53 bits before it is rounded.
  obtain ⟨t, ht⟩ : ∃ t, t = (e - -53).toNat := ⟨_, rfl⟩
  have hround : UnpackedFloat.normalize .binary64 k e zero =
      roundWithAccuracy .binary64 .positive (k * 2 ^ t) (e - t) .exact := by
    have hnormalize := normalize_factor_mul .positive zero hk e
    rw [factor, one_mul] at hnormalize
    rw [hnormalize, UnpackedFloat.round, htotal, decreaseExponent, IsCanonical.targetExponent_eq,
      ht, ← Nat.shiftLeft_eq]
    rfl
  have hlog := log2_mul_two_pow hk t
  rw [totalExponent] at htotal
  obtain ⟨m, q, hm, hfinite, hleading, hlt, hq, hq'⟩ :=
    exists_round_of_log2 (n := k * 2 ^ t) (e := e - t) .positive (by omega) (by omega)
  have hc : IsCanonical m q := ⟨hm, hlt, by omega, by omega, .inl hleading⟩
  refine ⟨_, exactValue?_of_finite (unpack_rounded hc (hround.trans hfinite)), ?_⟩
  calc (1 / 2 : ℚ) = (2 ^ 52 : Nat) * 2 ^ (-53 : Int) := half_eq
    _ ≤ m * 2 ^ q := mul_le_mul (Nat.cast_le.mpr hleading)
        (zpow_le_zpow_right₀ one_le_two (by omega)) (zpow_pos two_pos _).le m.cast_nonneg
    _ = factor .positive * m * 2 ^ q := by rw [factor, Int.cast_one, one_mul]

/-! ## Rounding half up -/

/-- The rounded distance is at least one half exactly if the distance is. -/
theorem half_le_sub_floor_iff {x : Float} {v : ℚ} (h : exactValue? x = some v) :
    (0.5 : Float) ≤ x - floor x ↔ 1 / 2 ≤ Int.fract v := by
  obtain ⟨n, e, zero, hsub, hvalue⟩ := exists_sub_eq_rounded h (exactValue?_floor h)
  rw [Int.self_sub_floor] at hvalue
  rw [hsub]
  rcases lt_or_ge (Int.fract v) (1 / 2) with hsmall | hlarge
  · rw [half_le_iff (exactValue?_rounded (hvalue ▸ isRepresentable_fract_of_lt h hsmall) zero),
      hvalue]
  · obtain ⟨w, hw, hhalf⟩ :=
      half_le_rounded (hvalue ▸ hlarge) (hvalue ▸ Int.fract_lt_one v) zero
    exact iff_of_true ((half_le_iff hw).mpr hhalf) hlarge

theorem floor_add_half (v : ℚ) :
    ⌊v + 1 / 2⌋ = if 1 / 2 ≤ Int.fract v then ⌊v⌋ + 1 else ⌊v⌋ := by
  have hsplit := Int.floor_add_fract v
  have hnonneg := Int.fract_nonneg v
  have hlt := Int.fract_lt_one v
  rw [Int.floor_eq_iff]
  split_ifs with hhalf
  · push_cast
    constructor <;> linarith
  · constructor <;> linarith

/-- What is no number and what is infinite stays as it is, because the distance is no number. -/
theorem roundHalfUp_of_none {x : Float} (h : exactValue? x = none) : roundHalfUp x = x := by
  have hcases : x.toModel.unpack = .notANumber ∨ ∃ sign, x.toModel.unpack = .infinity sign := by
    rw [exactValue?] at h
    cases hx : x.toModel.unpack with
    | notANumber => exact .inl rfl
    | infinity sign => exact .inr ⟨sign, rfl⟩
    | zero sign | finite sign m q hm =>
      rw [hx] at h
      contradiction
  have hfloor : floor x = x := by
    rcases hcases with hx | ⟨sign, hx⟩ <;> rw [floor, hx]
  have hdistance : x - x = .ofModel (.pack .notANumber) := by
    show Float.ofModel (.pack (UnpackedFloat.sub .binary64 x.toModel.unpack x.toModel.unpack)) = _
    rcases hcases with hx | ⟨sign, hx⟩ <;> rw [hx]
    · rfl
    · cases sign <;> rfl
  rw [roundHalfUp, hfloor, hdistance, if_neg (by decide)]

/--
Rounding half up is exact: a finite number becomes the floor of what is one half more. No other
number becomes finite.
-/
theorem exactValue?_roundHalfUp (x : Float) :
    exactValue? (roundHalfUp x) = (exactValue? x).map fun v => ((⌊v + 1 / 2⌋ : ℤ) : ℚ) := by
  cases h : exactValue? x with
  | none => rw [roundHalfUp_of_none h, h, Option.map_none]
  | some v =>
    rw [Option.map_some, floor_add_half, roundHalfUp]
    simp only [half_le_sub_floor_iff h]
    split_ifs with hhalf
    · exact exactValue?_floor_add_one h (by linarith)
    · exact exactValue?_floor h

-- Adding one half first would round the sum up to one.
example : roundHalfUp 0.49999999999999994 = 0 := by decide +kernel

end Binary64
end Abacus
