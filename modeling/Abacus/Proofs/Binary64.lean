import Mathlib
/-!
The finite binary64 numbers: one significand and power of two for each, and numbers that can be
written with them without rounding.

`pack_unpack` says that a number is determined by what its bits mean, `unpack_pack` that every
significand and power in the range of the format are those of a number, and `ofScientific_of_writes`
that a decimal with the value of a binary64 number is read as that number. The rounding step is
looked at only where nothing is left to round.
-/

namespace Abacus
namespace Binary64

open Float.Model UnpackedFloat

/-! ## Bits and their meaning -/

theorem toNat_implicit_append (m : BitVec 52) : (1#1 ++ m).toNat = 2 ^ 52 + m.toNat := by
  rw [BitVec.toNat_append, ← Nat.shiftLeft_add_eq_or_of_lt m.isLt]
  rfl

/-- The bits of a number are given back by what they mean. -/
theorem pack_unpack (f : Float.Model) : Float.Model.pack f.unpack = f := by
  obtain ⟨bits, hvalid⟩ := f
  simp only [Float.Model.pack, Float.Model.unpack, pack_unpack_of_valid hvalid]

theorem eq_of_unpack_eq {x y : Float} (h : x.toModel.unpack = y.toModel.unpack) : x = y := by
  have hmodel : x.toModel = y.toModel := by rw [← pack_unpack x.toModel, h, pack_unpack]
  cases x
  cases y
  exact congrArg Float.ofModel hmodel

/-- A significand and a power of two that stand for a finite number in the one way that is used. -/
structure IsCanonical (significand : Nat) (power : Int) : Prop where
  pos : 0 < significand
  lt : significand < 2 ^ 53
  low : -1074 ≤ power
  high : power ≤ 971
  normal : 2 ^ 52 ≤ significand ∨ power = -1074

theorem isCanonical_of_unpack {f : Float.Model} {sign : Sign} {significand : Nat} {power : Int}
    {h : 0 < significand} (hf : f.unpack = .finite sign significand power h) :
    IsCanonical significand power := by
  rw [Float.Model.unpack, UnpackedFloat.unpack] at hf
  dsimp only at hf
  generalize f.toBits.toBitVec = b at hf
  by_cases hmax : @unpackExponent .binary64 b = -1#_
  · rw [if_pos hmax] at hf
    by_cases hzero : @unpackMantissa .binary64 b = 0#_
    · rw [if_pos hzero] at hf
      cases hf
    · rw [if_neg hzero] at hf
      cases hf
  · rw [if_neg hmax] at hf
    by_cases hsub : @unpackExponent .binary64 b = 0#_
    · rw [if_pos hsub] at hf
      by_cases hzero : @unpackMantissa .binary64 b = 0#_
      · rw [dif_pos hzero] at hf
        cases hf
      · rw [dif_neg hzero, hsub] at hf
        have hlt := (@unpackMantissa .binary64 b).isLt
        cases hf
        refine ⟨h, ?_, by decide, by decide, .inr rfl⟩
        exact Nat.lt_trans hlt (by decide)
    · rw [if_neg hsub] at hf
      have hlt := (@unpackMantissa .binary64 b).isLt
      have hexponent := (@unpackExponent .binary64 b).isLt
      have hne : (@unpackExponent .binary64 b).toNat ≠ 0 :=
        fun h => hsub (BitVec.eq_of_toNat_eq h)
      have hne' : (@unpackExponent .binary64 b).toNat ≠ 2 ^ 11 - 1 :=
        fun h => hmax (BitVec.eq_of_toNat_eq h)
      have hvalue := toNat_implicit_append (@unpackMantissa .binary64 b)
      cases hf
      rw [hvalue] at h ⊢
      change (@unpackMantissa .binary64 b).toNat < 2 ^ 52 at hlt
      change (@unpackExponent .binary64 b).toNat < 2 ^ 11 at hexponent
      show IsCanonical (2 ^ 52 + (@unpackMantissa .binary64 b).toNat)
        ((@unpackExponent .binary64 b).toNat - ((1023 : Nat) + (52 : Nat)))
      constructor <;> omega

section

variable {significand : Nat} {power : Int}

theorem pack_normal (h : IsCanonical significand power) (hn : 2 ^ 52 ≤ significand) (sign : Sign) :
    UnpackedFloat.pack .binary64 (.finite sign significand power h.pos) =
      packComponents .binary64 sign (BitVec.ofNat 11 (power + 1075).toNat)
        (BitVec.ofNat 52 significand) := by
  have hlow := h.low
  have hhigh := h.high
  have hlog : significand.log2 = 52 := (Nat.log2_eq_iff h.pos.ne').mpr ⟨hn, h.lt⟩
  have hbiased : (power + Format.binary64.exponentBias + (52 : Nat)).toNat =
      (power + 1075).toNat := by
    show (power + (1023 : Nat) + (52 : Nat)).toNat = (power + 1075).toNat
    omega
  rw [UnpackedFloat.pack]
  dsimp only
  rw [hbiased, if_neg (by omega), if_pos (by rw [hlog]; rfl)]

theorem pack_subnormal (h : IsCanonical significand power) (hn : significand < 2 ^ 52)
    (sign : Sign) :
    UnpackedFloat.pack .binary64 (.finite sign significand power h.pos) =
      packComponents .binary64 sign 0#_ (BitVec.ofNat 52 significand) := by
  have hpower : power = -1074 := h.normal.resolve_left (Nat.not_le_of_lt hn)
  have hlog : significand.log2 < 52 := (Nat.log2_lt h.pos.ne').mpr hn
  subst hpower
  rw [UnpackedFloat.pack]
  dsimp only
  rw [if_neg (by decide), if_neg]
  show ¬ significand.log2 + 1 = 53
  omega

/-- A number keeps its significand and its power when it is written in bits. -/
theorem unpack_pack (h : IsCanonical significand power) (sign : Sign) :
    (Float.Model.pack (.finite sign significand power h.pos)).unpack =
      .finite sign significand power h.pos := by
  have hlow := h.low
  have hhigh := h.high
  have hpos := h.pos
  have hlt := h.lt
  show UnpackedFloat.unpack .binary64 (UnpackedFloat.pack .binary64 _) = _
  by_cases hn : 2 ^ 52 ≤ significand
  · have hexponent : (BitVec.ofNat 11 (power + 1075).toNat).toNat = (power + 1075).toNat := by
      rw [BitVec.toNat_ofNat, Nat.mod_eq_of_lt (by omega)]
    have hmax : BitVec.ofNat 11 (power + 1075).toNat ≠ -1#11 := by
      intro heq
      have : (power + 1075).toNat = 2 ^ 11 - 1 := by rw [← hexponent, heq]; rfl
      omega
    have hzero : BitVec.ofNat 11 (power + 1075).toNat ≠ 0#11 := by
      intro heq
      have : (power + 1075).toNat = 0 := by rw [← hexponent, heq]; rfl
      omega
    have hsignificand : (1#1 ++ BitVec.ofNat 52 significand).toNat = significand := by
      rw [toNat_implicit_append, BitVec.toNat_ofNat]
      omega
    have hpower : ((BitVec.ofNat 11 (power + 1075).toNat).toNat : Int) -
        ((1023 : Nat) + (52 : Nat)) = power := by
      rw [hexponent]
      omega
    rw [pack_normal h hn, UnpackedFloat.unpack]
    dsimp only
    rw [unpackExponent_packComponents, if_neg hmax, if_neg hzero]
    simp only [unpackMantissa_packComponents, unpackSign_packComponents, Sign.ofBitVec_toBitVec,
      hsignificand]
    exact congrArg (UnpackedFloat.finite sign significand · hpos) hpower
  · have hpower : power = -1074 := h.normal.resolve_left hn
    have hsignificand : (BitVec.ofNat 52 significand).toNat = significand := by
      rw [BitVec.toNat_ofNat, Nat.mod_eq_of_lt (by omega)]
    have hzero : BitVec.ofNat 52 significand ≠ 0#52 := by
      intro heq
      have : significand = 0 := by rw [← hsignificand, heq]; rfl
      omega
    subst hpower
    rw [pack_subnormal h (Nat.lt_of_not_le hn), UnpackedFloat.unpack]
    dsimp only
    rw [unpackExponent_packComponents, if_neg (by decide), if_pos rfl]
    simp only [unpackMantissa_packComponents, unpackSign_packComponents, Sign.ofBitVec_toBitVec]
    rw [dif_neg hzero]
    simp only [hsignificand]
    rfl

end

theorem unpack_packedInfinity (sign : Sign) :
    UnpackedFloat.unpack .binary64 (packedInfinity .binary64 sign) = .infinity sign := by
  simp [UnpackedFloat.unpack, packedInfinity]

theorem unpack_neg (x : Float) : (-x).toModel.unpack = x.toModel.unpack.neg := by
  show (Float.Model.pack x.toModel.unpack.neg).unpack = _
  cases hx : x.toModel.unpack with
  | notANumber => exact unpack_packedNaN
  | infinity sign => exact unpack_packedInfinity (-sign)
  | zero sign => exact unpack_packedZero
  | finite sign significand power hpos => exact unpack_pack (isCanonical_of_unpack hx) (-sign)

theorem neg_neg_self (x : Float) : - -x = x := by
  refine eq_of_unpack_eq ?_
  rw [unpack_neg, unpack_neg]
  cases x.toModel.unpack with
  | notANumber => rfl
  | infinity sign | zero sign | finite sign _ _ _ => cases sign <;> rfl

theorem beq_eq (x y : Float) : (x == y) = x.toModel.unpack.beq y.toModel.unpack := rfl

/-! ## Rounding where nothing is lost -/

/-- `digits / 10 ^ places` is the number `significand · 2 ^ power`. -/
def Writes (digits places significand : Nat) (power : Int) : Prop :=
  digits * 2 ^ (-power).toNat = significand * 2 ^ power.toNat * 10 ^ places

theorem log2_mul_two_pow {m : Nat} (hm : 0 < m) (j : Nat) : (m * 2 ^ j).log2 = m.log2 + j := by
  have hpos : m * 2 ^ j ≠ 0 := Nat.mul_ne_zero (by omega) (Nat.two_pow_pos j).ne'
  rw [Nat.log2_eq_iff hpos, Nat.add_right_comm, Nat.pow_add, Nat.pow_add]
  exact ⟨Nat.mul_le_mul_right _ (Nat.log2_self_le (by omega)),
    Nat.mul_lt_mul_of_pos_right Nat.lt_log2_self (Nat.two_pow_pos j)⟩

theorem totalExponent_mul_two_pow {m : Nat} (hm : 0 < m) (e : Int) (j : Nat) :
    totalExponent (m * 2 ^ j) (e - j) = totalExponent m e := by
  rw [totalExponent, totalExponent, log2_mul_two_pow hm]
  push_cast
  ring

theorem shiftRight_mul_two_pow (m j : Nat) :
    (⟨m * 2 ^ j, false, false⟩ : ExtendedMantissa) >>> j = ⟨m, false, false⟩ := by
  show j.repeat ExtendedMantissa.shiftRightOne ⟨m * 2 ^ j, false, false⟩ = _
  induction j generalizing m with
  | zero => rw [Nat.pow_zero, Nat.mul_one]; rfl
  | succ j ih =>
    rw [Nat.repeat, Nat.pow_succ', ← Nat.mul_assoc, ih, ExtendedMantissa.shiftRightOne]
    simp

namespace IsCanonical

variable {significand : Nat} {power : Int}

theorem targetExponent_eq (e : Int) :
    Format.binary64.targetExponent e = max (e - 53) (-1074) := rfl

/-- The power is the one that the format wants for a number of this size. -/
theorem targetExponent (h : IsCanonical significand power) :
    Format.binary64.targetExponent (totalExponent significand power) = power := by
  rw [targetExponent_eq, totalExponent]
  have hlog : significand.log2 < 53 := (Nat.log2_lt h.pos.ne').mpr h.lt
  have hlow := h.low
  rcases h.normal with hn | hn
  · have := (Nat.le_log2 h.pos.ne').mpr hn
    omega
  · omega

/-- Bits that are shifted out are zero, so the rounding takes none of the value away. -/
theorem roundWithAccuracy_shifted (h : IsCanonical significand power) (sign : Sign) (j : Nat) :
    roundWithAccuracy .binary64 sign (significand * 2 ^ j) (power - j) .exact =
      .finite sign significand power h.pos := by
  have hshift : ∀ j : Nat, shiftToTargetExponent .binary64 (significand * 2 ^ j) (power - j) .exact =
      (⟨significand, false, false⟩, power) := by
    intro j
    rw [shiftToTargetExponent, totalExponent_mul_two_pow h.pos, h.targetExponent, shiftToExponent]
    rw [show (power - (power - (j : Int))).toNat = j by omega, ExtendedMantissa.ofMantissaAndAccuracy,
      shiftRight_mul_two_pow, sub_add_cancel]
  have hsecond := hshift 0
  rw [Nat.pow_zero, Nat.mul_one, Int.natCast_zero, Int.sub_zero] at hsecond
  rw [roundWithAccuracy, hshift j]
  simp only [ExtendedMantissa.roundedMantissa, ExtendedMantissa.accuracy,
    Accuracy.roundToNearestEven, hsecond]
  rw [dif_neg h.pos.ne']

/-! ## Decimals with the value of a binary64 number -/

variable {digits places : Nat}

theorem digits_pos (h : IsCanonical significand power) (hw : Writes digits places significand power) :
    0 < digits := by
  refine Nat.pos_of_ne_zero fun hzero => ?_
  have hpos : 0 < significand * 2 ^ power.toNat * 10 ^ places :=
    Nat.mul_pos (Nat.mul_pos h.pos (Nat.two_pow_pos _)) (Nat.pow_pos (by decide))
  rw [Writes, hzero, Nat.zero_mul] at hw
  omega

/-- The number is not so small that it is taken for zero at once. -/
theorem places_le (h : IsCanonical significand power) (hw : Writes digits places significand power) :
    places ≤ 2 ^ 11 + digits.log2 := by
  have hlow := h.low
  refine Nat.le_of_not_lt fun hlt => ?_
  have hdigits : digits < 2 ^ (digits.log2 + 1) := Nat.lt_log2_self
  have hten : 2 ^ places ≤ 10 ^ places := Nat.pow_le_pow_left (by decide) places
  have hright : 10 ^ places ≤ digits * 2 ^ (-power).toNat := by
    rw [hw]
    exact Nat.le_mul_of_pos_left _ (Nat.mul_pos h.pos (Nat.two_pow_pos _))
  have hleft : digits * 2 ^ (-power).toNat < 2 ^ (digits.log2 + 1 + (-power).toNat) := by
    rw [Nat.pow_add]
    exact Nat.mul_lt_mul_of_pos_right hdigits (Nat.two_pow_pos _)
  have := (Nat.pow_lt_pow_iff_right (by decide)).mp (Nat.lt_of_le_of_lt (hten.trans hright) hleft)
  omega

theorem digits_mul_two_pow (hw : Writes digits places significand power) (shift j : Nat)
    (hpower : power = j - shift) : digits * 2 ^ shift = significand * 2 ^ j * 10 ^ places := by
  rw [Writes] at hw
  rcases Int.le_total 0 power with hp | hp
  · rw [show (-power).toNat = 0 by omega, Nat.pow_zero, Nat.mul_one] at hw
    rw [hw, show j = power.toNat + shift by omega, Nat.pow_add]
    ring
  · rw [show power.toNat = 0 by omega, Nat.pow_zero, Nat.mul_one] at hw
    rw [show shift = (-power).toNat + j by omega, Nat.pow_add, ← Nat.mul_assoc, hw]
    ring

/-- A whole number has no bits below the unit, so its power is not far below zero. -/
theorem power_ge_of_whole (h : IsCanonical significand power)
    (hw : Writes digits 0 significand power) : -53 ≤ power := by
  have hpos := h.digits_pos hw
  rw [Writes, Nat.pow_zero, Nat.mul_one] at hw
  by_contra hlt
  have hlarge : 2 ^ 53 ≤ digits * 2 ^ (-power).toNat :=
    (Nat.pow_le_pow_right (by decide) (by omega)).trans (Nat.le_mul_of_pos_left _ hpos)
  rw [hw, show power.toNat = 0 by omega, Nat.pow_zero, Nat.mul_one] at hlarge
  have := h.lt
  omega

/-- A whole number is multiplied by one. -/
theorem mul_whole (h : IsCanonical significand power) (hw : Writes digits 0 significand power)
    (hdigits : 0 < digits <<< 53) (hone : 0 < 10 ^ (0 : Nat)) :
    UnpackedFloat.mul .binary64 (.finite .positive (digits <<< 53) (-53) hdigits)
        (.finite .positive (10 ^ (0 : Nat)) 0 hone) =
      .finite .positive significand power h.pos := by
  have hpower := h.power_ge_of_whole hw
  have hvalue := digits_mul_two_pow hw 53 (power + 53).toNat (by omega)
  have hround := h.roundWithAccuracy_shifted .positive (power + 53).toNat
  rw [show power - ((power + 53).toNat : Int) = -53 + 0 by omega] at hround
  rw [UnpackedFloat.mul, Nat.shiftLeft_eq, hvalue, Nat.pow_zero, Nat.mul_one, Nat.mul_one]
  exact hround

/-- The power at which a fraction is divided out is not above that of its value. -/
theorem targetExponent_le_of_fraction (h : IsCanonical significand power)
    (hw : Writes digits places significand power) (hp : power < 0) :
    Format.binary64.targetExponent (totalExponent digits 0 - totalExponent (10 ^ places) 0) ≤
      power := by
  have hpos := h.digits_pos hw
  rw [Writes, show power.toNat = 0 by omega, Nat.pow_zero, Nat.mul_one] at hw
  have hpow : 2 ^ (digits.log2 + (-power).toNat) <
      2 ^ (significand.log2 + 1 + ((10 ^ places).log2 + 1)) :=
    calc 2 ^ (digits.log2 + (-power).toNat)
        = 2 ^ digits.log2 * 2 ^ (-power).toNat := Nat.pow_add 2 _ _
      _ ≤ digits * 2 ^ (-power).toNat := Nat.mul_le_mul_right _ (Nat.log2_self_le hpos.ne')
      _ = significand * 10 ^ places := hw
      _ < 2 ^ (significand.log2 + 1) * 2 ^ ((10 ^ places).log2 + 1) :=
          Nat.mul_lt_mul'' Nat.lt_log2_self Nat.lt_log2_self
      _ = 2 ^ (significand.log2 + 1 + ((10 ^ places).log2 + 1)) := (Nat.pow_add 2 _ _).symm
  have hbits := (Nat.pow_lt_pow_iff_right (by decide)).mp hpow
  have htarget := h.targetExponent
  rw [targetExponent_eq, totalExponent] at htarget
  rw [targetExponent_eq, totalExponent, totalExponent]
  generalize (10 ^ places).log2 = b at hbits ⊢
  generalize digits.log2 = a at hbits ⊢
  generalize significand.log2 = c at hbits htarget
  omega

/-- A fraction is divided out with nothing left over. -/
theorem div_fraction (h : IsCanonical significand power)
    (hw : Writes digits places significand power) (hdigits : 0 < digits)
    (hten : 0 < 10 ^ places) :
    UnpackedFloat.div .binary64 (.finite .positive digits 0 hdigits)
        (.finite .positive (10 ^ places) 0 hten) =
      .finite .positive significand power h.pos := by
  -- The quotient is taken at the power `target`, which leaves `j` zero bits below the significand.
  obtain ⟨target, htarget⟩ : ∃ target, target = min (0 - 0 : Int)
      (Format.binary64.targetExponent (totalExponent digits 0 - totalExponent (10 ^ places) 0)) :=
    ⟨_, rfl⟩
  have hle : target ≤ power := by
    rcases Int.lt_or_le power 0 with hp | hp
    · have := h.targetExponent_le_of_fraction hw hp
      omega
    · omega
  have hcore : divCore .binary64 digits 0 (10 ^ places) 0 =
      (significand * 2 ^ (power - target).toNat, target, .exact) := by
    have hvalue := digits_mul_two_pow hw (0 - 0 - target).toNat (power - target).toNat
      (by omega)
    rw [divCore, ← htarget, Nat.shiftLeft_eq, hvalue, Nat.mul_div_cancel _ hten, Nat.mul_mod_left,
      accuracyOfFraction, if_pos rfl]
  have hround := h.roundWithAccuracy_shifted .positive (power - target).toNat
  rw [show power - ((power - target).toNat : Int) = target by omega] at hround
  rw [UnpackedFloat.div, hcore]
  exact hround

/-- A decimal with the value of a binary64 number is read as that number. -/
theorem ofScientific_of_writes (h : IsCanonical significand power)
    (hw : Writes digits places significand power) :
    UnpackedFloat.ofScientific .binary64 digits (-places) =
      .finite .positive significand power h.pos := by
  have hpos := h.digits_pos hw
  have hplaces := h.places_le hw
  have hhigh : ¬ (-places : Int) > 2 ^ Format.binary64.exponentBits := by
    show ¬ (-places : Int) > 2 ^ 11
    omega
  have hlow : ¬ (-places : Int) < -((2 ^ Format.binary64.exponentBits : Int) + digits.log2) := by
    show ¬ (-places : Int) < -((2 ^ 11 : Int) + digits.log2)
    omega
  rw [UnpackedFloat.ofScientific, dif_neg hpos.ne', if_neg hhigh, if_neg hlow]
  by_cases hzero : places = 0
  · subst hzero
    rw [if_pos (by omega)]
    exact h.mul_whole hw _ _
  · rw [if_neg (by omega)]
    simp only [neg_neg, Int.toNat_natCast]
    exact h.div_fraction hw hpos _

end IsCanonical

end Binary64
end Abacus
