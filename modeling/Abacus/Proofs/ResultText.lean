import Abacus.Proofs.Printing
import Abacus.Proofs.Retyping
import Abacus.Proofs.WholeNumbers
/-!
The text of a result, typed as the next expression.

A finite result is written with digits, at most one point, and a minus sign before them if it is
negative. So its text is a number or the negation of one, and its value is the result again. The
point is there exactly if the result is no integer: the digits of an integer are read as an integer,
so the text of another number cannot do without it.
-/

namespace Abacus

open Float.Model UnpackedFloat

namespace Evaluation

/-- A text that is read as a tree has the value of the tree. -/
theorem ofText_of_reads {text : List Char} {e : Expr} {value : Float}
    (h : Grammar.Reads .sum text e) (hblank : ∀ c ∈ text, isBlank c = false)
    (hvalue : e.result = .ok value) : ofText text = .ok ⟨text, value, resultText value⟩ := by
  obtain ⟨d, hd, he⟩ := h 0
  have hsame : sameLetters (Normalized.withoutBlanks text) text = true := by
    rw [Normalized.withoutBlanks_eq_self hblank]
    exact sameLetters_refl text
  obtain ⟨htext, hbalanced⟩ := ofText_text_of_derivation hd.lex hblank hsame
  show (ofNormal (Normalized.ofText text).text).mapError _ = _
  rw [htext, ofNormal_of_derivation hbalanced hd.lex, Expr.result_of_bare_eq he hvalue]
  rfl

end Evaluation

/-! ## Reading a positive result -/

/-- Digits on both sides of a point, and the number that they are read as. -/
structure Spells (whole fraction : List Char) (x : Float) : Prop
    extends Decimal.IsPositional whole fraction where
  value : Literal.value (Decimal.pointed whole fraction) = x

/-- The text of a result without its sign. -/
def magnitudeText (significand : Nat) (power : Int) : List Char :=
  if isWhole significand power then
    Nat.toDigits 10 (significand * Nat.pow 2 power.toNat / Nat.pow 2 (-power).toNat)
  else Shortest.text significand power

section

variable {x : Float} {significand : Nat} {power : Int} {h : 0 < significand}

/-- All digits of a whole number are read as that number. -/
theorem spells_of_isWhole (hx : x.toModel.unpack = .finite .positive significand power h)
    (hwhole : isWhole significand power = true) :
    Spells (magnitudeText significand power) [] x := by
  obtain ⟨n, hn⟩ : ∃ n, n = significand * 2 ^ power.toNat / 2 ^ (-power).toNat := ⟨_, rfl⟩
  have htext : magnitudeText significand power = Nat.toDigits 10 n := by
    rw [magnitudeText, if_pos hwhole, hn]
    rfl
  have hwrites : Binary64.Writes n 0 significand power := by
    rw [isWhole, beq_iff_eq, Nat.pow_eq, ← Nat.dvd_iff_mod_eq_zero] at hwhole
    rw [Binary64.Writes, hn, Nat.div_mul_cancel (Dvd.dvd.mul_right hwhole _), Nat.pow_zero,
      Nat.mul_one]
  have hpositional : Decimal.IsPositional (Nat.toDigits 10 n) [] :=
    Decimal.isPositional_toDigits n (by simp)
  rw [htext]
  refine ⟨hpositional, ?_⟩
  rw [Literal.value_pointed hpositional]
  refine Decimal.toFloat_eq ?_
  rw [hx, Decimal.ofDigits, List.append_nil, Nat.ofDigitChars_ten_toDigits]
  exact (Binary64.isCanonical_of_unpack hx).ofScientific_of_writes hwrites

/-- Digits without a point are read as a whole number. -/
theorem isWhole_of_spells {whole : List Char}
    (hx : x.toModel.unpack = .finite .positive significand power h) (hs : Spells whole [] x) :
    isWhole significand power = true := by
  have hvalue := hs.value
  rw [Literal.value_pointed hs.toIsPositional] at hvalue
  rw [← hvalue] at hx
  exact Binary64.isWhole_of_ofScientific hx

theorem exists_spells (hx : x.toModel.unpack = .finite .positive significand power h) :
    ∃ whole fraction, magnitudeText significand power = Decimal.pointed whole fraction ∧
      Spells whole fraction x ∧ (fraction = [] ↔ isWhole significand power = true) := by
  by_cases hwhole : isWhole significand power = true
  · exact ⟨_, [], rfl, spells_of_isWhole hx hwhole, by simp [hwhole]⟩
  · obtain ⟨whole, fraction, htext, hpositional⟩ := Shortest.text_eq_pointed significand power
    have hvalue := Shortest.value_text hx
    rw [htext] at hvalue
    have hs : Spells whole fraction x := ⟨hpositional, hvalue⟩
    refine ⟨whole, fraction, ?_, hs, ?_⟩
    · rw [magnitudeText, if_neg hwhole, htext]
    · constructor
      · rintro rfl
        exact isWhole_of_spells hx hs
      · intro hwhole'
        exact absurd hwhole' hwhole

end

/-! ## The sign -/

/-- The number with the sign before it. -/
def applySign : Sign → Float → Float
  | .positive, x => x
  | .negative, x => -x

/-- The parts of the text of a finite result, and the number `value` that its digits spell. -/
structure ResultParts (x : Float) (sign : Sign) (whole fraction : List Char) (value : Float) :
    Prop where
  text : resultText x = signText sign ++ Decimal.pointed whole fraction
  spells : Spells whole fraction value
  isInteger : fraction = [] ↔ Binary64.IsInteger x
  beq : (applySign sign value == x) = true
  text_eq : resultText (applySign sign value) = resultText x
  nonzero : sign = .negative → ∀ s, value.toModel.unpack ≠ .zero s

theorem resultParts_of_zero {x : Float} {sign : Sign} (hx : x.toModel.unpack = .zero sign) :
    ∃ zero, ResultParts x .positive ['0'] [] zero := by
  obtain ⟨zero, hzero⟩ : ∃ zero : Float, zero = .ofModel (.pack (.zero .positive)) := ⟨_, rfl⟩
  have hunpack : zero.toModel.unpack = .zero .positive := by
    rw [hzero]
    exact unpack_packedZero
  have htext : ∀ {y : Float} {s : Sign}, y.toModel.unpack = .zero s → resultText y = ['0'] := by
    intro y s hy
    rw [resultText, hy]
  refine ⟨zero, htext hx, ⟨Decimal.isPositional_zero, Literal.value_zero hunpack⟩, ?_, ?_, ?_,
    by simp⟩
  · exact ⟨fun _ => Binary64.isInteger_of_zero hx, fun _ => rfl⟩
  · rw [applySign, Binary64.beq_eq, hunpack, hx]
    cases sign <;> rfl
  · rw [applySign, htext hunpack, htext hx]

theorem resultParts_of_finite {x : Float} {sign : Sign} {significand : Nat} {power : Int}
    {h : 0 < significand} (hx : x.toModel.unpack = .finite sign significand power h) :
    ∃ whole fraction value, ResultParts x sign whole fraction value := by
  -- The digits spell the number without its sign.
  have hmagnitude : (applySign sign x).toModel.unpack = .finite .positive significand power h := by
    cases sign with
    | positive => exact hx
    | negative =>
      rw [applySign, Binary64.unpack_neg, hx]
      rfl
  have hback : applySign sign (applySign sign x) = x := by
    cases sign with
    | positive => rfl
    | negative => exact Binary64.neg_neg_self x
  obtain ⟨whole, fraction, htext, hspells, hfraction⟩ := exists_spells hmagnitude
  refine ⟨whole, fraction, _, ?_, hspells, ?_, ?_, ?_, ?_⟩
  · rw [← htext, resultText, hx]
    rfl
  · rw [hfraction, Binary64.isInteger_iff_of_finite hx]
  · rw [hback, Binary64.beq_eq, hx, beq_iff_ne_notANumber_and_eq]
    exact ⟨nofun, nofun, .inl rfl⟩
  · rw [hback]
  · rintro _ s hzero
    rw [hmagnitude] at hzero
    contradiction

theorem exists_resultParts {x : Float} (h : x.isFinite = true) :
    ∃ sign whole fraction value, ResultParts x sign whole fraction value := by
  change x.toModel.unpack.isFinite = true at h
  cases hx : x.toModel.unpack with
  | notANumber | infinity sign =>
    rw [hx] at h
    contradiction
  | zero sign =>
    obtain ⟨zero, hzero⟩ := resultParts_of_zero hx
    exact ⟨.positive, _, _, zero, hzero⟩
  | finite sign significand power hpos => exact ⟨sign, resultParts_of_finite hx⟩

namespace ResultParts

variable {x value : Float} {sign : Sign} {whole fraction : List Char}

theorem point_mem_text_iff (h : ResultParts x sign whole fraction value) :
    '.' ∈ resultText x ↔ fraction ≠ [] := by
  have hsign : '.' ∉ signText sign := by
    cases sign <;> decide
  have hwhole : '.' ∉ whole := fun hc => Token.ne_point_of_isDigit (h.spells.isDigit_whole _ hc) rfl
  rw [h.text, List.mem_append, or_iff_right hsign]
  cases fraction with
  | nil =>
    rw [Decimal.pointed]
    exact ⟨fun hc => absurd hc hwhole, fun hne => absurd rfl hne⟩
  | cons c fraction =>
    rw [Decimal.pointed]
    exact ⟨fun _ => List.cons_ne_nil c fraction, fun _ => by simp⟩

/-- Zero is written without a sign. -/
theorem text_ne (h : ResultParts x sign whole fraction value) : resultText x ≠ "-0".toList := by
  intro htext
  rw [h.text] at htext
  cases sign with
  | positive =>
    obtain ⟨c, rest, hcons, hdigit⟩ := Literal.pointed_eq_cons h.spells.toIsPositional
    have hminus : c = '-' := by
      have : c :: rest = ['-', '0'] := hcons.symm.trans htext
      exact (List.cons.inj this).1
    rw [hminus] at hdigit
    contradiction
  | negative =>
    have hzero : Decimal.pointed whole fraction = ['0'] := (List.cons.inj htext).2
    have hvalue : Literal.value ['0'] = value := hzero ▸ h.spells.value
    refine h.nonzero rfl .positive ?_
    rw [← hvalue]
    rfl

/-- The text of a finite result is a number or the negation of one. -/
theorem ofText_text (h : ResultParts x sign whole fraction value) :
    Evaluation.ofText (resultText x) =
      .ok ⟨resultText x, applySign sign value, resultText (applySign sign value)⟩ := by
  have hwritten := Token.isWritten_pointed h.spells.toIsPositional
  have hnumber := Grammar.reads_numberText hwritten ⟨0, 0⟩
  rw [h.spells.value] at hnumber
  have hblank : ∀ c ∈ resultText x, isBlank c = false := by
    have hsign : ∀ c ∈ signText sign, isBlank c = false := by
      cases sign <;> exact forall_mem_of_all (by decide)
    rw [h.text]
    exact List.forall_mem_append.mpr ⟨hsign, Token.isBlank_of_mem_text hwritten⟩
  obtain ⟨e, hreads, hresult⟩ : ∃ e, Grammar.Reads .sum (resultText x) e ∧
      e.result = .ok (applySign sign value) := by
    rw [h.text]
    cases sign with
    | positive => exact ⟨_, hnumber.toSum, rfl⟩
    | negative => exact ⟨_, (hnumber.unsigned.minus ⟨0, 0⟩).toSum, rfl⟩
  exact Evaluation.ofText_of_reads hreads hblank hresult

end ResultParts

/-! ## Results that are not finite -/

/-- The names of the special values are no functions. -/
theorem ofText_resultText_of_not_finite {x : Float} (h : x.isFinite = false) :
    ∃ error, Evaluation.ofText (resultText x) = .error (.lex error) ∧
      error.fault = .unknownFunction := by
  change x.toModel.unpack.isFinite = false at h
  rw [resultText]
  cases hx : x.toModel.unpack with
  | notANumber => exact ⟨⟨.unknownFunction, "NaN".toList, ⟨0, 3⟩⟩, by decide +kernel, rfl⟩
  | infinity sign =>
    cases sign with
    | positive => exact ⟨⟨.unknownFunction, "Infinity".toList, ⟨0, 8⟩⟩, by decide +kernel, rfl⟩
    | negative => exact ⟨⟨.unknownFunction, "Infinity".toList, ⟨1, 9⟩⟩, by decide +kernel, rfl⟩
  | zero sign | finite sign significand power hpos =>
    rw [hx] at h
    contradiction

namespace Evaluation

theorem formatted_eq_of_ofText_ok {typed : List Char} {e : Evaluation} (h : ofText typed = .ok e) :
    e.formatted = resultText e.value := by
  have hnormal := ofNormal_text_of_ofText_ok h
  obtain ⟨hbalanced, d, hlex⟩ := exists_derivation_of_ofNormal_ok hnormal
  rw [ofNormal_of_derivation hbalanced hlex] at hnormal
  cases hresult : d.expr.result with
  | error failure =>
    rw [hresult] at hnormal
    contradiction
  | ok value =>
    rw [hresult] at hnormal
    cases hnormal
    rfl

/--
The text of a finite result consists of digits, with a point among them exactly if the result is no
integer, and perhaps of a minus sign before them. Typed as the next expression it has the same value
and the same text. The text of any other result is no expression.
-/
theorem ofText_formatted {typed : List Char} {e : Evaluation} (h : ofText typed = .ok e) :
    (e.value.isFinite = true →
      (∃ sign whole fraction, e.formatted = signText sign ++ Decimal.pointed whole fraction ∧
        whole ≠ [] ∧ (∀ c ∈ whole, c.isDigit = true) ∧ ∀ c ∈ fraction, c.isDigit = true) ∧
      e.formatted ≠ "-0".toList ∧
      ('.' ∈ e.formatted ↔ ¬ Binary64.IsInteger e.value) ∧
      ∃ again, ofText e.formatted = .ok again ∧ (again.value == e.value) = true ∧
        again.formatted = e.formatted) ∧
    (e.value.isFinite = false →
      ∃ error, ofText e.formatted = .error (.lex error) ∧ error.fault = .unknownFunction) := by
  rw [formatted_eq_of_ofText_ok h]
  constructor
  · intro hfinite
    obtain ⟨sign, whole, fraction, value, hs⟩ := exists_resultParts hfinite
    refine ⟨⟨sign, whole, fraction, hs.text, hs.spells.ne_nil, hs.spells.isDigit_whole,
      hs.spells.isDigit_fraction⟩, hs.text_ne, ?_, _, hs.ofText_text, hs.beq, hs.text_eq⟩
    rw [hs.point_mem_text_iff, ← hs.isInteger]
  · exact ofText_resultText_of_not_finite

/-- A negative fraction is typed again, and a number that is too large is not. -/
theorem ofText_formatted_of_fraction_and_overflow :
    (∃ e, ofText "2 - 9.5".toList = .ok e ∧ e.formatted = "-7.5".toList ∧
      ¬ Binary64.IsInteger e.value ∧
      ∃ again, ofText "-7.5".toList = .ok again ∧ again.formatted = "-7.5".toList) ∧
    ∃ e, ofText ('-' :: List.replicate 400 '9') = .ok e ∧ e.formatted = "-Infinity".toList ∧
      ∃ error, ofText "-Infinity".toList = .error (.lex error) ∧
        error.fault = .unknownFunction := by
  have hfraction : (ofText "2 - 9.5".toList).map (fun e => (e.value.isFinite, e.formatted)) =
      .ok (true, "-7.5".toList) := by
    decide +kernel
  have hoverflow : (ofText ('-' :: List.replicate 400 '9')).map
      (fun e => (e.value.isFinite, e.formatted)) = .ok (false, "-Infinity".toList) := by
    decide +kernel
  constructor
  · cases he : ofText "2 - 9.5".toList with
    | error failure =>
      rw [he] at hfraction
      contradiction
    | ok e =>
      rw [he] at hfraction
      obtain ⟨hfinite, htext⟩ := Prod.mk.inj (Except.ok.inj hfraction)
      obtain ⟨_, _, hpoint, again, hagain, _, hsame⟩ := (ofText_formatted he).1 hfinite
      rw [htext] at hpoint hagain hsame
      exact ⟨e, rfl, htext, hpoint.mp (by decide), again, hagain, hsame⟩
  · cases he : ofText ('-' :: List.replicate 400 '9') with
    | error failure =>
      rw [he] at hoverflow
      contradiction
    | ok e =>
      rw [he] at hoverflow
      obtain ⟨hinfinite, htext⟩ := Prod.mk.inj (Except.ok.inj hoverflow)
      have hrefused := (ofText_formatted he).2 hinfinite
      rw [htext] at hrefused
      exact ⟨e, rfl, htext, hrefused⟩

end Evaluation
end Abacus
