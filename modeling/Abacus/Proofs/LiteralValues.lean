import Abacus.Proofs.Decimal
import Abacus.Proofs.Grammar.Nodes
import Abacus.Proofs.Tokenization
/-!
The values of the number tokens.

A number token is digits with at most one point between them, and it has no sign. Rounding it gives
a number that has no sign either, or infinity where the digits are too many.
-/

namespace Abacus

open Float.Model UnpackedFloat

/-! ## Numbers with a plus sign -/

namespace Binary64

/-- It is a number, and its sign is plus. -/
def HasPlus : UnpackedFloat → Prop
  | .notANumber => False
  | .infinity sign | .zero sign | .finite sign _ _ _ => sign = .positive

theorem hasPlus_roundWithAccuracy (significand : Nat) (power : Int) (accuracy : Accuracy) :
    HasPlus (roundWithAccuracy .binary64 .positive significand power accuracy) := by
  rw [roundWithAccuracy]
  dsimp only
  split <;> exact rfl

theorem hasPlus_ofScientific (digits : Nat) (exponent : Int) :
    HasPlus (UnpackedFloat.ofScientific .binary64 digits exponent) := by
  rw [UnpackedFloat.ofScientific]
  split
  · exact rfl
  split
  · exact rfl
  split
  · exact rfl
  split
  · exact hasPlus_roundWithAccuracy _ _ _
  · exact hasPlus_roundWithAccuracy _ _ _

/-- Bits whose sign bit is zero mean a number with a plus sign, if they mean a number. -/
theorem hasPlus_unpack_packComponents {exponent : BitVec 11} {mantissa : BitVec 52}
    (h : exponent ≠ -1#11) :
    HasPlus (UnpackedFloat.unpack .binary64
      (packComponents .binary64 .positive exponent mantissa)) := by
  rw [UnpackedFloat.unpack]
  dsimp only
  rw [unpackExponent_packComponents, if_neg h]
  simp only [unpackSign_packComponents, Sign.ofBitVec_toBitVec]
  split
  · split <;> exact rfl
  · exact rfl

theorem hasPlus_unpack_pack {f : UnpackedFloat} (h : HasPlus f) :
    HasPlus (Float.Model.pack f).unpack := by
  show HasPlus (UnpackedFloat.unpack .binary64 (UnpackedFloat.pack .binary64 f))
  cases f with
  | notANumber => exact h
  | infinity sign =>
    cases h
    rw [UnpackedFloat.pack, unpack_packedInfinity]
    exact rfl
  | zero sign =>
    cases h
    exact hasPlus_unpack_packComponents (by decide)
  | finite sign significand power hpos =>
    cases h
    rw [UnpackedFloat.pack]
    dsimp only
    split
    · rw [unpack_packedInfinity]
      exact rfl
    · rename_i hsmall
      split
      · refine hasPlus_unpack_packComponents fun heq => hsmall ?_
        have hones := congrArg BitVec.toNat heq
        rw [BitVec.toNat_ofNat] at hones
        change _ % 2 ^ 11 = 2 ^ 11 - 1 at hones
        show 2 ^ 11 ≤ _ + 1
        omega
      · exact hasPlus_unpack_packComponents (by decide)

end Binary64

theorem Decimal.hasPlus_toFloat (d : Decimal) : Binary64.HasPlus d.toFloat.toModel.unpack :=
  Binary64.hasPlus_unpack_pack (Binary64.hasPlus_ofScientific d.digits d.exponent)

theorem isUnsigned_of_hasPlus {x : Float} (h : Binary64.HasPlus x.toModel.unpack)
    (hfinite : x.isFinite = true) : isUnsigned x = true := by
  change x.toModel.unpack.isFinite = true at hfinite
  rw [isUnsigned]
  cases hx : x.toModel.unpack with
  | notANumber | infinity sign =>
    rw [hx] at hfinite
    contradiction
  | zero sign | finite sign significand power hpos =>
    rw [hx] at h
    cases h
    rfl

theorem literalText_of_hasPlus {x : Float} (h : Binary64.HasPlus x.toModel.unpack)
    (hfinite : x.isFinite = false) : literalText x = "inf".toList := by
  change x.toModel.unpack.isFinite = false at hfinite
  rw [literalText]
  cases hx : x.toModel.unpack with
  | notANumber =>
    rw [hx] at h
    exact h.elim
  | infinity sign =>
    rw [hx] at h
    cases h
    rfl
  | zero sign | finite sign significand power hpos =>
    rw [hx] at hfinite
    contradiction

/-! ## Number tokens -/

namespace Token

variable {text : List Char}

/-- A number token is digits with at most one point between them. -/
theorem exists_eq_pointed (h : (number text).IsWritten) :
    ∃ whole fraction, text = Decimal.pointed whole fraction ∧
      Decimal.IsPositional whole fraction := by
  obtain ⟨hne, hparts, hnumber⟩ := h
  obtain ⟨⟨first, hfirst, hfirstDigit⟩, ⟨last, hlast, hlastDigit⟩, hcount⟩ :=
    (isNumber_iff hne hparts).mp hnumber
  have hsplit := List.takeWhile_append_dropWhile (p := Char.isDigit) (l := text)
  have hwhole : ∀ c ∈ text.takeWhile Char.isDigit, c.isDigit = true :=
    fun c hc => List.all_eq_true.mp List.all_takeWhile c hc
  have hwholeNe : text.takeWhile Char.isDigit ≠ [] := by
    intro hnil
    obtain ⟨rest, rfl⟩ := List.head?_eq_some_iff.mp hfirst
    rw [List.takeWhile_cons_of_pos hfirstDigit] at hnil
    contradiction
  cases hrest : text.dropWhile Char.isDigit with
  | nil =>
    rw [hrest, List.append_nil] at hsplit
    exact ⟨_, [], hsplit.symm, hwholeNe, hwhole, by simp⟩
  | cons c fraction =>
    rw [hrest] at hsplit
    have hmem : ∀ d ∈ c :: fraction, d ∈ text := fun d hd =>
      hsplit ▸ List.mem_append_right _ hd
    have hc : c = '.' := by
      have hnot : c.isDigit = false := eq_false_of_mem_head?_dropWhile c (by rw [hrest]; rfl)
      simpa [isNumberPart, hnot] using hparts c (hmem c List.mem_cons_self)
    subst hc
    have hfraction : ∀ d ∈ fraction, d.isDigit = true := by
      intro d hd
      have hpoint : d ≠ '.' := by
        rintro rfl
        rw [← hsplit, List.count_append, List.count_cons_self] at hcount
        have := List.count_pos_iff.mpr hd
        omega
      simpa [isNumberPart, hpoint] using hparts d (hmem d (List.mem_cons_of_mem _ hd))
    cases fraction with
    | nil =>
      rw [← hsplit, List.getLast?_append, List.getLast?_singleton, Option.some_or,
        Option.mem_some_iff] at hlast
      rw [← hlast] at hlastDigit
      contradiction
    | cons d fraction =>
      exact ⟨_, d :: fraction, hsplit.symm, hwholeNe, hwhole, hfraction⟩

/-- The value of a number token has no sign. -/
theorem hasPlus_value (h : (number text).IsWritten) :
    Binary64.HasPlus (Literal.value text).toModel.unpack := by
  obtain ⟨whole, fraction, rfl, hpositional⟩ := exists_eq_pointed h
  rw [Literal.value_pointed hpositional]
  exact Decimal.hasPlus_toFloat _

end Token

/-! ## Numbers of a tree -/

namespace Grammar

/-- A tree that is a number has it from one of its tokens. -/
theorem Derivation.exists_of_expr_eq_number {k : Nonterminal} (d : Derivation k) {value : Float}
    {span : Span} (h : d.expr = .number value span) :
    ∃ text place, ⟨.number text, place⟩ ∈ d.lexemes ∧ Literal.value text = value := by
  cases d with
  | number text place =>
    cases h
    exact ⟨text, span, List.mem_singleton.mpr rfl, rfl⟩
  | group opening inner closing =>
    have hinner : ∃ place, inner.expr = .number value place := by
      rw [Derivation.expr] at h
      cases hexpr : inner.expr with
      | number x place =>
        rw [hexpr] at h
        cases h
        exact ⟨place, rfl⟩
      | negate _ _ | binary _ _ _ _ | call _ _ _ =>
        rw [hexpr] at h
        contradiction
    obtain ⟨place, hexpr⟩ := hinner
    obtain ⟨text, place, hmem, hvalue⟩ := inner.exists_of_expr_eq_number hexpr
    exact ⟨text, place, List.mem_cons_of_mem _ (List.mem_append_left _ hmem), hvalue⟩
  | unsigned operand | base operand | factor operand | term operand =>
    rw [Derivation.lexemes]
    exact operand.exists_of_expr_eq_number h
  | emptyCall _ _ _ _ | call _ _ _ _ _ | minus _ _ | raise _ _ _ | multiply _ _ _ _ _
  | add _ _ _ _ _ =>
    contradiction

/-- The numbers of a tree have no signs. -/
theorem Derivation.hasPlus_of_isNode {k : Nonterminal} (d : Derivation k)
    (hwritten : ∀ l ∈ d.lexemes, l.token.IsWritten) {value : Float} {span : Span}
    (hn : (Expr.number value span).IsNode d.expr) : Binary64.HasPlus value.toModel.unpack := by
  obtain ⟨d', hexpr, hpart⟩ := d.exists_of_isNode hn
  obtain ⟨text, place, hmem, rfl⟩ := d'.exists_of_expr_eq_number hexpr
  exact Token.hasPlus_value (hwritten _ (hpart.subset hmem))

end Grammar
end Abacus
