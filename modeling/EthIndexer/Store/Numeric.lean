import EthIndexer.Store.Model.Rows
import Mathlib.Algebra.Order.Field.Power
import Mathlib.Data.Rat.Cast.Order
/-!
# Reading a numeric column

A `numeric` comes from the driver as an integer and a power of ten. Its
value is a rational number, and `decodePostgresNumeric` returns it when it
is an integer below `2 ^ 256`: for a negative power the integer has to be
divisible by it, and truncated division is then exact. `10 ^ 78` is above
`2 ^ 256`, so no value of a column needs a larger power.
-/

namespace EthIndexer

open Go

/-- The values a `numeric` column is used for. -/
def IsUint256 (v : ℤ) : Prop := 0 ≤ v ∧ v < 2 ^ 256

theorem not_outside_uint256_iff {v : ℤ} : ¬ (v < 0 ∨ exceeds256Bits v) ↔ IsUint256 v := by
  unfold exceeds256Bits IsUint256
  omega

namespace Numeric

/-- A number, with a power that the decoder admits. -/
structure Readable (value : Numeric) : Prop where
  valid : value.valid = true
  notNaN : value.nan = false
  finite : value.infinityModifier = .finite
  lower : -78 ≤ value.exp
  upper : value.exp ≤ 78

/-- The number; a nil integer counts as zero. -/
def rational (value : Numeric) : ℚ := (value.int.getD 0 : ℤ) * 10 ^ value.exp

theorem eq_rational_iff_of_nonneg {value : Numeric} (h : 0 ≤ value.exp) {v : ℤ} :
    (v : ℚ) = value.rational ↔ value.int.getD 0 * 10 ^ value.exp.natAbs = v := by
  have hexp : (10 : ℚ) ^ value.exp = ((10 ^ value.exp.natAbs : ℤ) : ℚ) := by
    rw [Int.cast_pow, ← zpow_natCast, Int.natAbs_of_nonneg h]
    rfl
  rw [rational, hexp, ← Int.cast_mul, Int.cast_inj, eq_comm]

theorem eq_rational_iff_of_neg {value : Numeric} (h : value.exp < 0) {v : ℤ} :
    (v : ℚ) = value.rational ↔ value.int.getD 0 = v * 10 ^ value.exp.natAbs := by
  have hexp : (10 : ℚ) ^ value.exp = ((10 ^ value.exp.natAbs : ℤ) : ℚ)⁻¹ := by
    rw [Int.cast_pow, ← zpow_natCast, ← zpow_neg, Int.natCast_natAbs, abs_of_neg h, neg_neg]
    rfl
  have hpow : ((10 ^ value.exp.natAbs : ℤ) : ℚ) ≠ 0 :=
    Int.cast_ne_zero.2 (Int.pow_ne_zero (by decide))
  rw [rational, hexp, eq_mul_inv_iff_mul_eq₀ hpow, ← Int.cast_mul, Int.cast_inj, eq_comm]

end Numeric

variable {name : String} {value : Numeric} {required : Bool}

/-- The last check of the decoder. -/
theorem checked_uint256_eq_ok_iff {integer v : ℤ} {f : Fault} :
    (do failIf (integer < 0 ∨ exceeds256Bits integer) f; return some integer : Go (Option ℤ)) =
        .ok (some v) ↔
      IsUint256 v ∧ integer = v := by
  rw [seq_eq_ok_iff, failIf_eq_ok_iff, not_outside_uint256_iff, pure_eq_ok_iff, Option.some.injEq]
  exact and_congr_left fun h => by rw [h]

/-- **What is decoded is the number.** -/
theorem decodePostgresNumeric_eq_some_iff (h : value.Readable) {v : ℤ} :
    decodePostgresNumeric name value required = .ok (some v) ↔
      IsUint256 v ∧ (v : ℚ) = value.rational := by
  have hexp : ¬ (value.exp < -78 ∨ value.exp > 78) := by
    have hlower := h.lower
    have hupper := h.upper
    omega
  unfold decodePostgresNumeric
  rw [if_neg (by simp [h.valid]), if_neg (by simp [h.notNaN, h.finite]), if_neg hexp]
  dsimp only
  rcases lt_trichotomy value.exp 0 with hneg | hzero | hpos
  · -- a quotient, where the division leaves no remainder
    have hpow : (10 : ℤ) ^ value.exp.natAbs ≠ 0 := Int.pow_ne_zero (by decide)
    rw [if_neg (by omega), if_pos hneg, seq_eq_ok_iff, failIf_eq_ok_iff, not_not, ok_bind,
      checked_uint256_eq_ok_iff, Numeric.eq_rational_iff_of_neg hneg]
    constructor
    · rintro ⟨hmod, hv, rfl⟩
      exact ⟨hv, (Int.tdiv_mul_cancel (Int.dvd_of_tmod_eq_zero hmod)).symm⟩
    · rintro ⟨hv, hint⟩
      rw [hint, Int.mul_tdiv_cancel _ hpow]
      exact ⟨Int.mul_tmod_left _ _, hv, rfl⟩
  · rw [if_neg (by omega), if_neg (by omega), ok_bind, checked_uint256_eq_ok_iff,
      Numeric.eq_rational_iff_of_nonneg hzero.ge, hzero, Int.natAbs_zero, pow_zero, mul_one]
  · rw [if_pos hpos, ok_bind, checked_uint256_eq_ok_iff,
      Numeric.eq_rational_iff_of_nonneg hpos.le]

/-- A column that has a value is not decoded as absent. -/
theorem decodePostgresNumeric_ne_none (h : value.valid = true) :
    decodePostgresNumeric name value required ≠ .ok none := by
  intro hnone
  unfold decodePostgresNumeric at hnone
  rw [if_neg (by simp [h])] at hnone
  split_ifs at hnone <;> grind [bind_eq_ok_iff, pure_eq_ok_iff]

/-- It fails with `ErrInconsistentData` and nothing else. -/
theorem failsWith_decodePostgresNumeric :
    FailsWith .inconsistentData (decodePostgresNumeric name value required) := by
  have hrange : ∀ integer : ℤ, FailsWith .inconsistentData (do
      failIf (integer < 0 ∨ exceeds256Bits integer)
        (.because .inconsistentData s!"{name} is outside uint256")
      return some integer : Go (Option ℤ)) :=
    fun integer => (failsWith_failIf _ _).bind fun _ => failsAs_ok _
  unfold decodePostgresNumeric
  dsimp only
  split_ifs
  · exact failsWith_because _
  · exact failsAs_ok _
  · exact failsWith_because _
  · exact failsWith_because _
  · exact hrange _
  · exact (failsWith_failIf _ _).bind fun _ => hrange _
  · exact hrange _

/-- A positive value below `2 ^ 256` is not divisible by `10 ^ 78`. -/
theorem exp_le_of_mul_pow_eq {v m : ℤ} {e : ℕ} (hpos : 0 < v) (hv : v < 2 ^ 256)
    (h : m * 10 ^ e = v) : e ≤ 77 := by
  by_contra hlarge
  have hdvd : (10 : ℤ) ^ 78 ∣ v := h ▸ (pow_dvd_pow 10 (by omega)).mul_left m
  have hle := Int.le_of_dvd hpos hdvd
  have hconst : (2 : ℤ) ^ 256 < 10 ^ 78 := by decide
  omega

/-- **Numeric columns are decoded exactly.** A readable column gives `v`
when its number is the integer `v` below `2 ^ 256`, and the error of
inconsistent data otherwise; and no such integer needs a power of ten
above 77. -/
theorem decodePostgresNumeric_exact (name : String) (required : Bool) :
    (∀ value : Numeric, value.Readable →
      (∀ v : ℤ, decodePostgresNumeric name value required = .ok (some v) ↔
        (v : ℚ) = value.rational ∧ 0 ≤ v ∧ v < 2 ^ 256) ∧
      ((¬ ∃ v : ℤ, (v : ℚ) = value.rational ∧ 0 ≤ v ∧ v < 2 ^ 256) →
        ∃ fault, decodePostgresNumeric name value required = .error fault ∧
          fault.Is .inconsistentData)) ∧
    (∀ (v m : ℤ) (e : ℕ), 0 < v → v < 2 ^ 256 → m * 10 ^ e = v → e ≤ 77) := by
  refine ⟨fun value h => ?_, fun v m e hpos hv => exp_le_of_mul_pow_eq hpos hv⟩
  have hexact : ∀ v : ℤ, decodePostgresNumeric name value required = .ok (some v) ↔
      (v : ℚ) = value.rational ∧ 0 ≤ v ∧ v < 2 ^ 256 := fun v =>
    (decodePostgresNumeric_eq_some_iff h).trans and_comm
  refine ⟨hexact, fun hnone => ?_⟩
  cases hdecode : decodePostgresNumeric name value required with
  | error fault =>
    have hcauses : fault.causes = [.inconsistentData] :=
      failsWith_decodePostgresNumeric fault hdecode
    exact ⟨fault, rfl, by rw [Fault.Is, hcauses]; exact List.mem_singleton_self _⟩
  | ok answer =>
    cases answer with
    | none => exact absurd hdecode (decodePostgresNumeric_ne_none h.valid)
    | some v => exact absurd ⟨v, (hexact v).1 hdecode⟩ hnone

/-- `12e2` is 1200 and `12e-1` is not an integer. -/
theorem decodePostgresNumeric_exact_twelve :
    decodePostgresNumeric "value" ⟨some 12, 2, false, .finite, true⟩ true = .ok (some 1200) ∧
      ∃ fault, decodePostgresNumeric "value" ⟨some 12, -1, false, .finite, true⟩ true =
        .error fault ∧ fault.Is .inconsistentData := by
  have hexact := (decodePostgresNumeric_exact "value" true).1
  refine ⟨((hexact _ ⟨rfl, rfl, rfl, by decide, by decide⟩).1 1200).2 ?_,
    (hexact _ ⟨rfl, rfl, rfl, by decide, by decide⟩).2 ?_⟩
  · exact ⟨(Numeric.eq_rational_iff_of_nonneg (by decide)).2 (by decide), by decide, by decide⟩
  · rintro ⟨v, hv, -⟩
    have hten : (12 : ℤ) = v * 10 := (Numeric.eq_rational_iff_of_neg (by decide)).1 hv
    omega

end EthIndexer
