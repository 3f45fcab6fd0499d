import EthIndexer.Common.GoMap
import EthIndexer.Common.SortSlice
import EthIndexer.Common.HashChain
/-!
# Unsigned integers as heights

A `UInt64` counts from `0` to `2 ^ 64 - 1` and wraps. Its successor is the
next number wherever there is one above, which is all the arithmetic a
block number goes through here; the facts below state it over `ℕ`.
-/

namespace EthIndexer

instance : Heights UInt64 where
  rank := UInt64.toNat
  rank_injective _ _ h := UInt64.toNat_inj.1 h
  exists_rank i n h := ⟨UInt64.ofNat n, UInt64.toNat_ofNat_of_lt' (lt_of_le_of_lt h i.toNat_lt)⟩

@[simp] theorem rank_uint64 (n : UInt64) : Heights.rank n = n.toNat := rfl

/-- The order that visits the keys of a map in ascending order. -/
def ascending (V : Type) : RangeOrder UInt64 V := RangeOrder.sorted (· ≤ ·)

theorem comparesBy_uint64 : ComparesBy (fun a b : UInt64 => decide (a < b)) UInt64.toNat :=
  fun a b => by rw [decide_eq_true_iff, UInt64.lt_iff_toNat_lt]

/-- Below another number the successor does not wrap. -/
theorem toNat_succ_of_lt {a b : UInt64} (h : a < b) : (a + 1).toNat = a.toNat + 1 := by
  have hb := b.toNat_lt
  have hab := UInt64.lt_iff_toNat_lt.1 h
  rw [UInt64.toNat_add]
  change (a.toNat + 1) % 2 ^ 64 = a.toNat + 1
  omega

/-- Nor does it below the largest. -/
theorem toNat_succ_of_ne {a : UInt64} (h : a ≠ 0xffffffffffffffff) :
    (a + 1).toNat = a.toNat + 1 :=
  toNat_succ_of_lt (b := 0xffffffffffffffff) (by grind)

theorem uint64_le_max (a : UInt64) : a ≤ 0xffffffffffffffff :=
  UInt64.le_iff_toNat_le.2 (Nat.le_of_lt_succ a.toNat_lt)

theorem succ_eq_iff_of_lt {a b : UInt64} (h : a < b) : b = a + 1 ↔ b.toNat = a.toNat + 1 := by
  rw [← toNat_succ_of_lt h, UInt64.toNat_inj]

/-- Above another number the predecessor does not wrap. -/
theorem toNat_pred_of_lt {a b : UInt64} (h : a < b) : (b - 1).toNat = b.toNat - 1 := by
  have hlt := UInt64.lt_iff_toNat_lt.1 h
  have hone : (1 : UInt64) ≤ b := UInt64.le_iff_toNat_le.2 (by change 1 ≤ b.toNat; omega)
  exact UInt64.toNat_sub_of_le _ _ hone

/-- A successor step across `r` is the step onto it. -/
theorem eq_pred_of_succ_across {n m r : UInt64} (hn : n < r) (hnm : m.toNat = n.toNat + 1)
    (hm : r.toNat ≤ m.toNat) : m = r ∧ n = r - 1 := by
  have hpred := toNat_pred_of_lt hn
  rw [UInt64.lt_iff_toNat_lt] at hn
  exact ⟨UInt64.toNat_inj.1 (by omega), UInt64.toNat_inj.1 (by omega)⟩

end EthIndexer
