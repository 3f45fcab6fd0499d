import EthIndexer.Indexer.Store
import EthIndexer.Store.Regroup
/-!
# The PostgreSQL store under a syncer

The tables, read back as a map, have the laws a synchronization relies on.
What was proved from the laws alone holds of them too.
-/

namespace EthIndexer

open Go

/-- What the calls of one synchronization meet at the database. -/
structure PostgresCalls where
  env : Request → PostgresEnv
  order : Request → RangeOrder UInt64 BlockBundle

/-- Calls that meet no trouble. -/
def PostgresCalls.calm : PostgresCalls where
  env _ := .plain
  order _ := ascending BlockBundle

namespace Postgres

/-- The PostgreSQL store as the syncer sees it. -/
def indexStore (e : PostgresCalls) : IndexStore Tables where
  canonicalTip T := canonicalTip (e.env .canonicalTip) T
  canonicalHash number T := canonicalHash (e.env (.canonicalHash number)) T number
  applyCanonicalUpdate update T :=
    applyCanonicalUpdate (e.env (.applyCanonicalUpdate update))
      (e.order (.applyCanonicalUpdate update)) update T

/-- The tables as a map. -/
def view (T : Tables) : BundleMap := (T.regroup Numeric.plain).toOption.getD ∅

/-- The tables hold some canonical window. -/
def Sound (T : Tables) : Prop := ∃ B, Holds T B

variable {env : PostgresEnv} {T : Tables} {B : BundleMap}

theorem get?_view (h : Mirrors T B) (n : UInt64) :
    (view T).get? n = (B.get? n).map fun b => b.inLogOrder.stored := by
  obtain ⟨B', hB', hget⟩ := regroup_eq faithfulWire_plain h
  rw [view, hB']
  exact hget n

theorem view_eq_empty (h : Mirrors T ∅) : view T = ∅ :=
  GoMap.ext_get? fun n => by rw [get?_view h, GoMap.get?_empty, Option.map_none]

/-- The tip of the tables is the tip that is seen. -/
theorem isTip_view (h : Mirrors T B) {b : BlockBundle} (hb : IsTip B b) :
    IsTip (view T) b.inLogOrder.stored := by
  have hnumber : b.inLogOrder.stored.block.number = b.block.number := rfl
  refine ⟨by rw [hnumber, get?_view h, hb.get?, Option.map_some], fun n hn => hb.le n ?_⟩
  rw [GoMap.mem_iff_get?] at hn ⊢
  simpa [get?_view h] using hn

/-- A hash that is answered is that of a stored block. -/
theorem exists_of_canonicalHash_eq_ok (h : Mirrors T B) {n : UInt64} {hash : Hash}
    (hok : canonicalHash env T n = .ok hash) : ∃ b, B.get? n = some b ∧ b.block.hash = hash := by
  cases hcall : env.fault .query with
  | none =>
    rw [canonicalHash_eq h hcall] at hok
    cases hb : B.get? n with
    | none =>
      rw [hb] at hok
      cases hok
    | some b =>
      rw [hb] at hok
      cases hok
      exact ⟨b, rfl, rfl⟩
  | some text =>
    unfold canonicalHash at hok
    split at hok
    · cases hok
    · obtain ⟨x, -, hok⟩ := bind_eq_ok_iff.1 hok
      rw [seq_eq_ok_iff, PostgresEnv.call_eq_ok_iff, hcall] at hok
      cases hok.1

/-- A number that is not found is not stored. -/
theorem get?_eq_none_of_canonicalHash (h : Mirrors T B) {n : UInt64} {err : Fault}
    (hfail : canonicalHash env T n = .error err) (hnot : err.Is .notFound) : B.get? n = none := by
  cases hcall : env.fault .query with
  | none =>
    rw [canonicalHash_eq h hcall] at hfail
    cases hb : B.get? n with
    | none => rfl
    | some b =>
      rw [hb] at hfail
      cases hfail
  | some text =>
    unfold canonicalHash at hfail
    split at hfail
    · rename_i hn
      exact get?_eq_none_of_gt h hn
    · -- the error is the database's, and it wraps no sentinel
      rename_i hn
      rw [postgresInt64_eq_ok (UInt64.not_lt.1 hn), ok_bind, PostgresEnv.call, hcall] at hfail
      cases hfail
      simp [Fault.Is, Fault.causes] at hnot

/-- **The laws hold of the tables.** -/
theorem lawful (e : PostgresCalls) : LawfulStore (indexStore e) view Sound where
  canonical := fun ⟨B, hB⟩ =>
    (canonical_iff_of_keepsChain keepsChain_stored (get?_view hB.mirrors)).2 hB.canonical
  tip := by
    rintro T tip ⟨B, hB⟩ htip
    obtain ⟨-, htip⟩ := seq_eq_ok_iff.1 htip
    rw [wrap_eq_ok_iff] at htip
    rcases selectTip_cases hB.mirrors with ⟨rfl, hsel⟩ | ⟨b, hb, hsel⟩
    · rw [hsel] at htip
      cases htip
      exact Or.inl ⟨rfl, view_eq_empty hB.mirrors⟩
    · rw [hsel, decodeTip_row] at htip
      cases htip
      exact Or.inr ⟨_, isTip_view hB.mirrors hb, rfl⟩
  hash := by
    rintro T n hash ⟨B, hB⟩ hok
    obtain ⟨b, hb, hhash⟩ := exists_of_canonicalHash_eq_ok hB.mirrors hok
    exact ⟨b.inLogOrder.stored, by rw [get?_view hB.mirrors, hb, Option.map_some], hhash⟩
  hash_notFound := by
    rintro T n err ⟨B, hB⟩ hfail hnot
    rw [← GoMap.get?_eq_none_iff, get?_view hB.mirrors,
      get?_eq_none_of_canonicalHash hB.mirrors hfail hnot, Option.map_none]
  apply_ok := by
    rintro T T' u ⟨B, hB⟩ happ
    rcases applyCanonicalUpdate_cases hB (e.env (.applyCanonicalUpdate u))
      (e.order (.applyCanonicalUpdate u)) u with ⟨ha, T'', heq, hB', -⟩ | ⟨f, heq⟩
    · cases heq.symm.trans happ
      refine ⟨⟨_, hB'⟩, _, keepsChain_stored, fun n => ?_⟩
      rw [get?_view hB'.mirrors]
      exact (get?_replace_map stored_inLogOrder_stored (get?_view hB.mirrors)
        ha.valid.consecutive n).symm
    · cases heq.symm.trans happ
  apply_error := by
    intro T T' u err happ
    simp only [indexStore, applyCanonicalUpdate] at happ
    split at happ
    · cases happ
    · cases happ
      rfl

end Postgres

end EthIndexer
