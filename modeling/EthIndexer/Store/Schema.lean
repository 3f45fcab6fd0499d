import EthIndexer.Store.Postgres
import EthIndexer.Store.Update
/-!
# The validator and the schema

`validatePostgresUpdate` was written beside the migration and has to imply
it. Nearly all of it does: the columns are in range, the keys are distinct
and every row refers to one that went in before it. The two exceptions are
the columns `input` and `data`, which may not be NULL and are sent as they
are: an accepted update goes into empty tables exactly when none of these
fields is nil.

What the validator admits also passes the guards of the conversions, so no
call panics, whatever the tables hold and wherever it fails.
-/

namespace EthIndexer

open Go

namespace Postgres

variable {env : PostgresEnv} {u : CanonicalUpdate} {T T' : Tables}

/-! ## Empty tables -/

/-- An accepted update can be held when its hashes are distinct and no
byte field is nil. -/
theorem storable_replace_empty_iff (hu : PostgresValid u)
    (hhash : (u.blocks.map fun b => b.block.hash).Nodup) :
    Storable (BundleMap.replace ∅ u) ↔ ∀ b ∈ u.blocks, b.NonNil := by
  have hget := fun {n b} => get?_replace_empty_eq_some_iff (n := n) (b := b) hu.consecutive
  constructor
  · exact fun h b hb => h.nonNil (hget.2 ⟨hb, rfl⟩)
  · intro hnil
    refine ⟨hu.canonical.number, hu.canonical.wellFormed, fun hb => hu.fits _ (hget.1 hb).1,
      fun hb => hnil _ (hget.1 hb).1, fun hb hc heq => ?_, hu.canonical.distinct⟩
    obtain ⟨hmem, rfl⟩ := hget.1 hb
    obtain ⟨hmem', rfl⟩ := hget.1 hc
    rw [List.inj_on_of_nodup_map hhash hmem hmem' heq]

/-- **What the validator accepts fits the schema, if no byte field is
nil.** -/
theorem insertCanonicalBundles_empty_iff (henv : env.Faultless)
    {ord : RangeOrder UInt64 BlockBundle} (hvalid : validatePostgresUpdate ord u = .ok ())
    (hhash : (u.blocks.map fun b => b.block.hash).Nodup) :
    (∃ T, insertCanonicalBundles env u.blocks Tables.empty = .ok T) ↔
      ∀ b ∈ u.blocks, b.NonNil := by
  have hu := validatePostgresUpdate_eq_ok_iff.1 hvalid
  rw [← storable_replace_empty_iff hu hhash]
  constructor
  · rintro ⟨T, hinsert⟩
    exact (storable_of_insertCanonicalBundles hu mirrors_empty hinsert).1
  · exact fun h => ⟨_, insertCanonicalBundles_of_storable henv hu mirrors_empty h⟩

/-- Block 7 is accepted and goes in. -/
theorem insertCanonicalBundles_empty_seven :
    ∃ T, insertCanonicalBundles .plain putSeven.blocks Tables.empty = .ok T := by
  have hvalid : validatePostgresUpdate (ascending BlockBundle) putSeven = .ok () := by
    decide +kernel
  refine (insertCanonicalBundles_empty_iff PostgresEnv.faultless_plain hvalid (by decide)).2 ?_
  exact List.forall_mem_singleton.2 ⟨by decide, by decide⟩

/-- Block 7 with a transaction whose input is nil. -/
def putNilInput : CanonicalUpdate :=
  { putSeven with blocks := [{ twoEvents with
      transactions := twoEvents.transactions.map fun t => { t with input := none } }] }

/-- It is accepted too, and violates a constraint. -/
theorem nil_input_violates :
    validatePostgresUpdate (ascending BlockBundle) putNilInput = .ok () ∧
      (putNilInput.blocks.map fun b => b.block.hash).Nodup ∧
      insertCanonicalBundles .plain putNilInput.blocks Tables.empty =
        .error (.error [] "insert canonical bundles: violates transactions input not null") := by
  decide +kernel

end Postgres

/-! ## No conversion panics -/

theorem noPanic_failIf (bad : Prop) [Decidable bad] (s : Sentinel) (text : String) :
    NoPanic (failIf bad (.because s text)) := failsAs_failIf bad trivial

theorem noPanic_check (constraints : List (String × Bool)) : NoPanic (Go.check constraints) := by
  unfold Go.check
  split
  · exact failsAs_error trivial
  · exact failsAs_ok _

/-- A hash of another length is an error, not a panic. -/
theorem noPanic_decodeHash (value : List UInt8) : NoPanic (decodeHash value) := by
  unfold decodeHash
  split
  · exact failsAs_ok _
  · exact failsAs_error trivial

theorem noPanic_decodePostgresUint64 (value : ℤ) : NoPanic (decodePostgresUint64 value) := by
  unfold decodePostgresUint64
  split
  · exact failsAs_error trivial
  · exact failsAs_ok _

theorem noPanic_execute (T : Tables) (s : Statement) : NoPanic (T.execute s) := by
  cases s <;> exact (noPanic_check _).bind fun _ => failsAs_ok _

theorem noPanic_foldlM_execute (stmts : List Statement) (T : Tables) :
    NoPanic (stmts.foldlM Tables.execute T) := by
  induction stmts generalizing T with
  | nil => exact failsAs_ok _
  | cons s stmts ih =>
    rw [List.foldlM_cons]
    exact (noPanic_execute T s).bind ih

/-- The block numbers are in the range of their column. -/
def Tables.Bigint (T : Tables) : Prop := ∀ r ∈ T.blocks, r.number ≤ maxInt64.toNat

/-- Deleting leaves numbers that were there. -/
theorem Tables.Bigint.deleteCanonicalRange {T : Tables} (h : T.Bigint)
    (replaceFrom retainFrom : ℤ) :
    (T.deleteCanonicalRange replaceFrom retainFrom).Bigint :=
  fun r hr => h r (List.mem_filter.1 hr).1

/-- A statement writes numbers that fit, if it is given such. -/
theorem Tables.Bigint.execute {T T' : Tables} {s : Statement} (h : T.Bigint)
    (hs : ∀ row, s = .insertBlock row → row.number ≤ maxInt64.toNat)
    (hexecute : T.execute s = .ok T') : T'.Bigint := by
  cases s with
  | insertBlock row =>
    obtain ⟨-, hT'⟩ := seq_eq_ok_iff.1 hexecute
    obtain rfl := pure_eq_ok_iff.1 hT'
    intro r hr
    rcases List.mem_append.1 hr with hr | hr
    · exact h r hr
    · rw [List.mem_singleton.1 hr]
      exact hs row rfl
  | insertTransaction row | insertEvent row =>
    obtain ⟨-, hT'⟩ := seq_eq_ok_iff.1 hexecute
    obtain rfl := pure_eq_ok_iff.1 hT'
    exact h

theorem Tables.Bigint.foldlM_execute {stmts : List Statement} {T T' : Tables} (h : T.Bigint)
    (hs : ∀ row, Statement.insertBlock row ∈ stmts → row.number ≤ maxInt64.toNat)
    (hexecute : stmts.foldlM Tables.execute T = .ok T') : T'.Bigint := by
  induction stmts generalizing T with
  | nil =>
    obtain rfl := pure_eq_ok_iff.1 hexecute
    exact h
  | cons s stmts ih =>
    obtain ⟨T₁, h1, h2⟩ := foldlM_cons_eq_ok_iff.1 hexecute
    exact ih (h.execute (fun row hrow => hs row (hrow ▸ List.mem_cons_self)) h1)
      (fun row hrow => hs row (List.mem_cons_of_mem _ hrow)) h2

namespace Postgres

variable {env : PostgresEnv} {u : CanonicalUpdate} {T T' : Tables}

/-- A call on the database fails with an error. -/
theorem noPanic_call (c : PostgresCall) (context : String) : NoPanic (env.call c context) := by
  unfold PostgresEnv.call
  split
  · exact failsAs_ok _
  · exact failsAs_error trivial

theorem noPanic_sendCanonicalBatch (i : ℕ) (batch : List Statement) (T : Tables) :
    NoPanic (sendCanonicalBatch env i batch T) := by
  unfold sendCanonicalBatch
  split
  · exact failsAs_ok _
  · exact (noPanic_call _ _).bind fun _ => (noPanic_foldlM_execute _ _).wrap _

theorem noPanic_sendQueued (stmts batch : List Statement) (i : ℕ) (T : Tables) :
    NoPanic (sendQueued env i batch (stmts.map .ok) T) := by
  induction stmts generalizing batch i T with
  | nil => exact noPanic_sendCanonicalBatch i batch T
  | cons s stmts ih =>
    simp only [List.map_cons, sendQueued, ok_bind]
    split
    · exact (noPanic_sendCanonicalBatch _ _ _).bind fun T₁ => ih [] _ T₁
    · exact ih _ _ T

/-- **The rows of a checked update are made**: every number fits its
column. -/
theorem noPanic_insertCanonicalBundles (hu : PostgresValid u) (T : Tables) :
    NoPanic (insertCanonicalBundles env u.blocks T) := by
  rw [insertCanonicalBundles, flatMap_queueBundle (fun _ => hu.wellFormed) hu.fits]
  exact noPanic_sendQueued _ _ _ T

/-- What the batches leave stays in the range of the column. -/
theorem bigint_insertCanonicalBundles (hu : PostgresValid u) (h : T.Bigint)
    (hinsert : insertCanonicalBundles env u.blocks T = .ok T') : T'.Bigint := by
  rw [insertCanonicalBundles, flatMap_queueBundle (fun _ => hu.wellFormed) hu.fits] at hinsert
  refine h.foldlM_execute (fun row hrow => ?_) (foldlM_of_sendQueued hinsert)
  obtain ⟨b, hb, hmem⟩ := List.mem_flatMap.1 hrow
  have hrow' : row = b.block.row := by simpa [bundleStatements] using hmem
  have hnumber := UInt64.le_iff_toNat_le.1 (hu.fits b hb).block.number
  rw [hrow']
  exact Int.ofNat_le.2 hnumber

theorem noPanic_rejectDifferentChain {chainID : UInt64} (hid : chainID ≤ maxInt64) (T : Tables) :
    NoPanic (rejectDifferentChain env chainID T) := by
  unfold rejectDifferentChain
  rw [postgresInt64_eq_ok hid, ok_bind]
  refine (noPanic_call _ _).bind fun _ => ?_
  split
  · exact failsAs_ok _
  · exact failsAs_error trivial

theorem noPanic_validateRetainedParent (hle : u.replaceFrom ≤ maxInt64)
    (hret : u.retainFrom ≤ u.replaceFrom) (T : Tables) :
    NoPanic (validateRetainedParent env u T) := by
  unfold validateRetainedParent
  split
  · exact failsAs_ok _
  · split
    · exact failsAs_ok _
    · rename_i hne
      have hpred := toNat_pred_of_lt (UInt64.lt_of_le_of_ne hret fun heq => hne heq.symm)
      have hle' : u.replaceFrom - 1 ≤ maxInt64 := by
        rw [UInt64.le_iff_toNat_le] at hle ⊢
        omega
      dsimp only
      rw [postgresInt64_eq_ok hle', ok_bind]
      refine (noPanic_call _ _).bind fun _ => ?_
      split
      · exact failsAs_error trivial
      · exact ((noPanic_decodeHash _).wrap _).bind fun _ => noPanic_failIf _ _ _

theorem noPanic_canonicalTipInTransaction (T : Tables) :
    NoPanic (canonicalTipInTransaction env T) := by
  refine (noPanic_call _ _).bind fun _ => NoPanic.wrap ?_ _
  unfold decodeTip
  split
  · exact failsAs_ok _
  · exact (noPanic_decodeHash _).bind fun _ => (noPanic_decodePostgresUint64 _).bind fun _ =>
      failsAs_ok _

/-- A tip that is read is in the range of the column. -/
theorem number_le_of_canonicalTipInTransaction (h : T.Bigint) {tip : Option ChainTip}
    (htip : canonicalTipInTransaction env T = .ok tip) : ∀ t ∈ tip, t.number ≤ maxInt64 := by
  obtain ⟨-, hdecode⟩ := seq_eq_ok_iff.1 htip
  rw [wrap_eq_ok_iff] at hdecode
  cases hrow : T.selectTip with
  | none =>
    rw [hrow] at hdecode
    cases hdecode
    simp
  | some row =>
    have hmem : row ∈ T.blocks := mem_sortSlice.1 (List.mem_of_mem_head? hrow)
    rw [hrow, decodeTip] at hdecode
    obtain ⟨hash, -, hdecode⟩ := bind_eq_ok_iff.1 hdecode
    obtain ⟨number, hnumber, hdecode⟩ := bind_eq_ok_iff.1 hdecode
    obtain rfl := pure_eq_ok_iff.1 hdecode
    rintro _ ⟨⟩
    have hle := h row hmem
    unfold decodePostgresUint64 at hnumber
    split at hnumber
    · cases hnumber
    · cases hnumber
      have hmax : maxInt64.toNat = 2 ^ 63 - 1 := rfl
      rw [UInt64.le_iff_toNat_le, UInt64.toNat_ofNat_of_lt' (by simp only [UInt64.size]; omega)]
      omega

/-- The row of the last synchronization is made: its numbers fit. -/
theorem noPanic_writeSyncState (hid : u.chainID ≤ maxInt64) {tip : Option ChainTip}
    (htip : ∀ t ∈ tip, t.number ≤ maxInt64) (T : Tables) :
    NoPanic (writeSyncState env u tip T) := by
  unfold writeSyncState
  rw [mapM_postgresInt64_eq_ok htip, ok_bind, postgresInt64_eq_ok hid, ok_bind]
  exact (noPanic_call _ _).bind fun _ =>
    NoPanic.wrap ((noPanic_check _).bind fun _ => failsAs_ok _) _

/-- **An accepted update does not panic**, whatever the tables hold and
whichever call fails. -/
theorem noPanic_commitUpdate {ord : RangeOrder UInt64 BlockBundle} (hu : PostgresValid u)
    (h : T.Bigint) : NoPanic (commitUpdate env ord u T) := by
  have hretain := UInt64.le_trans hu.retain hu.replaceFrom_le
  unfold commitUpdate
  rw [validatePostgresUpdate_eq_ok_iff.2 hu, ok_bind]
  refine (noPanic_call _ _).bind fun _ => (noPanic_call _ _).bind fun _ =>
    (noPanic_rejectDifferentChain hu.chainID_le T).bind fun _ => ?_
  rw [postgresInt64_eq_ok hu.replaceFrom_le, ok_bind, postgresInt64_eq_ok hretain, ok_bind]
  refine (noPanic_call _ _).bind fun _ =>
    (noPanic_validateRetainedParent hu.replaceFrom_le hu.retain _).bind fun _ => ?_
  refine (noPanic_insertCanonicalBundles hu _).bind_of_ok fun T₁ hinsert =>
    (noPanic_canonicalTipInTransaction T₁).bind_of_ok fun tip htip => ?_
  have hbigint := bigint_insertCanonicalBundles hu (h.deleteCanonicalRange _ _) hinsert
  refine (noPanic_writeSyncState hu.chainID_le
    (number_le_of_canonicalTipInTransaction hbigint htip) T₁).bind fun T₂ => ?_
  exact (noPanic_call _ _).bind fun _ => failsAs_ok _

end Postgres

end EthIndexer
