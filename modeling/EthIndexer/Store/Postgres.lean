import EthIndexer.Store.Mirror
/-!
# The PostgreSQL store keeps a canonical window

`Holds T B` says that the tables are those of the canonical window `B`:
they mirror it, and `sync_state` names its tip. A call that commits was
accepted (`accepts_of_commitUpdate`) and leaves the tables of
`B.replace u`; without faults an accepted call commits
(`commitUpdate_of_accepts`). `Accepts` looks at the new blocks, one stored
parent and the keys, never at the whole window, and still the window
stays canonical (`Accepts.canonical`): the parent link carries the
interval over, and the keys keep the transactions apart.
-/

namespace EthIndexer

open Go

/-- A call is answered where it does not fail. -/
theorem PostgresEnv.call_eq_ok_iff {env : PostgresEnv} {c : PostgresCall} {context : String}
    {u : Unit} : env.call c context = .ok u ↔ env.fault c = none := by
  unfold PostgresEnv.call
  cases env.fault c <;> simp

/-- No call on the database fails. -/
def PostgresEnv.Faultless (env : PostgresEnv) : Prop := ∀ c, env.fault c = none

/-- A database on which nothing fails, and numbers are spelled plainly. -/
def PostgresEnv.plain : PostgresEnv where
  fault _ := none
  wire := Numeric.plain

theorem PostgresEnv.faultless_plain : PostgresEnv.plain.Faultless := fun _ => rfl

/-! ## Validation -/

/-- **An update that passes `validatePostgresUpdate`.** -/
structure PostgresValid (u : CanonicalUpdate) : Prop where
  chainID : u.chainID ≠ 0
  chainID_le : u.chainID ≤ maxInt64
  retain : u.retainFrom ≤ u.replaceFrom
  replaceFrom_le : u.replaceFrom ≤ maxInt64
  consecutive : Consecutive u.replaceFrom u.blocks
  canonical : Canonical (BundleMap.replace ∅ u)
  fits : ∀ b ∈ u.blocks, b.Fits

/-- **The check before a transaction is exact.** -/
theorem validatePostgresUpdate_eq_ok_iff {ord : RangeOrder UInt64 BlockBundle}
    {u : CanonicalUpdate} : validatePostgresUpdate ord u = .ok () ↔ PostgresValid u := by
  simp only [validatePostgresUpdate, seq_eq_ok_iff, failIf_eq_ok_iff, not_or, gt_iff_lt,
    UInt64.not_lt, validateReplacement_eq_ok_iff, setAll_empty_eq_replace,
    validateCanonicalBundles_eq_ok_iff, each_eq_ok_iff, validatePostgresBlock_eq_ok_iff,
    validatePostgresTransaction_eq_ok_iff, validatePostgresEvent_eq_ok_iff]
  constructor
  · rintro ⟨h1, h2, h3, ⟨-, h4⟩, h5, h6, h7⟩
    exact ⟨h1, h2, h3, h4, h5, h6, fun b hb => ⟨(h7 b hb).1, (h7 b hb).2.1, (h7 b hb).2.2⟩⟩
  · rintro ⟨h1, h2, h3, h4, h5, h6, h7⟩
    exact ⟨h1, h2, h3, ⟨UInt64.le_trans h3 h4, h4⟩, h5, h6,
      fun b hb => ⟨(h7 b hb).block, (h7 b hb).transaction, (h7 b hb).event⟩⟩

/-- The blocks of an update that passes are well formed. -/
theorem PostgresValid.wellFormed {u : CanonicalUpdate} (h : PostgresValid u) {b : BlockBundle}
    (hb : b ∈ u.blocks) : WellFormed b :=
  h.canonical.wellFormed ((get?_replace_empty_eq_some_iff h.consecutive).2 ⟨hb, rfl⟩)

namespace Postgres

variable {env : PostgresEnv}

/-! ## The batches -/

/-- Batches that go through run the statements in order. -/
theorem foldlM_of_sendQueued {stmts batch : List Statement} {i : ℕ} {T T' : Tables}
    (h : sendQueued env i batch (stmts.map .ok) T = .ok T') :
    (batch ++ stmts).foldlM Tables.execute T = .ok T' := by
  have hsend : ∀ {i batch T T'}, sendCanonicalBatch env i batch T = .ok T' →
      batch.foldlM Tables.execute T = .ok T' := by
    intro i batch T T' h
    unfold sendCanonicalBatch at h
    split at h
    · rename_i hnil
      rw [List.length_eq_zero_iff.1 hnil]
      exact h
    · obtain ⟨-, -, h⟩ := bind_eq_ok_iff.1 h
      exact wrap_eq_ok_iff.1 h
  induction stmts generalizing batch i T with
  | nil =>
    rw [List.append_nil]
    exact hsend h
  | cons s stmts ih =>
    simp only [List.map_cons, sendQueued, ok_bind] at h
    rw [List.append_cons]
    split at h
    · obtain ⟨T₁, h1, h2⟩ := bind_eq_ok_iff.1 h
      exact foldlM_append_eq_ok_iff.2 ⟨T₁, hsend h1, ih h2⟩
    · exact ih h

/-- Without faults, statements that run in order go through in batches. -/
theorem sendQueued_of_foldlM (henv : env.Faultless) {stmts batch : List Statement} {i : ℕ}
    {T T' : Tables} (h : (batch ++ stmts).foldlM Tables.execute T = .ok T') :
    sendQueued env i batch (stmts.map .ok) T = .ok T' := by
  have hsend : ∀ {i batch T T'}, batch.foldlM Tables.execute T = .ok T' →
      sendCanonicalBatch env i batch T = .ok T' := by
    intro i batch T T' h
    unfold sendCanonicalBatch
    split
    · rename_i hnil
      rw [List.length_eq_zero_iff.1 hnil] at h
      exact h
    · exact bind_eq_ok_iff.2 ⟨(), PostgresEnv.call_eq_ok_iff.2 (henv _), wrap_eq_ok_iff.2 h⟩
  induction stmts generalizing batch i T with
  | nil =>
    rw [List.append_nil] at h
    exact hsend h
  | cons s stmts ih =>
    simp only [List.map_cons, sendQueued, ok_bind]
    rw [List.append_cons] at h
    split
    · obtain ⟨T₁, h1, h2⟩ := foldlM_append_eq_ok_iff.1 h
      exact bind_eq_ok_iff.2 ⟨T₁, hsend h1, ih h2⟩
    · exact ih h

/-- The heights of an update are not kept. -/
theorem newHeights {B : BundleMap} {u : CanonicalUpdate}
    (hu : Consecutive u.replaceFrom u.blocks) :
    ∀ b ∈ u.blocks, (B.keep u.replaceFrom u.retainFrom).get? b.block.number = none := by
  intro b hb
  refine Option.eq_none_iff_forall_not_mem.2 fun c hc => ?_
  have hlt := UInt64.lt_iff_toNat_lt.1 (get?_keep_eq_some_iff.1 hc).2.2
  have hge := (hu.number_bounds hb).1
  omega

/-- The queue of an update is the statements of its bundles. -/
theorem flatMap_queueBundle {blocks : List BlockBundle} (hwf : ∀ b ∈ blocks, WellFormed b)
    (hfits : ∀ b ∈ blocks, b.Fits) :
    blocks.flatMap queueBundle = (blocks.flatMap bundleStatements).map .ok := by
  rw [List.map_flatMap]
  exact List.flatMap_congr fun b hb => queueBundle_eq (hwf b hb) (hfits b hb)

/-! ## Reading single rows -/

section Select

variable {T : Tables} {B : BundleMap}

theorem selectBlock_eq (h : Mirrors T B) (n : UInt64) :
    T.selectBlock n.toNat = (B.get? n).map fun b => b.block.row := by
  cases hs : T.selectBlock n.toNat with
  | some r =>
    obtain ⟨m, b, hb, rfl⟩ := (h.blocks.mem r).1 (List.mem_of_find?_eq_some hs)
    have hn := List.find?_some hs
    rw [decide_eq_true_iff] at hn
    obtain rfl : n = m := (row_number_inj hn).symm.trans (h.storable.number hb)
    rw [hb, Option.map_some]
  | none =>
    cases hb : B.get? n with
    | none => rfl
    | some b =>
      have hne := List.find?_eq_none.1 hs b.block.row ((h.blocks.mem _).2 ⟨n, b, hb, rfl⟩)
      rw [decide_eq_true_iff, ← h.storable.number hb] at hne
      exact absurd rfl hne

/-- **The tip row** is the row of the highest block. -/
theorem selectTip_cases (h : Mirrors T B) :
    (B = ∅ ∧ T.selectTip = none) ∨ ∃ b, IsTip B b ∧ T.selectTip = some b.block.row := by
  have hless : ComparesBy (fun a b : BlockRow => decide (a.number > b.number))
      fun r => - r.number := fun a b => by
    rw [decide_eq_true_iff]
    exact Int.neg_lt_neg_iff.symm
  have hsorted := pairwise_sortSlice hless T.blocks
  unfold Tables.selectTip
  cases hs : sortSlice (fun a b : BlockRow => decide (a.number > b.number)) T.blocks with
  | nil =>
    left
    refine ⟨GoMap.ext_get? fun n => ?_, rfl⟩
    rw [GoMap.get?_empty]
    cases hb : B.get? n with
    | none => rfl
    | some b =>
      have hmem := (h.blocks.mem _).2 ⟨n, b, hb, rfl⟩
      rw [← mem_sortSlice, hs] at hmem
      exact absurd hmem List.not_mem_nil
  | cons r rest =>
    right
    have hr : r ∈ T.blocks := by
      rw [← mem_sortSlice, hs]
      exact List.mem_cons_self
    obtain ⟨n, b, hb, rfl⟩ := (h.blocks.mem r).1 hr
    obtain rfl := h.storable.number hb
    refine ⟨b, ⟨hb, fun m hm => ?_⟩, rfl⟩
    obtain ⟨c, hc⟩ := GoMap.mem_iff_get?.1 hm
    obtain rfl := h.storable.number hc
    have hmem := (h.blocks.mem _).2 ⟨_, c, hc, rfl⟩
    rw [← mem_sortSlice, hs] at hmem
    rw [UInt64.le_iff_toNat_le]
    rcases List.mem_cons.1 hmem with heq | hmem
    · exact (Int.ofNat.inj (congrArg BlockRow.number heq)).le
    · rw [hs] at hsorted
      have hle : -(b.block.number.toNat : ℤ) ≤ -(c.block.number.toNat : ℤ) :=
        (List.pairwise_cons.1 hsorted).1 c.block.row hmem
      omega

theorem decodeTip_row (b : BlockBundle) :
    decodeTip (some b.block.row) = .ok (some b.chainTip) := by
  simp only [decodeTip, Block.row, decodeHash_val, decodePostgresUint64_toNat, ok_bind]
  rfl

/-- Nothing is stored above the range of the column. -/
theorem get?_eq_none_of_gt (h : Mirrors T B) {n : UInt64} (hn : n > maxInt64) :
    B.get? n = none := by
  cases hb : B.get? n with
  | none => rfl
  | some b =>
    have hle := (h.storable.fits hb).block.number
    rw [h.storable.number hb] at hle
    exact absurd hle (UInt64.not_le.2 hn)

/-- **The hash of a height**, when the query goes through. -/
theorem canonicalHash_eq (h : Mirrors T B) (hcall : env.fault .query = none) (n : UInt64) :
    canonicalHash env T n = match B.get? n with
      | none => .error (.ofSentinel .notFound)
      | some b => .ok b.block.hash := by
  unfold canonicalHash
  by_cases hn : n > maxInt64
  · rw [if_pos hn, get?_eq_none_of_gt h hn]
  · rw [if_neg hn, postgresInt64_eq_ok (UInt64.not_lt.1 hn), ok_bind,
      (PostgresEnv.call_eq_ok_iff (u := ())).2 hcall, ok_bind, selectBlock_eq h]
    cases B.get? n with
    | none => rfl
    | some b => exact wrap_eq_ok_iff.2 (decodeHash_val b.block.hash)

end Select

/-! ## What is held -/

/-- What `sync_state` has to say of a map: its tip, or nothing. -/
def NamesTip (B : BundleMap) (r : SyncStateRow) : Prop :=
  (B = ∅ ∧ r.lastIndexedNumber = none ∧ r.lastIndexedHash = none) ∨
    ∃ b, IsTip B b ∧ r.lastIndexedNumber = some (b.block.number.toNat : ℤ) ∧
      r.lastIndexedHash = some b.block.hash.1

/-- **The tables of a canonical window.** Before the first update there
is no state row, and no block. -/
structure Holds (T : Tables) (B : BundleMap) : Prop where
  mirrors : Mirrors T B
  canonical : Canonical B
  state : (T.syncState = [] ∧ B = ∅) ∨ ∃ r, T.syncState = [r] ∧ NamesTip B r

theorem holds_empty : Holds Tables.empty ∅ :=
  ⟨mirrors_empty, Canonical.empty, Or.inl ⟨rfl, rfl⟩⟩

/-- The parent of the first new block, where one is retained. -/
def ParentHeld (B : BundleMap) (u : CanonicalUpdate) : Prop :=
  ∀ first ∈ u.blocks.head?, u.retainFrom < u.replaceFrom →
    ∃ c, B.get? (u.replaceFrom - 1) = some c ∧ first.block.parentHash = c.block.hash

/-- **When the store takes an update.** -/
structure Accepts (T : Tables) (B : BundleMap) (u : CanonicalUpdate) : Prop where
  valid : PostgresValid u
  chain : ∀ r ∈ T.syncState, r.chainID = u.chainID.toNat
  parent : ParentHeld B u
  storable : Storable (B.replace u)

section Accepts

variable {T : Tables} {B : BundleMap} {u : CanonicalUpdate}

/-- Deleting the range does not touch the parent. -/
theorem parentHeld_keep_iff :
    ParentHeld (B.keep u.replaceFrom u.retainFrom) u ↔ ParentHeld B u := by
  refine forall₂_congr fun first _ => forall_congr' fun hlt => exists_congr fun c =>
    and_congr_left fun _ => ?_
  have hpred := toNat_pred_of_lt hlt
  have hlt' := UInt64.lt_iff_toNat_lt.1 hlt
  rw [get?_keep_eq_some_iff]
  exact and_iff_left ⟨UInt64.le_iff_toNat_le.2 (by omega), UInt64.lt_iff_toNat_lt.2 (by omega)⟩

/-- **The checks cover the whole window**: it stays canonical. -/
theorem Accepts.canonical (h : Accepts T B u) (hB : Canonical B) : Canonical (B.replace u) := by
  have hu := h.valid.consecutive
  have hget := fun {n b} => get?_replace_eq_some_iff (B := B) (n := n) (b := b) hu
  refine (canonical_replace_iff hB hu).2 ⟨h.valid.canonical, ⟨?_, ?_⟩, ?_⟩
  · intro hne n hn h1 h2
    obtain ⟨first, rest, hblocks⟩ := List.exists_cons_of_ne_nil hne
    obtain ⟨c, hc, -⟩ := h.parent first (by rw [hblocks]; rfl) (UInt64.lt_of_le_of_lt h1 h2)
    exact GoMap.mem_of_get? hc
  · intro b hb hbn hlt c hc
    cases hblocks : u.blocks with
    | nil =>
      rw [hblocks] at hb
      exact absurd hb List.not_mem_nil
    | cons first rest =>
      have hfirst : first ∈ u.blocks := by
        rw [hblocks]
        exact List.mem_cons_self
      obtain ⟨c', hc', hparent⟩ := h.parent first (by rw [hblocks]; rfl) hlt
      obtain rfl : b = first := hu.eq_of_number_eq hb hfirst
        (hbn.trans (hblocks ▸ hu).number_head.symm)
      rw [hc] at hc'
      cases hc'
      exact hparent
  · intro b hb n c hc h1 h2 t ht v hv htv
    have hlt := UInt64.lt_iff_toNat_lt.1 h2
    have heq := h.storable.distinct (hget.2 (Or.inl ⟨hb, rfl⟩)) (hget.2 (Or.inr ⟨hc, h1, h2⟩))
      ht hv htv
    have hge := (hu.number_bounds hb).1
    rw [heq] at hge
    omega

end Accepts

/-! ## The steps of a call -/

section Steps

variable {T T' : Tables} {B : BundleMap} {u : CanonicalUpdate}

/-- The chain is the one of the last synchronization, if there was one. -/
theorem rejectDifferentChain_eq_ok_iff {chainID : UInt64} (hid : chainID ≤ maxInt64) {x : Unit} :
    rejectDifferentChain env chainID T = .ok x ↔
      env.fault .chain = none ∧ ∀ r ∈ T.syncState, r.chainID = chainID.toNat := by
  simp only [rejectDifferentChain, postgresInt64_eq_ok hid, ok_bind, seq_eq_ok_iff,
    PostgresEnv.call_eq_ok_iff]
  refine and_congr_right fun _ => ?_
  cases hfind : T.syncState.find? fun r => decide (r.chainID ≠ (chainID.toNat : ℤ)) with
  | none =>
    simp only [true_iff]
    intro r hr
    simpa using List.find?_eq_none.1 hfind r hr
  | some r =>
    simp only [reduceCtorEq, false_iff, not_forall]
    exact ⟨r, List.mem_of_find?_eq_some hfind, by simpa using List.find?_some hfind⟩

/-- The parent that has to be there is there, and it is looked up only if
there is one to look up. -/
theorem validateRetainedParent_eq_ok_iff (h : Mirrors T B) (hle : u.replaceFrom ≤ maxInt64)
    (hret : u.retainFrom ≤ u.replaceFrom) {x : Unit} :
    validateRetainedParent env u T = .ok x ↔ ParentHeld B u ∧
      (u.blocks ≠ [] → u.retainFrom < u.replaceFrom → env.fault .parent = none) := by
  unfold validateRetainedParent ParentHeld
  cases hblocks : u.blocks with
  | nil => simp
  | cons first rest =>
    simp only [List.head?_cons, Option.mem_some_iff, forall_eq', ne_eq, reduceCtorEq,
      not_false_eq_true, true_imp_iff]
    split
    · rename_i heq
      rw [heq]
      simp [UInt64.lt_irrefl]
    · rename_i hne
      have hlt : u.retainFrom < u.replaceFrom :=
        UInt64.lt_of_le_of_ne hret fun heq => hne heq.symm
      have hpred := toNat_pred_of_lt hlt
      have hle' : u.replaceFrom - 1 ≤ maxInt64 := by
        rw [UInt64.le_iff_toNat_le] at hle ⊢
        omega
      simp only [postgresInt64_eq_ok hle', ok_bind, seq_eq_ok_iff, PostgresEnv.call_eq_ok_iff,
        selectBlock_eq h, hlt, true_imp_iff]
      rw [and_comm]
      refine and_congr_left fun _ => ?_
      cases hc : B.get? (u.replaceFrom - 1) with
      | none => simp
      | some c =>
        simp only [Option.map_some, Option.some.injEq, exists_eq_left']
        change ((decodeHash c.block.hash.1).wrap _ >>= fun hash => _) = .ok x ↔ _
        rw [decodeHash_val, wrap_ok, ok_bind, failIf_eq_ok_iff, not_not]

/-- The state row an update writes. -/
def stateRow (u : CanonicalUpdate) (tip : Option ChainTip) : SyncStateRow where
  chainID := u.chainID.toNat
  lastIndexedNumber := tip.map fun tip => (tip.number.toNat : ℤ)
  lastIndexedHash := tip.map fun tip => tip.hash.1
  lastSuccessfulSyncAt := microseconds u.syncedAt

theorem constraints_stateRow (hid : u.chainID ≠ 0) (tip : Option ChainTip) {x : Unit} :
    Go.check (stateRow u tip).constraints = .ok x := by
  have hpos : 0 < u.chainID.toNat := Nat.pos_of_ne_zero fun h => hid (UInt64.toNat_inj.1 h)
  rw [check_eq_ok_iff]
  cases tip with
  | none => simp [SyncStateRow.constraints, stateRow, hpos]
  | some tip => simp [SyncStateRow.constraints, stateRow, hpos, tip.hash.2]

theorem mapM_postgresInt64_eq_ok {tip : Option ChainTip} (htip : ∀ t ∈ tip, t.number ≤ maxInt64) :
    (tip.mapM fun tip => postgresInt64 tip.number : Go (Option ℤ)) =
      .ok (tip.map fun tip => (tip.number.toNat : ℤ)) := by
  cases tip with
  | none => rfl
  | some t =>
    change (do let x ← postgresInt64 t.number; pure (some x)) = _
    rw [postgresInt64_eq_ok (htip t rfl)]
    rfl

/-- **The state is written over the one of the same chain.** -/
theorem writeSyncState_eq_ok_iff (hid : u.chainID ≠ 0) (hid' : u.chainID ≤ maxInt64)
    {tip : Option ChainTip} (htip : ∀ t ∈ tip, t.number ≤ maxInt64)
    (hstate : T.syncState = [] ∨ ∃ r, T.syncState = [r] ∧ r.chainID = u.chainID.toNat) :
    writeSyncState env u tip T = .ok T' ↔
      env.fault .state = none ∧ T' = { T with syncState := [stateRow u tip] } := by
  have hupsert : T.upsertSyncState (stateRow u tip) =
      .ok { T with syncState := [stateRow u tip] } := by
    unfold Tables.upsertSyncState
    rw [constraints_stateRow hid tip (x := ()), ok_bind]
    rcases hstate with hnil | ⟨r, hr, hchain⟩
    · rw [hnil]
      rfl
    · have hsame : r.chainID = (stateRow u tip).chainID := hchain
      rw [hr]
      simp [hsame]
      rfl
  unfold writeSyncState
  rw [mapM_postgresInt64_eq_ok htip, ok_bind, postgresInt64_eq_ok hid', ok_bind, seq_eq_ok_iff,
    PostgresEnv.call_eq_ok_iff, wrap_eq_ok_iff]
  change _ ∧ T.upsertSyncState (stateRow u tip) = .ok T' ↔ _
  rw [hupsert, Except.ok.injEq, eq_comm (a := T')]

/-- The rows of an update in place of the deleted ones. -/
def inserted (u : CanonicalUpdate) (T : Tables) : Tables :=
  u.blocks.foldl Tables.addBundle (T.deleteCanonicalRange u.replaceFrom.toNat u.retainFrom.toNat)

/-- After the inserts the tables mirror the replaced window. -/
theorem mirrors_inserted (hu : PostgresValid u) (h : Mirrors T B) (hs : Storable (B.replace u)) :
    Mirrors (inserted u T) (B.replace u) :=
  (h.deleteCanonicalRange _ _).addBundles hu.consecutive.nodup (newHeights hu.consecutive) hs

/-- **When the inserts go through**: the replaced window can be stored. -/
theorem foldlM_bundleStatements_inserted_iff (hu : PostgresValid u) (h : Mirrors T B) :
    (u.blocks.flatMap bundleStatements).foldlM Tables.execute
      (T.deleteCanonicalRange u.replaceFrom.toNat u.retainFrom.toNat) = .ok T' ↔
        Storable (B.replace u) ∧ T' = inserted u T :=
  foldlM_flatMap_bundleStatements_iff (h.deleteCanonicalRange _ _) hu.consecutive.nodup
    (newHeights hu.consecutive) (fun _ => hu.wellFormed) hu.fits

theorem storable_of_insertCanonicalBundles (hu : PostgresValid u) (h : Mirrors T B)
    (hinsert : insertCanonicalBundles env u.blocks
      (T.deleteCanonicalRange u.replaceFrom.toNat u.retainFrom.toNat) = .ok T') :
    Storable (B.replace u) ∧ T' = inserted u T := by
  rw [insertCanonicalBundles, flatMap_queueBundle (fun _ => hu.wellFormed) hu.fits] at hinsert
  exact (foldlM_bundleStatements_inserted_iff hu h).1 (foldlM_of_sendQueued hinsert)

theorem insertCanonicalBundles_of_storable (henv : env.Faultless) (hu : PostgresValid u)
    (h : Mirrors T B) (hs : Storable (B.replace u)) :
    insertCanonicalBundles env u.blocks
      (T.deleteCanonicalRange u.replaceFrom.toNat u.retainFrom.toNat) = .ok (inserted u T) := by
  rw [insertCanonicalBundles, flatMap_queueBundle (fun _ => hu.wellFormed) hu.fits]
  exact sendQueued_of_foldlM henv ((foldlM_bundleStatements_inserted_iff hu h).2 ⟨hs, rfl⟩)

/-- The tip read after the inserts. -/
theorem canonicalTipInTransaction_cases (env : PostgresEnv) (u : CanonicalUpdate)
    (h : Mirrors T B) :
    ∃ tip : Option ChainTip, (∀ t ∈ tip, t.number ≤ maxInt64) ∧ NamesTip B (stateRow u tip) ∧
      ∀ x, canonicalTipInTransaction env T = .ok x ↔ env.fault .tip = none ∧ x = tip := by
  rcases selectTip_cases h with ⟨rfl, hsel⟩ | ⟨b, hb, hsel⟩
  · refine ⟨none, by simp, Or.inl ⟨rfl, rfl, rfl⟩, fun x => ?_⟩
    rw [canonicalTipInTransaction, seq_eq_ok_iff, PostgresEnv.call_eq_ok_iff, wrap_eq_ok_iff, hsel,
      decodeTip, Except.ok.injEq, eq_comm (a := x)]
  · refine ⟨some b.chainTip, ?_, Or.inr ⟨b, hb, rfl, rfl⟩, fun x => ?_⟩
    · rintro _ ⟨⟩
      exact (h.storable.fits hb.get?).block.number
    · rw [canonicalTipInTransaction, seq_eq_ok_iff, PostgresEnv.call_eq_ok_iff, wrap_eq_ok_iff,
        hsel, decodeTip_row, Except.ok.injEq, eq_comm (a := x)]

theorem syncState_foldl_addBundle (blocks : List BlockBundle) (T : Tables) :
    (blocks.foldl Tables.addBundle T).syncState = T.syncState := by
  induction blocks generalizing T with
  | nil => rfl
  | cons b blocks ih => exact ih (T.addBundle b)

theorem syncState_inserted : (inserted u T).syncState = T.syncState :=
  syncState_foldl_addBundle _ _

/-- One state row at most, and of the chain of the update. -/
theorem Holds.syncState_cases (h : Holds T B)
    (hchain : ∀ r ∈ T.syncState, r.chainID = u.chainID.toNat) :
    (inserted u T).syncState = [] ∨
      ∃ r, (inserted u T).syncState = [r] ∧ r.chainID = u.chainID.toNat := by
  rw [syncState_inserted]
  rcases h.state with ⟨hnil, -⟩ | ⟨r, hr, -⟩
  · exact Or.inl hnil
  · exact Or.inr ⟨r, hr, hchain r (by rw [hr]; exact List.mem_cons_self)⟩

variable {ord : RangeOrder UInt64 BlockBundle}

/-- **A call that commits was accepted**, and its tables are those of the
replaced window. -/
theorem accepts_of_commitUpdate (h : Holds T B) (hcommit : commitUpdate env ord u T = .ok T') :
    Accepts T B u ∧ Holds T' (B.replace u) ∧
      ∃ r, T'.syncState = [r] ∧ r.chainID = u.chainID.toNat := by
  simp only [commitUpdate, seq_eq_ok_iff] at hcommit
  obtain ⟨hvalid, -, -, hreject, hcommit⟩ := hcommit
  have hu := validatePostgresUpdate_eq_ok_iff.1 hvalid
  rw [postgresInt64_eq_ok hu.replaceFrom_le, ok_bind,
    postgresInt64_eq_ok (UInt64.le_trans hu.retain hu.replaceFrom_le), ok_bind] at hcommit
  simp only [seq_eq_ok_iff] at hcommit
  obtain ⟨-, hparent, hcommit⟩ := hcommit
  have hchain := ((rejectDifferentChain_eq_ok_iff hu.chainID_le).1 hreject).2
  have hkept := h.mirrors.deleteCanonicalRange u.replaceFrom u.retainFrom
  obtain ⟨T₂, hinsert, hcommit⟩ := bind_eq_ok_iff.1 hcommit
  obtain ⟨hstorable, rfl⟩ := storable_of_insertCanonicalBundles hu h.mirrors hinsert
  have hmirrors := mirrors_inserted hu h.mirrors hstorable
  obtain ⟨tip, htipmax, htip, htipread⟩ := canonicalTipInTransaction_cases env u hmirrors
  obtain ⟨x, hread, hcommit⟩ := bind_eq_ok_iff.1 hcommit
  obtain ⟨-, rfl⟩ := (htipread x).1 hread
  obtain ⟨T₃, hwrite, hcommit⟩ := bind_eq_ok_iff.1 hcommit
  obtain ⟨-, rfl⟩ := (writeSyncState_eq_ok_iff hu.chainID hu.chainID_le htipmax
    (h.syncState_cases hchain)).1 hwrite
  obtain ⟨-, hcommit⟩ := seq_eq_ok_iff.1 hcommit
  obtain rfl := pure_eq_ok_iff.1 hcommit
  have haccepts : Accepts T B u := ⟨hu, hchain, parentHeld_keep_iff.1
    ((validateRetainedParent_eq_ok_iff hkept hu.replaceFrom_le hu.retain).1 hparent).1, hstorable⟩
  exact ⟨haccepts, ⟨⟨hmirrors.storable, hmirrors.blocks, hmirrors.transactions,
    hmirrors.eventLogs⟩, haccepts.canonical h.canonical, Or.inr ⟨_, rfl, htip⟩⟩, _, rfl, rfl⟩

/-- **An accepted call commits**, when no call on the database fails. -/
theorem commitUpdate_of_accepts (henv : env.Faultless) (h : Holds T B) (ha : Accepts T B u) :
    ∃ T', commitUpdate env ord u T = .ok T' := by
  have hu := ha.valid
  have hkept := h.mirrors.deleteCanonicalRange u.replaceFrom u.retainFrom
  obtain ⟨tip, htipmax, -, htipread⟩ := canonicalTipInTransaction_cases env u
    (mirrors_inserted hu h.mirrors ha.storable)
  have hcall : ∀ c context, env.call c context = .ok () := fun c _ =>
    PostgresEnv.call_eq_ok_iff.2 (henv c)
  have hreject : rejectDifferentChain env u.chainID T = .ok () :=
    (rejectDifferentChain_eq_ok_iff hu.chainID_le).2 ⟨henv _, ha.chain⟩
  have hparent : validateRetainedParent env u _ = .ok () :=
    (validateRetainedParent_eq_ok_iff hkept hu.replaceFrom_le hu.retain).2
      ⟨parentHeld_keep_iff.2 ha.parent, fun _ _ => henv _⟩
  have hinsert := insertCanonicalBundles_of_storable henv hu h.mirrors ha.storable
  have hwrite : writeSyncState env u tip (inserted u T) = .ok _ :=
    (writeSyncState_eq_ok_iff hu.chainID hu.chainID_le htipmax
      (h.syncState_cases ha.chain)).2 ⟨henv _, rfl⟩
  refine ⟨{ inserted u T with syncState := [stateRow u tip] }, ?_⟩
  simp only [commitUpdate, validatePostgresUpdate_eq_ok_iff.2 hu, hcall, hreject, ok_bind,
    postgresInt64_eq_ok hu.replaceFrom_le,
    postgresInt64_eq_ok (UInt64.le_trans hu.retain hu.replaceFrom_le), hparent, hinsert,
    (htipread tip).2 ⟨henv _, rfl⟩, hwrite]
  rfl

end Steps

end Postgres

end EthIndexer
