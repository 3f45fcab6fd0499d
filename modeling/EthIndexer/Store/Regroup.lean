import EthIndexer.Store.Postgres
/-!
# The tables read back

The rows of a mirrored map joined, sorted and decoded give back the
bundles of the map: instants to the microsecond, events in log order
(`regroup_eq`). With what a call commits, the tables of every run regroup
into a canonical window.
-/

namespace EthIndexer

open Go

/-! ## Joins -/

section Join

variable {T : Tables} {B : BundleMap}

/-- Rows joined with the hashes of their blocks. -/
theorem Mirrors.lists_join (h : Mirrors T B) {ρ : Type} {rows : List ρ} {P : ρ → Prop}
    (hrows : Lists rows P) (number : ρ → ℤ) (p : ρ → Prop) [DecidablePred p] :
    Lists (rows.flatMap fun e => if p e then
        (T.blocks.filter fun b => b.number = number e).map fun b => (e, b.hash) else [])
      fun c => P c.1 ∧ p c.1 ∧
        B.Has fun b => (b.block.number.toNat : ℤ) = number c.1 ∧ b.block.hash.1 = c.2 := by
  have hinner : ∀ e, P e → Lists (if p e then
        (T.blocks.filter fun b => b.number = number e).map fun b => (e, b.hash) else [])
      fun c => c.1 = e ∧ p e ∧
        B.Has fun b => (b.block.number.toNat : ℤ) = number e ∧ b.block.hash.1 = c.2 := by
    intro e _
    by_cases hp : p e
    · rw [if_pos hp]
      refine ((h.blocks.filter _).image ?_).congr fun c => ?_
      · rintro r r' ⟨⟨n, b, hb, rfl⟩, hr⟩ ⟨⟨m, c, hc, rfl⟩, hr'⟩ -
        have hn : n = m := by
          rw [← h.storable.number hb, ← h.storable.number hc]
          exact row_number_inj ((of_decide_eq_true hr).trans (of_decide_eq_true hr').symm)
        subst hn
        rw [hb] at hc
        cases hc
        rfl
      · constructor
        · rintro ⟨r, ⟨⟨n, b, hb, rfl⟩, hr⟩, rfl⟩
          exact ⟨rfl, hp, n, b, hb, of_decide_eq_true hr, rfl⟩
        · rintro ⟨hc, -, n, b, hb, hr, hhash⟩
          exact ⟨b.block.row, ⟨⟨n, b, hb, rfl⟩, decide_eq_true hr⟩, Prod.ext hc.symm hhash⟩
    · rw [if_neg hp]
      exact Lists.nil.congr fun c => by simp [hp]
  refine (hrows.flatMap hinner fun a b c _ _ ha hb => ha.1.symm.trans hb.1).congr fun c => ?_
  constructor
  · rintro ⟨e, he, rfl, hp, hb⟩
    exact ⟨he, hp, hb⟩
  · rintro ⟨he, hp, hb⟩
    exact ⟨c.1, he, rfl, hp, hb⟩

/-- The events with the hashes of their blocks. -/
theorem Mirrors.lists_joinEvents (h : Mirrors T B) (p : EventLogRow → Bool) :
    Lists (T.joinEvents p) fun c =>
      B.Has fun b => ∃ e ∈ b.events, e.row = c.1 ∧ b.block.hash.1 = c.2 ∧ p e.row = true := by
  refine (h.lists_join h.eventLogs EventLogRow.blockNumber fun e => p e = true).congr fun c => ?_
  constructor
  · rintro ⟨⟨n, b, hb, e, he, hrow⟩, hp, m, b', hb', hnumber, hhash⟩
    have hm : m = n := by
      rw [← h.storable.number hb, ← h.storable.number hb',
        ← ((h.storable.wellFormed hb).event e he).2.1]
      rw [← hrow] at hnumber
      exact row_number_inj hnumber
    subst hm
    rw [hb] at hb'
    cases hb'
    exact ⟨m, b, hb, e, he, hrow, hhash, hrow ▸ hp⟩
  · rintro ⟨n, b, hb, e, he, hrow, hhash, hp⟩
    refine ⟨⟨n, b, hb, e, he, hrow⟩, hrow ▸ hp, n, b, hb, ?_, hhash⟩
    rw [← hrow, ← ((h.storable.wellFormed hb).event e he).2.1]
    rfl

end Join

/-! ## Bundles read back -/

/-- A bundle as it is read back: what the columns keep of it. -/
def BlockBundle.stored (b : BlockBundle) : BlockBundle where
  block := b.block.stored
  transactions := b.transactions.map cloneTransaction
  events := b.events.map Event.stored

/-- A bundle with its events in log order. -/
def BlockBundle.inLogOrder (b : BlockBundle) : BlockBundle :=
  { b with events := sortSlice Memory.byLogIndex b.events }

theorem content_storedEvent (e : Event) : e.stored.content = e.content := by
  simp only [Event.content, Event.stored, elems_cloneSlice]
  rfl

theorem content_stored (b : BlockBundle) : b.stored.content = b.content := by
  simp [BlockBundle.stored, BlockBundle.content, Block.stored, Function.comp_def,
    content_storedEvent, content_cloneTransaction]

theorem wellFormed_inLogOrder_iff (b : BlockBundle) : WellFormed b.inLogOrder ↔ WellFormed b := by
  have hperm := perm_sortSlice Memory.byLogIndex b.events
  have hnodup : (b.inLogOrder.events.map Event.logIndex).Nodup ↔
      (b.events.map Event.logIndex).Nodup := (hperm.map _).nodup_iff
  have hmem : ∀ e, e ∈ b.inLogOrder.events ↔ e ∈ b.events := fun e => hperm.mem_iff
  constructor
  · intro h
    exact ⟨h.count, h.length_lt, h.transaction, h.hash_nodup,
      fun e he => h.event e ((hmem e).2 he), hnodup.1 h.logIndex_nodup⟩
  · intro h
    exact ⟨h.count, h.length_lt, h.transaction, h.hash_nodup,
      fun e he => h.event e ((hmem e).1 he), hnodup.2 h.logIndex_nodup⟩

/-- Reading back keeps the chain. -/
theorem keepsChain_stored : KeepsChain fun b => b.inLogOrder.stored := by
  have h := keepsChain_of_content content_stored
  exact ⟨fun b => h.number b.inLogOrder, fun b => h.hash b.inLogOrder,
    fun b => h.parentHash b.inLogOrder, fun b => h.hashes b.inLogOrder,
    fun b => (h.wellFormed b.inLogOrder).trans (wellFormed_inLogOrder_iff b)⟩

/-- What is read back and stored again is read back alike. -/
theorem stored_inLogOrder_stored (b : BlockBundle) :
    b.inLogOrder.stored.inLogOrder.stored = b.inLogOrder.stored := by
  have hblock : b.block.stored.stored = b.block.stored := by
    simp [Block.stored, microseconds]
  have hsort : ∀ l : List Event, sortSlice Memory.byLogIndex (l.map Event.stored) =
      (sortSlice Memory.byLogIndex l).map Event.stored := sortSlice_map Event.stored fun _ _ => rfl
  have hstored : ∀ e : Event, e.stored.stored = e.stored := fun e => by
    simp only [Event.stored, cloneSlice_cloneSlice]
    rfl
  simp only [BlockBundle.stored, BlockBundle.inLogOrder, hblock, hsort,
    sortSlice_sortSlice Memory.comparesBy_byLogIndex, List.map_map, Function.comp_def, hstored,
    cloneTransaction_cloneTransaction]

theorem mapM_eq_ok {α β : Type} {f : α → Go β} {g : α → β} {l : List α}
    (h : ∀ a ∈ l, f a = .ok (g a)) : l.mapM f = .ok (l.map g) := by
  induction l with
  | nil => rfl
  | cons a l ih =>
    rw [List.forall_mem_cons] at h
    rw [List.mapM_cons, h.1, ih h.2]
    rfl

section Regroup

variable {T : Tables} {B : BundleMap} {n : UInt64} {b : BlockBundle}

/-- **The transactions of a block**, by index. -/
theorem selectTransactions_eq (h : Mirrors T B) (hb : B.get? n = some b) :
    T.selectTransactions b.block.row.number = b.transactions.map Transaction.row := by
  have hwf := h.storable.wellFormed hb
  have hless : ComparesBy
      (fun a b : TransactionRow => decide (a.transactionIndex < b.transactionIndex))
      TransactionRow.transactionIndex := fun _ _ => decide_eq_true_iff
  refine (h.transactions.filter _).sortSlice_eq_of_pairwise hless ?_ fun r => ?_
  · rw [List.pairwise_map]
    exact hwf.pairwise_index.imp fun hlt => Int.ofNat_lt.2 hlt
  · rw [List.mem_map, decide_eq_true_iff]
    constructor
    · rintro ⟨t, ht, rfl⟩
      refine ⟨⟨n, b, hb, t, ht, rfl⟩, ?_⟩
      rw [← show t.row.blockNumber = b.block.row.number from
        congrArg (fun n : UInt64 => (n.toNat : ℤ)) (hwf.blockNumber_eq ht)]
    · rintro ⟨⟨m, c, hc, t, ht, rfl⟩, hnumber⟩
      have hm : m = n := by
        rw [← h.storable.number hb, ← h.storable.number hc,
          ← (h.storable.wellFormed hc).blockNumber_eq ht]
        exact row_number_inj hnumber
      subst hm
      rw [hb] at hc
      cases hc
      exact ⟨t, ht, rfl⟩

/-- **The events of a block**, by log index. -/
theorem sortSlice_joinEvents_eq (h : Mirrors T B) (hb : B.get? n = some b)
    {p : EventLogRow → Bool} {q : Event → Bool}
    (hpq : ∀ m c, B.get? m = some c → ∀ e ∈ c.events, p e.row = true ↔ m = n ∧ q e = true) :
    sortSlice (fun a b => decide (a.1.logIndex < b.1.logIndex)) (T.joinEvents p) =
      (sortSlice Memory.byLogIndex (b.events.filter q)).map fun e => (e.row, b.block.hash.1) := by
  have hless : ComparesBy (fun a b : EventLogRow × List UInt8 => decide (a.1.logIndex < b.1.logIndex))
      fun c => c.1.logIndex := fun _ _ => decide_eq_true_iff
  refine (h.lists_joinEvents p).sortSlice_eq_of_pairwise hless ?_ fun c => ?_
  · rw [List.pairwise_map]
    exact (Memory.pairwise_byLogIndex (h.storable.wellFormed hb) q).imp fun hlt => Int.ofNat_lt.2 hlt
  · rw [List.mem_map]
    constructor
    · rintro ⟨e, he, rfl⟩
      rw [mem_sortSlice, List.mem_filter] at he
      exact ⟨n, b, hb, e, he.1, rfl, rfl, (hpq n b hb e he.1).2 ⟨rfl, he.2⟩⟩
    · rintro ⟨m, b', hb', e, he, hrow, hhash, hp⟩
      obtain ⟨rfl, hq⟩ := (hpq m b' hb' e he).1 hp
      rw [hb] at hb'
      cases hb'
      refine ⟨e, ?_, Prod.ext hrow hhash⟩
      rw [mem_sortSlice, List.mem_filter]
      exact ⟨he, hq⟩

/-- The event a joined row is read back as. -/
def readEvent (c : EventLogRow × List UInt8) : Event := (c.1.decode c.2).toOption.getD default

theorem readEvent_row {e : Event} (h : e.topics.elems.length ≤ 4) :
    readEvent (e.row, e.blockHash.1) = e.stored := by
  rw [readEvent, decode_row_event h]
  rfl

theorem scanPostgresEvents_eq {rows : List (EventLogRow × List UInt8)}
    (h : ∀ c ∈ rows, ∃ e : Event, e.topics.elems.length ≤ 4 ∧ (e.row, e.blockHash.1) = c) :
    Postgres.scanPostgresEvents rows = .ok (rows.map readEvent) := by
  induction rows with
  | nil => rfl
  | cons c rows ih =>
    rw [List.forall_mem_cons] at h
    obtain ⟨e, htopics, rfl⟩ := h.1
    rw [Postgres.scanPostgresEvents, decode_row_event htopics, ok_bind, ih h.2, List.map_cons,
      readEvent_row htopics]
    rfl

/-- The events of one block. -/
theorem scanPostgresEvents_map (hwf : WellFormed b) {events : List Event}
    (h : ∀ e ∈ events, e ∈ b.events) :
    Postgres.scanPostgresEvents (events.map fun e => (e.row, b.block.hash.1)) =
      .ok (events.map Event.stored) := by
  have hrow : ∀ e ∈ events, (e.row, e.blockHash.1) = (e.row, b.block.hash.1) := fun e he => by
    rw [(hwf.event e (h e he)).2.2.1]
  have htopics : ∀ e ∈ events, e.topics.elems.length ≤ 4 := fun e he => (hwf.event e (h e he)).2.2.2
  rw [← List.map_congr_left hrow, scanPostgresEvents_eq, List.map_map]
  · exact congrArg Except.ok (List.map_congr_left fun e he => readEvent_row (htopics e he))
  · intro c hc
    obtain ⟨e, he, rfl⟩ := List.mem_map.1 hc
    exact ⟨e, htopics e he, rfl⟩

variable {wire : Option ℤ → Numeric}

theorem regroupBlock_eq (hwire : FaithfulWire wire) (h : Mirrors T B) (hb : B.get? n = some b) :
    T.regroupBlock wire b.block.row = .ok b.inLogOrder.stored := by
  have hwf := h.storable.wellFormed hb
  have hfits := h.storable.fits hb
  have hcount := hwf.count_nonneg
  have htransactions : (T.selectTransactions b.block.row.number).mapM
      (TransactionRow.decode wire b.block.row.hash) = .ok (b.transactions.map cloneTransaction) := by
    rw [selectTransactions_eq h hb, List.mapM_map]
    refine mapM_eq_ok fun t ht => ?_
    rw [← decode_row_transaction hwire (hfits.transaction t ht), hwf.blockHash_eq ht]
    rfl
  have hjoin := sortSlice_joinEvents_eq h hb (p := fun e => e.blockNumber = b.block.row.number)
    (q := fun _ => true) fun m c hc e he => by
      rw [decide_eq_true_iff, ← h.storable.number hb, ← h.storable.number hc,
        ← ((h.storable.wellFormed hc).event e he).2.1]
      exact ⟨fun heq => ⟨row_number_inj heq, rfl⟩, fun heq =>
        congrArg (fun n : UInt64 => (n.toNat : ℤ)) heq.1⟩
  rw [List.filter_true] at hjoin
  unfold Tables.regroupBlock
  rw [decode_row_block hwire hfits.block hcount, ok_bind, htransactions, ok_bind, hjoin,
    scanPostgresEvents_map hwf fun e he => mem_sortSlice.1 he]
  rfl

/-- **The tables read back** are the window, each bundle as the columns
keep it. -/
theorem regroup_eq (hwire : FaithfulWire wire) (h : Mirrors T B) :
    ∃ B', T.regroup wire = .ok B' ∧
      ∀ n, B'.get? n = (B.get? n).map fun b => b.inLogOrder.stored := by
  -- the bundle a row is read back as
  let read (r : BlockRow) : BlockBundle := (B.get (UInt64.ofNat r.number.toNat)).inLogOrder.stored
  have hread : ∀ {n b}, B.get? n = some b → read b.block.row = b.inLogOrder.stored := by
    intro n b hb
    have hn : UInt64.ofNat b.block.row.number.toNat = n := by
      rw [← h.storable.number hb]
      exact UInt64.ofNat_toNat
    simp only [read, hn, GoMap.get_of_get? hb]
  have hmapM : T.blocks.mapM (T.regroupBlock wire) = .ok (T.blocks.map read) := by
    refine mapM_eq_ok fun r hr => ?_
    obtain ⟨n, b, hb, rfl⟩ := (h.blocks.mem r).1 hr
    rw [regroupBlock_eq hwire h hb, hread hb]
  have hnumber : ∀ {n b}, B.get? n = some b → numberOf (read b.block.row) = n := fun hb => by
    rw [hread hb]
    exact (keepsChain_stored.number _).trans (h.storable.number hb)
  refine ⟨(∅ : BundleMap).setAll numberOf (T.blocks.map read), ?_, fun n => ?_⟩
  · rw [Tables.regroup, hmapM]
    rfl
  · cases hb : B.get? n with
    | some b =>
      have hnodup : ((T.blocks.map read).map numberOf).Nodup := by
        rw [List.map_map]
        refine h.blocks.nodup_map ?_
        rintro _ _ ⟨m, c, hc, rfl⟩ ⟨m', c', hc', rfl⟩ heq
        have hm : m = m' := (hnumber hc).symm.trans (heq.trans (hnumber hc'))
        subst hm
        rw [hc] at hc'
        cases hc'
        rfl
      have hmem : b.inLogOrder.stored ∈ T.blocks.map read :=
        List.mem_map.2 ⟨b.block.row, (h.blocks.mem _).2 ⟨n, b, hb, rfl⟩, hread hb⟩
      have hget := GoMap.get?_setAll_of_mem (m := (∅ : BundleMap)) hnodup hmem
      rwa [← hread hb, hnumber hb, hread hb] at hget
    | none =>
      rw [GoMap.get?_setAll_of_notMem, GoMap.get?_empty, Option.map_none]
      intro c hc
      obtain ⟨r, hr, rfl⟩ := List.mem_map.1 hc
      obtain ⟨m, d, hd, rfl⟩ := (h.blocks.mem r).1 hr
      rw [hnumber hd]
      rintro rfl
      rw [hb] at hd
      cases hd

end Regroup

/-! ## Whole runs -/

namespace Postgres

variable {env : PostgresEnv} {ord : RangeOrder UInt64 BlockBundle} {T T' : Tables} {B : BundleMap}
  {u : CanonicalUpdate}

/-- **The tables after a call**: the update's, or those before. -/
theorem applyCanonicalUpdate_cases (h : Holds T B) (env : PostgresEnv)
    (ord : RangeOrder UInt64 BlockBundle) (u : CanonicalUpdate) :
    (Accepts T B u ∧ ∃ T', applyCanonicalUpdate env ord u T = (.ok (), T') ∧
      Holds T' (B.replace u) ∧ ∃ r, T'.syncState = [r] ∧ r.chainID = u.chainID.toNat) ∨
    ∃ f, applyCanonicalUpdate env ord u T = (.error f, T) := by
  unfold applyCanonicalUpdate
  cases hcommit : commitUpdate env ord u T with
  | ok T' =>
    obtain ⟨haccepts, hholds, hchain⟩ := accepts_of_commitUpdate h hcommit
    exact Or.inl ⟨haccepts, T', rfl, hholds, hchain⟩
  | error f => exact Or.inr ⟨f, rfl⟩

/-- Calls of `ApplyCanonicalUpdate`, accepted or not, whatever fails on
the way. -/
inductive Calls (T : Tables) : Tables → Prop
  | refl : Calls T T
  | apply {T' : Tables} (env : PostgresEnv) (ord : RangeOrder UInt64 BlockBundle)
      (u : CanonicalUpdate) (h : Calls T T') : Calls T (applyCanonicalUpdate env ord u T').2

/-- **A run keeps the tables of a canonical window**, and the chain once
there is one. -/
theorem Calls.holds (hB : Holds T B) (h : Calls T T') :
    (∃ B', Holds T' B') ∧ ∀ r, T.syncState = [r] →
      ∃ r', T'.syncState = [r'] ∧ r'.chainID = r.chainID := by
  induction h with
  | refl => exact ⟨⟨B, hB⟩, fun r hr => ⟨r, hr, rfl⟩⟩
  | apply env ord u _ ih =>
    obtain ⟨⟨B', hB'⟩, hchain⟩ := ih
    rcases applyCanonicalUpdate_cases hB' env ord u with ⟨ha, T₂, heq, hB₂, r₂, hr₂, hid⟩ | ⟨f, heq⟩
    · rw [heq]
      refine ⟨⟨_, hB₂⟩, fun r hr => ⟨r₂, hr₂, ?_⟩⟩
      obtain ⟨r', hr', hid'⟩ := hchain r hr
      rw [hid, ← ha.chain r' (by rw [hr']; exact List.mem_cons_self), hid']
    · rw [heq]
      exact ⟨⟨B', hB'⟩, hchain⟩

/-- What `sync_state` says of the last indexed block: the highest row of
`blocks`, or NULL when there is none. -/
def LastIndexed (T : Tables) (r : SyncStateRow) : Prop :=
  (T.blocks = [] ∧ r.lastIndexedNumber = none ∧ r.lastIndexedHash = none) ∨
    ∃ b ∈ T.blocks, (∀ c ∈ T.blocks, c.number ≤ b.number) ∧
      r.lastIndexedNumber = some b.number ∧ r.lastIndexedHash = some b.hash

theorem Holds.lastIndexed {r : SyncStateRow} (h : Holds T B) (hr : NamesTip B r) :
    LastIndexed T r := by
  rcases hr with ⟨rfl, hn, hh⟩ | ⟨b, hb, hn, hh⟩
  · refine Or.inl ⟨h.mirrors.blocks.eq_nil ?_, hn, hh⟩
    rintro _ ⟨n, b, hb, -⟩
    simp at hb
  · refine Or.inr ⟨b.block.row, (h.mirrors.blocks.mem _).2 ⟨_, b, hb.get?, rfl⟩, fun r hr => ?_, hn, hh⟩
    obtain ⟨m, c, hc, rfl⟩ := (h.mirrors.blocks.mem r).1 hr
    obtain rfl := h.mirrors.storable.number hc
    exact Int.ofNat_le.2 (UInt64.le_iff_toNat_le.1 (hb.le _ (GoMap.mem_of_get? hc)))

/-- Every row belongs to a block. -/
theorem Holds.exists_block (h : Holds T B) :
    (∀ t ∈ T.transactions, ∃ b ∈ T.blocks, b.number = t.blockNumber) ∧
      ∀ e ∈ T.eventLogs, ∃ b ∈ T.blocks, b.number = e.blockNumber := by
  constructor
  · intro r hr
    obtain ⟨n, b, hb, t, ht, rfl⟩ := (h.mirrors.transactions.mem r).1 hr
    refine ⟨b.block.row, (h.mirrors.blocks.mem _).2 ⟨n, b, hb, rfl⟩, ?_⟩
    exact congrArg (fun n : UInt64 => (n.toNat : ℤ)) ((h.canonical.wellFormed hb).blockNumber_eq ht).symm
  · intro r hr
    obtain ⟨n, b, hb, e, he, rfl⟩ := (h.mirrors.eventLogs.mem r).1 hr
    refine ⟨b.block.row, (h.mirrors.blocks.mem _).2 ⟨n, b, hb, rfl⟩, ?_⟩
    exact congrArg (fun n : UInt64 => (n.toNat : ℤ)) ((h.canonical.wellFormed hb).event e he).2.1.symm

/-- **The tables of every run**: every row belongs to a block, the blocks
regrouped with their rows pass `validateCanonicalBundles`, and
`sync_state` is empty or has one row, which names the highest block and
whose chain no later call changes. -/
theorem Calls.canonical_state {wire : Option ℤ → Numeric} (hwire : FaithfulWire wire)
    (ord : RangeOrder UInt64 BlockBundle) (h : Calls Tables.empty T) :
    ((∀ t ∈ T.transactions, ∃ b ∈ T.blocks, b.number = t.blockNumber) ∧
      (∀ e ∈ T.eventLogs, ∃ b ∈ T.blocks, b.number = e.blockNumber) ∧
      ∃ B, T.regroup wire = .ok B ∧ validateCanonicalBundles ord B = .ok ()) ∧
    (T.syncState = [] ∨ ∃ r, T.syncState = [r] ∧ LastIndexed T r ∧
      ∀ T', Calls T T' → ∃ r', T'.syncState = [r'] ∧ r'.chainID = r.chainID) := by
  obtain ⟨⟨B, hB⟩, -⟩ := h.holds holds_empty
  refine ⟨⟨hB.exists_block.1, hB.exists_block.2, ?_⟩, ?_⟩
  · obtain ⟨B', hregroup, hget⟩ := regroup_eq hwire hB.mirrors
    refine ⟨B', hregroup, (validateCanonicalBundles_eq_ok_iff ord B' ()).2 ?_⟩
    exact (canonical_iff_of_keepsChain keepsChain_stored hget).2 hB.canonical
  · rcases hB.state with ⟨hnil, -⟩ | ⟨r, hr, htip⟩
    · exact Or.inl hnil
    · exact Or.inr ⟨r, hr, hB.lastIndexed htip, fun T' h' => (h'.holds hB).2 r hr⟩

/-- The tables with block 7, and with block 8 appended. -/
def tablesSeven : Tables :=
  (applyCanonicalUpdate .plain (ascending BlockBundle) putSeven .empty).2

def tablesEight : Tables :=
  (applyCanonicalUpdate .plain (ascending BlockBundle) putEight tablesSeven).2

/-- Both calls commit, and the two blocks regroup. -/
theorem canonical_state_eight :
    tablesEight.blocks = [twoEvents.block.row, noEvents.block.row] ∧
      tablesEight.syncState ≠ [] ∧ ∃ B, tablesEight.regroup Numeric.plain = .ok B ∧
        validateCanonicalBundles (ascending BlockBundle) B = .ok () :=
  ⟨by decide +kernel, by decide +kernel, (Calls.canonical_state faithfulWire_plain
    (ascending BlockBundle) (.apply _ _ _ (.apply _ _ _ .refl))).1.2.2⟩

end Postgres

end EthIndexer
