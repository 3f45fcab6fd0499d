import EthIndexer.Store.Endpoints
import EthIndexer.Store.Pair
import Mathlib.Data.Prod.Lex
/-!
# The two stores answer alike

`Memory` scans its map in some order, filters, sorts and cuts; `Postgres`
joins, orders and asks for one row more than it shows. On stores that hold
the same window both come to the same answers. What a query selects is a
set of records; the keys of the window give it one order; and the probe
row decides what the length of the sorted slice decides. An answer is
compared by its content: instants to the microsecond, and slices by their
elements.
-/

namespace EthIndexer

open Go

/-! ## What answers are compared by -/

def BlockResult.content (r : BlockResult) : BlockResult := { r with block := r.block.stored }

def TransactionResult.content (r : TransactionResult) : TransactionResult where
  transaction := r.transaction.content
  events := r.events.map Event.content

def EventPage.content (p : EventPage) : EventPage := { p with events := p.events.map Event.content }

theorem call_of_faultless {env : PostgresEnv} (henv : env.Faultless) (c : PostgresCall)
    (context : String) : env.call c context = .ok () := PostgresEnv.call_eq_ok_iff.2 (henv c)

/-! ## Blocks -/

namespace Postgres

variable {T : Tables} {B : BundleMap} {env : PostgresEnv}

/-- The hashes of a block's transactions come back. -/
theorem decodeHashes_val (number : UInt64) (hashes : List Hash) (i : ℕ) :
    decodeHashes number i (hashes.map Subtype.val) = .ok hashes := by
  induction hashes generalizing i with
  | nil => rfl
  | cons hash hashes ih =>
    simp only [List.map_cons, decodeHashes, decodeHash_val, wrap_ok, ok_bind, ih]
    rfl

/-- **A block of the tables.** -/
theorem blockByNumber_eq (h : Mirrors T B) (henv : env.Faultless) (hwire : FaithfulWire env.wire)
    (n : UInt64) :
    blockByNumber env T n = match B.get? n with
      | none => .error (.ofSentinel .notFound)
      | some b => .ok { block := b.block.stored
                        transactionHashes := b.transactions.map Transaction.hash } := by
  unfold blockByNumber
  by_cases hn : n > maxInt64
  · rw [if_pos hn, get?_eq_none_of_gt h hn]
  · rw [if_neg hn, postgresInt64_eq_ok (UInt64.not_lt.1 hn), ok_bind, call_of_faultless henv,
      ok_bind, selectBlock_eq h]
    cases hb : B.get? n with
    | none => rfl
    | some b =>
      have hwf := h.storable.wellFormed hb
      have hcount := hwf.count_nonneg
      have hhashes : (T.selectTransactions b.block.row.number).map TransactionRow.hash =
          (b.transactions.map Transaction.hash).map Subtype.val := by
        rw [selectTransactions_eq h hb, List.map_map, List.map_map]
        rfl
      have hlength : ¬ (((b.transactions.map Transaction.hash).length : ℤ) ≠
          b.block.stored.transactionCount) := by
        rw [List.length_map, not_not]
        exact hwf.count.symm
      simp only [Option.map_some, decode_row_block hwire (h.storable.fits hb).block hcount, wrap_ok,
        ok_bind, hhashes, decodeHashes_val, failIf_of_not hlength]
      rfl

end Postgres

section Blocks

variable {m : Memory} {T : Tables} {B : BundleMap} {env : PostgresEnv}

theorem Alike.canonicalTip_eq (h : Alike m T B) (henv : env.Faultless)
    (ord : RangeOrder UInt64 BlockBundle) :
    Memory.canonicalTip ord none m = Postgres.canonicalTip env T := by
  rw [Postgres.canonicalTip, call_of_faultless henv, ok_bind]
  rcases Memory.canonicalTip_cases ord h.invariant.canonical with ⟨hempty, htip⟩ | ⟨b, hb, htip⟩ <;>
    rcases Postgres.selectTip_cases h.holds.mirrors with ⟨rfl, hsel⟩ | ⟨c, hc, hsel⟩
  · rw [htip, hsel]
    rfl
  · have hget := h.get? c.block.number
    rw [hempty, GoMap.get?_empty, hc.get?] at hget
    cases hget
  · have hget := h.get? b.block.number
    rw [hb.get?, GoMap.get?_empty] at hget
    cases hget
  · -- the copy of the highest block is the highest of the copies
    have htip' : IsTip m.bundles (cloneBundle c) := by
      refine ⟨?_, fun n hn => hc.le n (h.mem_iff.1 hn)⟩
      rw [block_cloneBundle, h.get?, hc.get?, Option.map_some]
    rw [htip, hsel, Postgres.decodeTip_row, hb.eq htip']
    rfl

theorem Alike.canonicalHash_eq (h : Alike m T B) (henv : env.Faultless) (n : UInt64) :
    m.canonicalHash none n = Postgres.canonicalHash env T n := by
  rw [Postgres.canonicalHash_eq h.holds.mirrors (henv _), Memory.canonicalHash, h.get?]
  cases B.get? n <;> rfl

/-- **Both answer alike for a block**, to the microsecond. -/
theorem Alike.blockByNumber_eq (h : Alike m T B) (henv : env.Faultless)
    (hwire : FaithfulWire env.wire) (n : UInt64) :
    (m.blockByNumber none n).map BlockResult.content =
      (Postgres.blockByNumber env T n).map BlockResult.content := by
  rw [Postgres.blockByNumber_eq h.holds.mirrors henv hwire, Memory.blockByNumber, h.get?]
  cases B.get? n with
  | none => rfl
  | some b =>
    refine congrArg Except.ok ?_
    simp [BlockResult.content, Block.stored, microseconds, cloneBundle, cloneTransaction,
      Function.comp_def]

end Blocks

/-! ## Transactions -/

namespace Postgres

variable {T : Tables} {B : BundleMap} {env : PostgresEnv} {n : UInt64} {b : BlockBundle}
  {t : Transaction}

/-- The join of a transaction with its block. -/
theorem lists_selectTransaction (h : Mirrors T B) (hash : Hash) :
    Lists (T.transactions.flatMap fun t => if t.hash = hash.1 then
        (T.blocks.filter fun b => b.number = t.blockNumber).map fun b => (t, b.hash) else [])
      fun c => B.Has fun b => ∃ t ∈ b.transactions, t.hash = hash ∧ (t.row, b.block.hash.1) = c := by
  refine (h.lists_join h.transactions TransactionRow.blockNumber fun t => t.hash = hash.1).congr
    fun c => ?_
  constructor
  · rintro ⟨⟨n, b, hb, t, ht, hrow⟩, hp, m, b', hb', hnumber, hhash⟩
    have hm : m = n := by
      rw [← h.storable.number hb, ← h.storable.number hb',
        ← (h.storable.wellFormed hb).blockNumber_eq ht]
      rw [← hrow] at hnumber
      exact row_number_inj hnumber
    subst hm
    rw [hb] at hb'
    cases hb'
    rw [← hrow] at hp
    exact ⟨m, b, hb, t, ht, Subtype.ext hp, Prod.ext hrow hhash⟩
  · rintro ⟨n, b, hb, t, ht, rfl, rfl⟩
    refine ⟨⟨n, b, hb, t, ht, rfl⟩, rfl, n, b, hb, ?_, rfl⟩
    rw [← (h.storable.wellFormed hb).blockNumber_eq ht]
    rfl

/-- A stored transaction is selected, with the hash of its block. -/
theorem selectTransaction_of_mem (h : Mirrors T B) (hb : B.get? n = some b)
    (ht : t ∈ b.transactions) :
    T.selectTransaction t.hash.1 = some (t.row, b.block.hash.1) := by
  rw [Tables.selectTransaction, (lists_selectTransaction h t.hash).eq_singleton
    (a := (t.row, b.block.hash.1))]
  · rfl
  · intro c
    constructor
    · rintro ⟨m, b', hb', v, hv, hhash, rfl⟩
      obtain rfl := h.storable.distinct hb hb' ht hv hhash.symm
      rw [hb] at hb'
      cases hb'
      rw [List.inj_on_of_nodup_map (h.storable.wellFormed hb).hash_nodup ht hv hhash.symm]
    · rintro rfl
      exact ⟨n, b, hb, t, ht, rfl, rfl⟩

theorem selectTransaction_of_not_mem (h : Mirrors T B) {hash : Hash}
    (hnone : ∀ n b, B.get? n = some b → ∀ t ∈ b.transactions, t.hash ≠ hash) :
    T.selectTransaction hash.1 = none := by
  rw [Tables.selectTransaction, (lists_selectTransaction h hash).eq_nil]
  · rfl
  · rintro c ⟨n, b, hb, t, ht, hhash, -⟩
    exact hnone n b hb t ht hhash

/-- **What the tables answer for a transaction**: its events are those of
its block. -/
theorem transactionByHash_of_mem (h : Mirrors T B) (henv : env.Faultless)
    (hwire : FaithfulWire env.wire) (hb : B.get? n = some b) (ht : t ∈ b.transactions) :
    transactionByHash env T t.hash = .ok
      { transaction := cloneTransaction t
        events := (sortSlice Memory.byLogIndex
          (b.events.filter fun e => e.transactionHash = t.hash)).map Event.stored } := by
  have hwf := h.storable.wellFormed hb
  have hdecode : t.row.decode env.wire b.block.hash.1 = .ok (cloneTransaction t) := by
    rw [← hwf.blockHash_eq ht]
    exact decode_row_transaction hwire ((h.storable.fits hb).transaction t ht)
  have hjoin := sortSlice_joinEvents_eq h hb (p := fun e => e.transactionHash = t.hash.1)
    (q := fun e => e.transactionHash = t.hash) fun m c hc e he => by
      rw [decide_eq_true_iff, decide_eq_true_iff]
      constructor
      · intro heq
        have hhash : e.transactionHash = t.hash := Subtype.ext heq
        obtain ⟨v, hv, hvhash, -⟩ := ((h.storable.wellFormed hc).event e he).1
        exact ⟨h.storable.distinct hc hb hv ht (hvhash.trans hhash), hhash⟩
      · rintro ⟨-, heq⟩
        exact congrArg Subtype.val heq
  have hscan := scanPostgresEvents_map hwf fun e (he : e ∈ sortSlice Memory.byLogIndex
    (b.events.filter fun e => e.transactionHash = t.hash)) =>
      (List.mem_filter.1 (mem_sortSlice.1 he)).1
  have hevents : queryEventsForTransaction env T t.hash = .ok ((sortSlice Memory.byLogIndex
      (b.events.filter fun e => e.transactionHash = t.hash)).map Event.stored) := by
    rw [queryEventsForTransaction, call_of_faultless henv, ok_bind, Tables.selectEventsForTransaction,
      hjoin, hscan, wrap_ok]
  simp only [transactionByHash, call_of_faultless henv, ok_bind, selectTransaction_of_mem h hb ht,
    hdecode, wrap_ok, hevents]
  rfl

end Postgres

/-- A copy has its transactions' copies. -/
theorem mem_transactions_cloneBundle {b : BlockBundle} {t : Transaction}
    (ht : t ∈ b.transactions) : cloneTransaction t ∈ (cloneBundle b).transactions :=
  List.mem_map_of_mem ht

/-- **Both answer alike for a transaction.** -/
theorem Alike.transactionByHash_eq {m : Memory} {T : Tables} {B : BundleMap} {env : PostgresEnv}
    (h : Alike m T B) (henv : env.Faultless) (hwire : FaithfulWire env.wire)
    (ord : RangeOrder UInt64 BlockBundle) (hash : Hash) :
    (m.transactionByHash ord none hash).map TransactionResult.content =
      (Postgres.transactionByHash env T hash).map TransactionResult.content := by
  by_cases hmem : ∃ n b t, B.get? n = some b ∧ t ∈ b.transactions ∧ t.hash = hash
  · obtain ⟨n, b, t, hb, ht, rfl⟩ := hmem
    have hclone : m.bundles.get? n = some (cloneBundle b) := by
      rw [h.get?, hb]
      rfl
    have hm : m.transactionByHash ord none t.hash =
        .ok (Memory.transactionAnswer (cloneBundle b) (cloneTransaction t)) :=
      Memory.transactionByHash_of_mem h.invariant hclone (mem_transactions_cloneBundle ht)
    rw [hm, Postgres.transactionByHash_of_mem h.holds.mirrors henv hwire hb ht]
    refine congrArg Except.ok ?_
    have hevents : (Memory.transactionAnswer (cloneBundle b) (cloneTransaction t)).events =
        (sortSlice Memory.byLogIndex
          (b.events.filter fun e => e.transactionHash = t.hash)).map cloneEvent := by
      rw [← Memory.sortSlice_byLogIndex_map, Memory.transactionAnswer, cloneBundle, List.filter_map]
      rfl
    simp only [TransactionResult.content, hevents, List.map_map, Function.comp_def,
      content_cloneEvent, content_storedEvent]
    rfl
  · have hnone : ∀ n b, B.get? n = some b → ∀ t ∈ b.transactions, t.hash ≠ hash :=
      fun n b hb t ht hhash => hmem ⟨n, b, t, hb, ht, hhash⟩
    have hm : m.transactionByHash ord none hash = .error (.ofSentinel .notFound) := by
      refine Memory.transactionByHash_of_not_mem fun n c hc t ht hhash => ?_
      rw [h.get?] at hc
      obtain ⟨b, hb, rfl⟩ := Option.map_eq_some_iff.1 hc
      obtain ⟨v, hv, rfl⟩ := List.mem_map.1 ht
      exact hnone n b hb v hv hhash
    simp only [hm, Postgres.transactionByHash, call_of_faultless henv, ok_bind,
      Postgres.selectTransaction_of_not_mem h.holds.mirrors hnone]

/-! ## Events -/

/-- The events of a map that a query selects. -/
def Selected (B : BundleMap) (query : EventQuery) (e : Event) : Prop :=
  (B.Has fun b => e ∈ b.events) ∧ e.address = query.address ∧
    Memory.eventBeforeCursor e query.before = true

namespace Postgres

variable {T : Tables} {B : BundleMap} {env : PostgresEnv} {query : EventQuery}

/-- The position of a row. -/
abbrev rowPosition (c : EventLogRow × List UInt8) : ℤ ×ₗ ℤ := toLex (c.1.blockNumber, c.1.logIndex)

/-- The `ORDER BY` of the query is by position, from the highest. -/
theorem comparesBy_newestRowFirst :
    ComparesBy Tables.newestRowFirst fun c => OrderDual.toDual (rowPosition c) := by
  intro a b
  rw [OrderDual.toDual_lt_toDual, Prod.Lex.toLex_lt_toLex, Tables.newestRowFirst]
  split
  · rename_i hne
    simp [Ne.symm hne]
  · rename_i heq
    rw [ne_eq, not_not] at heq
    simp [heq]

theorem rowPosition_lt_iff {e e' : Event} {h h' : List UInt8} :
    rowPosition (e.row, h) < rowPosition (e'.row, h') ↔ e.position < e'.position := by
  rw [Prod.Lex.toLex_lt_toLex, Event.position_lt_iff, UInt64.lt_iff_toNat_lt, UInt32.lt_iff_toNat_lt,
    ← UInt64.toNat_inj]
  simp only [Event.row, Int.ofNat_lt, Int.ofNat_inj]

/-- The row position a cursor stays below. -/
def beforeRow (before : Option EventCursor) : Option (ℤ × ℤ) :=
  before.map fun c => ((c.blockNumber.toNat : ℤ), (c.logIndex.toNat : ℤ))

/-- The arguments of the query are the cursor's position. -/
theorem positionArguments_eq {before : Option EventCursor}
    (h : ∀ c ∈ before, c.blockNumber ≤ maxInt64) :
    positionArguments before = .ok (beforeRow before) := by
  cases before with
  | none => rfl
  | some c =>
    have hlog : c.logIndex.toUInt64 ≤ maxInt64 := by
      have := c.logIndex.toNat_lt
      rw [UInt64.le_iff_toNat_le, UInt32.toNat_toUInt64]
      simp only [maxInt64, UInt64.reduceToNat]
      omega
    change (do
      let x ← (do
        let number ← postgresInt64 c.blockNumber
        let logIndex ← postgresInt64 c.logIndex.toUInt64
        return (number, logIndex) : Go (ℤ × ℤ))
      pure (some x)) = _
    rw [postgresInt64_eq_ok (h c rfl), ok_bind, postgresInt64_eq_ok hlog]
    rfl

/-- The rows a query selects. -/
def selects (query : EventQuery) (e : EventLogRow) : Bool :=
  decide (e.emitterAddress = query.address.1) && (beforeRow query.before).all fun (number, logIndex) =>
    decide (e.blockNumber < number ∨ (e.blockNumber = number ∧ e.logIndex < logIndex))

/-- The `WHERE` of the query is the test of the in-memory store. -/
theorem selects_row_iff {e : Event} : selects query e.row = true ↔
    e.address = query.address ∧ Memory.eventBeforeCursor e query.before = true := by
  have haddress : e.row.emitterAddress = query.address.1 ↔ e.address = query.address :=
    ⟨fun h => Subtype.ext h, congrArg Subtype.val⟩
  rw [selects, Bool.and_eq_true, decide_eq_true_iff, haddress, Memory.eventBeforeCursor_iff]
  refine and_congr_right fun _ => ?_
  cases query.before with
  | none => simp [beforeRow]
  | some c =>
    have hlt : e.position < c.position ↔ e.blockNumber.toNat < c.blockNumber.toNat ∨
        (e.blockNumber.toNat = c.blockNumber.toNat ∧ e.logIndex.toNat < c.logIndex.toNat) := by
      rw [UInt64.toNat_inj, ← UInt64.lt_iff_toNat_lt, ← UInt32.lt_iff_toNat_lt]
      exact eventPosition_lt_iff
    simp only [Option.map_some, Option.mem_some_iff, forall_eq', hlt, beforeRow, Option.all_some,
      decide_eq_true_iff, Event.row, Int.ofNat_lt, Int.ofNat_inj]

/-- **The selected rows** are those of the selected events. -/
theorem lists_selects (h : Mirrors T B) : Lists (T.joinEvents (selects query)) fun c =>
    ∃ e, Selected B query e ∧ (e.row, e.blockHash.1) = c := by
  refine (h.lists_joinEvents (selects query)).congr fun c => ?_
  constructor
  · rintro ⟨n, b, hb, e, he, hrow, hhash, hp⟩
    rw [← ((h.storable.wellFormed hb).event e he).2.2.1] at hhash
    exact ⟨e, ⟨⟨n, b, hb, he⟩, selects_row_iff.1 hp⟩, Prod.ext hrow hhash⟩
  · rintro ⟨e, ⟨⟨n, b, hb, he⟩, hp⟩, rfl⟩
    refine ⟨n, b, hb, e, he, rfl, ?_, selects_row_iff.2 hp⟩
    rw [((h.storable.wellFormed hb).event e he).2.2.1]

/-- A stored event has at most four topics. -/
theorem topics_le_of_selected (h : Storable B) {e : Event} (he : Selected B query e) :
    e.topics.elems.length ≤ 4 := by
  obtain ⟨⟨n, b, hb, hmem⟩, -⟩ := he
  exact ((h.wellFormed hb).event e hmem).2.2.2

/-- No two selected events are at one position. -/
theorem eq_of_rowPosition_eq (h : Storable B) {e e' : Event} (he : Selected B query e)
    (he' : Selected B query e')
    (heq : rowPosition (e.row, e.blockHash.1) = rowPosition (e'.row, e'.blockHash.1)) : e = e' := by
  obtain ⟨⟨n, b, hb, hmem⟩, -⟩ := he
  obtain ⟨⟨n', b', hb', hmem'⟩, -⟩ := he'
  have hpair := Prod.mk.inj (toLex.injective heq)
  have hnumber : n = n' := by
    rw [← h.number hb, ← h.number hb', ← ((h.wellFormed hb).event e hmem).2.1,
      ← ((h.wellFormed hb').event e' hmem').2.1]
    exact row_number_inj hpair.1
  subst hnumber
  rw [hb] at hb'
  cases hb'
  exact List.inj_on_of_nodup_map (h.wellFormed hb).logIndex_nodup hmem hmem'
    (UInt32.toNat_inj.1 (Int.ofNat.inj hpair.2))

/-- The events of an address below a cursor, as they are read back. -/
def listed (T : Tables) (query : EventQuery) : List Event :=
  (sortSlice Tables.newestRowFirst (T.joinEvents (selects query))).map readEvent

/-- **The rows come newest first**, and each selected event once. -/
theorem descending_listed (h : Mirrors T B) :
    Paging.Descending Event.position (listed T query) := by
  have hrows : Lists (T.joinEvents (selects query)) _ := lists_selects h
  have hsorted := pairwise_lt_sortSlice comparesBy_newestRowFirst (hrows.nodup_map (by
    rintro _ _ ⟨e, he, rfl⟩ ⟨e', he', rfl⟩ heq
    rw [eq_of_rowPosition_eq h.storable he he' (OrderDual.toDual_inj.1 heq)]))
  refine Paging.descending_map_iff.2 (hsorted.imp_of_mem fun {c c'} hc hc' hlt => ?_)
  obtain ⟨e, he, rfl⟩ := (hrows.mem c).1 (mem_sortSlice.1 hc)
  obtain ⟨e', he', rfl⟩ := (hrows.mem c').1 (mem_sortSlice.1 hc')
  dsimp only
  rw [readEvent_row (topics_le_of_selected h.storable he),
    readEvent_row (topics_le_of_selected h.storable he')]
  change e'.position < e.position
  exact rowPosition_lt_iff.1 (OrderDual.toDual_lt_toDual.1 hlt)

/-- What the query lists, in terms of the window. -/
theorem mem_listed (h : Mirrors T B) {x : Event} :
    x ∈ listed T query ↔ ∃ e, Selected B query e ∧ e.stored = x := by
  simp only [listed, List.mem_map, mem_sortSlice, (lists_selects h).mem]
  constructor
  · rintro ⟨_, ⟨e, he, rfl⟩, rfl⟩
    exact ⟨e, he, (readEvent_row (topics_le_of_selected h.storable he)).symm⟩
  · rintro ⟨e, he, rfl⟩
    exact ⟨_, ⟨e, he, rfl⟩, readEvent_row (topics_le_of_selected h.storable he)⟩

/-- **A page of the listing**, cut by the probe row. -/
theorem queryAddressEventPage_eq (h : Mirrors T B) (henv : env.Faultless)
    (hlimit : query.limit ≤ maxEventPageSize)
    (hbefore : ∀ c ∈ query.before, c.blockNumber ≤ maxInt64) :
    queryAddressEventPage env T query =
      .ok (Memory.answer (Paging.page query.limit.toNat (listed T query))) := by
  unfold queryAddressEventPage
  split
  · rename_i hzero
    rw [hzero]
    exact congrArg (fun p => Except.ok (Memory.answer p)) (Paging.page_zero _).symm
  · have hnat := UInt32.le_iff_toNat_le.1 hlimit
    simp only [maxEventPageSize, UInt32.reduceToNat] at hnat
    have hprobe : (query.limit.toUInt64 + 1).toNat = query.limit.toNat + 1 := by
      rw [UInt64.toNat_add, UInt32.toNat_toUInt64, UInt64.toNat_one]
      omega
    have hle : query.limit.toUInt64 + 1 ≤ maxInt64 := by
      rw [UInt64.le_iff_toNat_le, hprobe]
      simp only [maxInt64, UInt64.reduceToNat]
      omega
    have hselect : T.selectEventsByAddress query.address.1 (beforeRow query.before)
        ((query.limit.toUInt64 + 1).toNat : ℤ) =
          (sortSlice Tables.newestRowFirst (T.joinEvents (selects query))).take
            (query.limit.toNat + 1) := by
      rw [hprobe]
      rfl
    have hscan : scanPostgresEvents ((sortSlice Tables.newestRowFirst
        (T.joinEvents (selects query))).take (query.limit.toNat + 1)) =
          .ok ((listed T query).take (query.limit.toNat + 1)) := by
      rw [scanPostgresEvents_eq, List.map_take]
      · rfl
      · intro c hc
        obtain ⟨e, he, rfl⟩ := ((lists_selects h).mem c).1 (mem_sortSlice.1 (List.mem_of_mem_take hc))
        exact ⟨e, topics_le_of_selected h.storable he, rfl⟩
    rw [postgresInt64_eq_ok hle, ok_bind, positionArguments_eq hbefore, ok_bind,
      call_of_faultless henv, ok_bind, hselect, hscan, wrap_ok, ok_bind, ← Paging.probe_eq_page]
    unfold Paging.probe
    dsimp only
    split <;> rfl

end Postgres

section Pages

variable {m : Memory} {T : Tables} {B : BundleMap} {env : PostgresEnv} {query : EventQuery}

theorem Alike.exists_selected_iff (h : Alike m T B) {x : Event} :
    (m.Holds x ∧ x.address = query.address ∧
      Memory.eventBeforeCursor x query.before = true) ↔
        ∃ e, Selected B query e ∧ cloneEvent e = x := by
  constructor
  · rintro ⟨⟨n, c, hc, hx⟩, hselect⟩
    rw [h.get?] at hc
    obtain ⟨b, hb, rfl⟩ := Option.map_eq_some_iff.1 hc
    obtain ⟨e, he, rfl⟩ := List.mem_map.1 hx
    exact ⟨e, ⟨⟨n, b, hb, he⟩, hselect⟩, rfl⟩
  · rintro ⟨e, ⟨⟨n, b, hb, he⟩, hselect⟩, rfl⟩
    exact ⟨⟨n, cloneBundle b, by rw [h.get?, hb]; rfl, List.mem_map_of_mem he⟩, hselect⟩

/-- **The two listings have the same content.** -/
theorem Alike.listed_content_eq (h : Alike m T B) :
    (Paging.below Event.position (query.before.map EventCursor.position)
      (m.listed query.address)).map Event.content =
        (Postgres.listed T query).map Event.content := by
  have hmemory := (Memory.descending_listed h.invariant query.address).below
    (query.before.map EventCursor.position)
  have hcontent : Paging.Descending Event.position (List.map Event.content _) :=
    Paging.descending_map_iff.2 hmemory
  refine hcontent.eq_of_mem_iff
    (Paging.descending_map_iff.2 (Postgres.descending_listed h.holds.mirrors)) fun x => ?_
  have hbelow : ∀ y, y ∈ Paging.below Event.position (query.before.map EventCursor.position)
      (m.listed query.address) ↔ ∃ e, Selected B query e ∧ cloneEvent e = y := fun y => by
    rw [Paging.mem_below, Memory.mem_listed h.invariant, ← Memory.eventBeforeCursor_iff, and_assoc,
      h.exists_selected_iff]
  simp only [List.mem_map, hbelow, Postgres.mem_listed h.holds.mirrors]
  constructor
  · rintro ⟨_, ⟨e, he, rfl⟩, rfl⟩
    exact ⟨e.stored, ⟨e, he, rfl⟩, by rw [content_storedEvent, content_cloneEvent]⟩
  · rintro ⟨_, ⟨e, he, rfl⟩, rfl⟩
    exact ⟨cloneEvent e, ⟨e, he, rfl⟩, by rw [content_storedEvent, content_cloneEvent]⟩

/-- The content of a page is read off the content of the listing. -/
theorem content_answer_page (limit : ℕ) (l : List Event) :
    (Memory.answer (Paging.page limit l)).content =
      Memory.answer (Paging.page limit (l.map Event.content)) := by
  rw [Paging.page_map]
  simp only [Memory.answer, EventPage.content, Option.map_map]
  rfl

/-- A cursor is known to one store when it is to the other. -/
theorem Alike.canonicalCursorExists_eq (h : Alike m T B) (henv : env.Faultless)
    (cursor : EventCursor) :
    ∃ valid : Bool, Postgres.canonicalCursorExists env T cursor = .ok valid ∧
      (valid = true ↔ m.Knows cursor) ∧ (valid = true → cursor.blockNumber ≤ maxInt64) := by
  have hknows : m.Knows cursor ↔
      ∃ b, B.get? cursor.blockNumber = some b ∧ b.block.hash = cursor.blockHash := by
    simp only [Memory.Knows, h.get?, Option.map_eq_some_iff]
    constructor
    · rintro ⟨_, ⟨b, hb, rfl⟩, hhash⟩
      exact ⟨b, hb, hhash⟩
    · rintro ⟨b, hb, hhash⟩
      exact ⟨cloneBundle b, ⟨b, hb, rfl⟩, hhash⟩
  unfold Postgres.canonicalCursorExists
  by_cases hn : cursor.blockNumber > maxInt64
  · refine ⟨false, if_pos hn, ?_, fun h => absurd h Bool.false_ne_true⟩
    rw [hknows, Postgres.get?_eq_none_of_gt h.holds.mirrors hn]
    simp
  · refine ⟨T.blocks.any fun b => decide (b.number = (cursor.blockNumber.toNat : ℤ) ∧
      b.hash = cursor.blockHash.1), ?_, ?_, fun _ => UInt64.not_lt.1 hn⟩
    · rw [if_neg hn, postgresInt64_eq_ok (UInt64.not_lt.1 hn), ok_bind, call_of_faultless henv,
        ok_bind]
      rfl
    · rw [hknows, List.any_eq_true]
      constructor
      · rintro ⟨r, hr, hmatch⟩
        rw [decide_eq_true_iff] at hmatch
        obtain ⟨n, b, hb, rfl⟩ := (h.holds.mirrors.blocks.mem r).1 hr
        have hnumber : cursor.blockNumber = n :=
          (row_number_inj hmatch.1).symm.trans (h.holds.mirrors.storable.number hb)
        exact ⟨b, hnumber ▸ hb, Subtype.ext hmatch.2⟩
      · rintro ⟨b, hb, hhash⟩
        refine ⟨b.block.row, (h.holds.mirrors.blocks.mem _).2 ⟨_, b, hb, rfl⟩, decide_eq_true ⟨?_, ?_⟩⟩
        · rw [← h.holds.mirrors.storable.number hb]
          rfl
        · exact congrArg Subtype.val hhash

/-- What both stores answer where every cursor is known. -/
theorem Alike.page_eq (h : Alike m T B) (henv : env.Faultless)
    (ord : RangeOrder UInt64 BlockBundle) (hlimit : query.limit ≤ maxEventPageSize)
    (hknows : ∀ c ∈ query.before, m.Knows c)
    (hbefore : ∀ c ∈ query.before, c.blockNumber ≤ maxInt64) :
    (m.eventsByAddress ord none query).map EventPage.content =
      (Postgres.queryAddressEventPage env T query).map EventPage.content := by
  rw [Memory.eventsByAddress_of_knows h.invariant hlimit hknows,
    Postgres.queryAddressEventPage_eq h.holds.mirrors henv hlimit hbefore]
  refine congrArg Except.ok ?_
  rw [content_answer_page, content_answer_page, h.listed_content_eq]

/-- **Both answer alike for a page**, errors included. -/
theorem Alike.eventsByAddress_eq (h : Alike m T B) (henv : env.Faultless)
    (ord : RangeOrder UInt64 BlockBundle) (query : EventQuery) :
    (m.eventsByAddress ord none query).map EventPage.content =
      (Postgres.eventsByAddress env T none query).map EventPage.content := by
  by_cases hlimit : query.limit > maxEventPageSize
  · rw [Memory.eventsByAddress, Postgres.eventsByAddress]
    simp only [if_pos hlimit]
  · have hle := UInt32.not_lt.1 hlimit
    simp only [Postgres.eventsByAddress, if_neg hlimit]
    cases hbefore : query.before with
    | none => exact h.page_eq henv ord hle (by simp [hbefore]) (by simp [hbefore])
    | some cursor =>
      obtain ⟨valid, hexists, hvalid, hmax⟩ := h.canonicalCursorExists_eq henv cursor
      simp only [call_of_faultless henv, ok_bind, hexists]
      by_cases hv : valid = true
      · have hone : ∀ {p : EventCursor → Prop}, p cursor → ∀ c ∈ query.before, p c := by
          intro p hp c hc
          rw [hbefore] at hc
          cases hc
          exact hp
        have hpage := h.page_eq henv ord hle (hone (hvalid.1 hv)) (hone (hmax hv))
        rw [failIf_of_not (by simp [hv]), ok_bind, hpage]
        cases Postgres.queryAddressEventPage env T query <;> rfl
      · have hstale : m.eventsByAddress ord none query = _ := Memory.eventsByAddress_of_stale hle
          ⟨cursor, hbefore, fun hknows => hv (hvalid.2 hknows)⟩
        rw [hstale, failIf, if_pos (by simpa using hv)]
        rfl

end Pages

/-! ## Whole runs -/

/-- **Updates that both stores took**, from empty ones. -/
inductive TakenByBoth : Memory → Tables → Prop
  | new : TakenByBoth .new .empty
  | apply {m m' : Memory} {T T' : Tables} (h : TakenByBoth m T) {ctx : Context} {env : PostgresEnv}
      {ord ord' : RangeOrder UInt64 BlockBundle} {u : CanonicalUpdate}
      (hm : Memory.applyCanonicalUpdate ord ctx m u = (.ok (), m'))
      (hT : Postgres.applyCanonicalUpdate env ord' u T = (.ok (), T')) : TakenByBoth m' T'

/-- **After the same updates the stores are alike.** -/
theorem TakenByBoth.alike {m : Memory} {T : Tables} (h : TakenByBoth m T) : ∃ B, Alike m T B := by
  induction h with
  | new => exact ⟨∅, alike_new⟩
  | @apply m m' T T' _ ctx env ord ord' u hm hT ih =>
    obtain ⟨B, hB⟩ := ih
    rcases Memory.applyCanonicalUpdate_cases ord ctx m u with ⟨ha, heq⟩ | ⟨f, heq⟩
    · rcases Postgres.applyCanonicalUpdate_cases hB.holds env ord' u with
        ⟨-, T'', heq', hT'', hchain⟩ | ⟨f, heq'⟩
      · rw [hm, Prod.mk.injEq] at heq
        rw [hT, Prod.mk.injEq] at heq'
        rw [heq.2, heq'.2]
        exact ⟨_, hB.accepted ha hT'' hchain ord⟩
      · rw [hT] at heq'
        cases heq'
    · rw [hm] at heq
      cases heq

/-- **The two stores answer every query alike**, whatever order the map is
visited in and however the driver spells a number. -/
theorem TakenByBoth.answer_alike {m : Memory} {T : Tables} (h : TakenByBoth m T)
    {env : PostgresEnv} (henv : env.Faultless) (hwire : FaithfulWire env.wire)
    (ord : RangeOrder UInt64 BlockBundle) :
    m.canonicalTip ord none = Postgres.canonicalTip env T ∧
    (∀ number, m.canonicalHash none number = Postgres.canonicalHash env T number) ∧
    (∀ number, (m.blockByNumber none number).map BlockResult.content =
      (Postgres.blockByNumber env T number).map BlockResult.content) ∧
    (∀ hash, (m.transactionByHash ord none hash).map TransactionResult.content =
      (Postgres.transactionByHash env T hash).map TransactionResult.content) ∧
    ∀ query, (m.eventsByAddress ord none query).map EventPage.content =
      (Postgres.eventsByAddress env T none query).map EventPage.content := by
  obtain ⟨B, hB⟩ := h.alike
  exact ⟨hB.canonicalTip_eq henv ord, hB.canonicalHash_eq henv, hB.blockByNumber_eq henv hwire,
    hB.transactionByHash_eq henv hwire ord, hB.eventsByAddress_eq henv ord⟩

/-- A page of one event, from the tables with block 7. -/
theorem answer_alike_seven :
    (Postgres.eventsByAddress .plain Postgres.tablesSeven none ⟨default, 1, none⟩).map
      EventPage.content = .ok ⟨[twoEvents.events[1].content], some ⟨7, .spelling 7, 1⟩⟩ := by
  have htaken : TakenByBoth Memory.storedSeven Postgres.tablesSeven :=
    .apply .new (Prod.ext (by decide +kernel) rfl) (Prod.ext (by decide +kernel) rfl)
  obtain ⟨-, -, -, -, hevents⟩ := htaken.answer_alike PostgresEnv.faultless_plain
    faithfulWire_plain (ascending BlockBundle)
  rw [← hevents]
  decide +kernel

end EthIndexer
