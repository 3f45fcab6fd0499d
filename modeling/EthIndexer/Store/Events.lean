import EthIndexer.Common.Paging
import EthIndexer.Store.Memory
/-!
# The events of an address

An event is at a block and a log index, and no two events of a canonical
window share both. So the events of an address have one order, newest
first (`Memory.listed`), whatever order the map was visited in, and
`EventsByAddress` answers with a page of that listing
(`Memory.eventsByAddress_eq`).
-/

namespace EthIndexer

/-! ## Positions -/

/-- A block number and a log index as one number. -/
@[irreducible] def eventPosition (blockNumber : UInt64) (logIndex : UInt32) : ℕ :=
  blockNumber.toNat * 2 ^ 32 + logIndex.toNat

def Event.position (e : Event) : ℕ := eventPosition e.blockNumber e.logIndex

def EventCursor.position (c : EventCursor) : ℕ := eventPosition c.blockNumber c.logIndex

/-- Positions are in the order of block numbers, and of log indexes within
a block. -/
theorem eventPosition_lt_iff {n n' : UInt64} {i i' : UInt32} :
    eventPosition n i < eventPosition n' i' ↔ n < n' ∨ (n = n' ∧ i < i') := by
  have hi := i.toNat_lt
  have hi' := i'.toNat_lt
  rw [UInt64.lt_iff_toNat_lt, UInt32.lt_iff_toNat_lt, ← UInt64.toNat_inj]
  unfold eventPosition
  omega

/-- Positions are compared by block, and within a block by log. -/
theorem Event.position_lt_iff {e e' : Event} : e.position < e'.position ↔
    e.blockNumber < e'.blockNumber ∨ (e.blockNumber = e'.blockNumber ∧ e.logIndex < e'.logIndex) :=
  eventPosition_lt_iff

/-- A position names its block and its log. -/
theorem eventPosition_inj {n n' : UInt64} {i i' : UInt32} :
    eventPosition n i = eventPosition n' i' ↔ n = n' ∧ i = i' := by
  have hi := i.toNat_lt
  have hi' := i'.toNat_lt
  rw [← UInt64.toNat_inj, ← UInt32.toNat_inj]
  unfold eventPosition
  omega

/-- A lower position is in no higher block. -/
theorem blockNumber_le_of_position_le {n n' : UInt64} {i i' : UInt32}
    (h : eventPosition n i ≤ eventPosition n' i') : n ≤ n' := by
  have hi := i.toNat_lt
  have hi' := i'.toNat_lt
  rw [UInt64.le_iff_toNat_le]
  unfold eventPosition at h
  omega

namespace Memory

/-- What the store takes to be before a cursor. -/
theorem eventBeforeCursor_iff {e : Event} {cursor : Option EventCursor} :
    eventBeforeCursor e cursor = true ↔
      ∀ k ∈ cursor.map EventCursor.position, e.position < k := by
  cases cursor with
  | none => simp [eventBeforeCursor]
  | some c =>
    have hlt : e.position < c.position ↔ e.blockNumber < c.blockNumber ∨
        (e.blockNumber = c.blockNumber ∧ e.logIndex < c.logIndex) := eventPosition_lt_iff
    simp only [Option.map_some, Option.mem_some_iff, forall_eq', hlt, eventBeforeCursor]
    split
    · rename_i hne
      simp [hne]
    · rename_i heq
      rw [ne_eq, not_not] at heq
      simp [heq, UInt64.lt_irrefl]

/-- The comparison of the source is by position, from the highest. -/
theorem comparesBy_newestFirst :
    ComparesBy newestFirst fun e : Event => OrderDual.toDual e.position := by
  intro a b
  rw [OrderDual.toDual_lt_toDual, Event.position_lt_iff, newestFirst]
  split
  · rename_i hne
    simp [Ne.symm hne]
  · rename_i heq
    rw [ne_eq, not_not] at heq
    simp [heq, UInt64.lt_irrefl]

/-- Newest first is descending in the position. -/
theorem pairwise_toDual_iff {l : List Event} :
    (l.Pairwise fun a b => OrderDual.toDual a.position < OrderDual.toDual b.position) ↔
      Paging.Descending Event.position l := Iff.rfl

variable {m : Memory} {ord : RangeOrder UInt64 BlockBundle}

/-- The event is in a stored block. -/
def Holds (m : Memory) (e : Event) : Prop := ∃ n b, m.bundles.get? n = some b ∧ e ∈ b.events

/-! ## The stored events -/

theorem Invariant.cloneEvent_eq (hm : m.Invariant) {e : Event} (he : m.Holds e) :
    cloneEvent e = e := by
  obtain ⟨n, b, hb, he⟩ := he
  have hclone : b.events.map cloneEvent = b.events := congrArg BlockBundle.events (hm.cloned hb)
  exact List.map_inj_left.1 (hclone.trans (List.map_id b.events).symm) e he

/-- A stored event is in the block it names. -/
theorem Invariant.get?_of_holds (hm : m.Invariant) {e : Event} (he : m.Holds e) :
    ∃ b, m.bundles.get? e.blockNumber = some b ∧ e ∈ b.events ∧ e.blockHash = b.block.hash := by
  obtain ⟨n, b, hb, he⟩ := he
  obtain ⟨-, hnumber, hhash, -⟩ := (hm.canonical.wellFormed hb).event e he
  rw [hm.canonical.number hb] at hnumber
  exact ⟨b, hnumber ▸ hb, he, hhash⟩

/-- **No two stored events are at one position.** -/
theorem Invariant.eq_of_position_eq (hm : m.Invariant) {e e' : Event} (he : m.Holds e)
    (he' : m.Holds e') (h : e.position = e'.position) : e = e' := by
  obtain ⟨hnumber, hindex⟩ := eventPosition_inj.1 h
  obtain ⟨b, hb, hmem, -⟩ := hm.get?_of_holds he
  obtain ⟨b', hb', hmem', -⟩ := hm.get?_of_holds he'
  rw [hnumber, hb'] at hb
  cases hb
  exact List.inj_on_of_nodup_map (hm.canonical.wellFormed hb').logIndex_nodup hmem hmem' hindex

theorem mem_selectedEvents (hm : m.Invariant) {query : EventQuery} {e : Event} :
    e ∈ selectedEvents ord m query ↔
      m.Holds e ∧ e.address = query.address ∧ eventBeforeCursor e query.before = true := by
  simp only [selectedEvents, List.mem_flatMap, List.mem_map, List.mem_filter, Bool.and_eq_true,
    decide_eq_true_iff]
  constructor
  · rintro ⟨n, hn, e, ⟨he, haddress, hbefore⟩, rfl⟩
    obtain ⟨b, hb⟩ := (ord.mem_keys_iff_get? _ _).1 hn
    rw [GoMap.get_of_get? hb] at he
    have hholds : m.Holds e := ⟨n, b, hb, he⟩
    rw [hm.cloneEvent_eq hholds]
    exact ⟨hholds, haddress, hbefore⟩
  · rintro ⟨hholds, haddress, hbefore⟩
    obtain ⟨n, b, hb, he⟩ := id hholds
    refine ⟨n, (ord.mem_keys_iff_get? _ _).2 ⟨b, hb⟩, e, ⟨?_, haddress, hbefore⟩,
      hm.cloneEvent_eq hholds⟩
    rwa [GoMap.get_of_get? hb]

theorem nodup_selectedEvents (hm : m.Invariant) (query : EventQuery) :
    (selectedEvents ord m query).Nodup := by
  rw [selectedEvents, List.nodup_flatMap]
  constructor
  · intro n hn
    obtain ⟨b, hb⟩ := (ord.mem_keys_iff_get? _ _).1 hn
    rw [GoMap.get_of_get? hb]
    refine List.Nodup.of_map Event.logIndex ?_
    rw [List.map_map]
    exact (hm.canonical.wellFormed hb).logIndex_nodup.sublist (List.filter_sublist.map _)
  · -- events of two blocks name different blocks
    have hnumber : ∀ n ∈ ord.keys m.bundles, ∀ e ∈ ((m.bundles.get n).events.filter fun e =>
        decide (e.address = query.address) && eventBeforeCursor e query.before).map cloneEvent,
        e.blockNumber = n := by
      intro n hn e he
      obtain ⟨b, hb⟩ := (ord.mem_keys_iff_get? _ _).1 hn
      rw [GoMap.get_of_get? hb] at he
      obtain ⟨e', he', rfl⟩ := List.mem_map.1 he
      obtain ⟨-, heq, -⟩ := (hm.canonical.wellFormed hb).event e' (List.mem_filter.1 he').1
      exact heq.trans (hm.canonical.number hb)
    refine (ord.nodup m.bundles).imp_of_mem fun {n k} hn hk hne e he he' => hne ?_
    rw [← hnumber n hn e he, hnumber k hk e he']

/-! ## The listing -/

/-- **The events of an address**, newest first. -/
def listed (m : Memory) (address : Address) : List Event :=
  sortSlice newestFirst (selectedEvents (ascending BlockBundle) m
    { address := address, limit := 0, before := none })

/-- Sorted, the selection goes from the highest position down. -/
theorem descending_sortSlice (hm : m.Invariant) (query : EventQuery) :
    Paging.Descending Event.position (sortSlice newestFirst (selectedEvents ord m query)) := by
  refine pairwise_toDual_iff.1 (pairwise_lt_sortSlice comparesBy_newestFirst ?_)
  refine (nodup_selectedEvents hm query).map_on fun e he e' he' h => ?_
  exact hm.eq_of_position_eq ((mem_selectedEvents hm).1 he).1 ((mem_selectedEvents hm).1 he').1
    (OrderDual.toDual_inj.1 h)

/-- The listing has the stored events of the address. -/
theorem mem_listed (hm : m.Invariant) {address : Address} {e : Event} :
    e ∈ m.listed address ↔ m.Holds e ∧ e.address = address := by
  rw [listed, mem_sortSlice, mem_selectedEvents hm]
  simp [eventBeforeCursor]

theorem descending_listed (hm : m.Invariant) (address : Address) :
    Paging.Descending Event.position (m.listed address) := descending_sortSlice hm _

/-- **What a query selects is the listing below its cursor.** -/
theorem sortSlice_selectedEvents (hm : m.Invariant) (query : EventQuery) :
    sortSlice newestFirst (selectedEvents ord m query) =
      Paging.below Event.position (query.before.map EventCursor.position)
        (m.listed query.address) := by
  refine (descending_sortSlice hm query).eq_of_mem_iff
    ((descending_listed hm query.address).below _) fun e => ?_
  rw [mem_sortSlice, mem_selectedEvents hm, Paging.mem_below, mem_listed hm, eventBeforeCursor_iff,
    and_assoc]

/-- A page as the answer to a query. -/
def answer (p : List Event × Option Event) : EventPage where
  events := p.1
  nextCursor := p.2.map cursorOf

/-- The block a cursor names is stored. -/
def Knows (m : Memory) (cursor : EventCursor) : Prop :=
  ∃ b, m.bundles.get? cursor.blockNumber = some b ∧ b.block.hash = cursor.blockHash

/-- What the store takes to be a stale cursor. -/
theorem stale_iff {before : Option EventCursor} :
    (before.any fun cursor => (m.bundles.get? cursor.blockNumber).all fun bundle =>
      decide (bundle.block.hash ≠ cursor.blockHash)) = true ↔ ∃ c ∈ before, ¬ m.Knows c := by
  cases before with
  | none => simp
  | some c => cases hget : m.bundles.get? c.blockNumber <;> simp [Knows, hget]

/-- A limit above the maximum is refused. -/
theorem eventsByAddress_of_limit_gt {query : EventQuery} (h : query.limit > maxEventPageSize) :
    ∃ f : Fault, m.eventsByAddress ord none query = .error f ∧ f.causes = [.invalidQuery] :=
  ⟨_, if_pos h, rfl⟩

/-- So is a cursor whose block is not stored any more. -/
theorem eventsByAddress_of_stale {query : EventQuery} (hlimit : query.limit ≤ maxEventPageSize)
    (h : ∃ c ∈ query.before, ¬ m.Knows c) :
    m.eventsByAddress ord none query = .error (.ofSentinel .staleCursor) := by
  simp only [eventsByAddress, if_neg (UInt32.not_lt.2 hlimit), gt_iff_lt, if_pos (stale_iff.2 h)]

/-- **The answer to a query** is a page of the listing below the cursor. -/
theorem eventsByAddress_of_knows (hm : m.Invariant) {query : EventQuery}
    (hlimit : query.limit ≤ maxEventPageSize) (h : ∀ c ∈ query.before, m.Knows c) :
    m.eventsByAddress ord none query =
      .ok (answer (Paging.page query.limit.toNat (Paging.below Event.position
        (query.before.map EventCursor.position) (m.listed query.address)))) := by
  have hstale : ¬ (query.before.any fun cursor =>
      (m.bundles.get? cursor.blockNumber).all fun bundle =>
        decide (bundle.block.hash ≠ cursor.blockHash)) = true := by
    rw [stale_iff]
    rintro ⟨c, hc, hnot⟩
    exact hnot (h c hc)
  simp only [eventsByAddress, if_neg (UInt32.not_lt.2 hlimit), gt_iff_lt, if_neg hstale,
    sortSlice_selectedEvents hm]
  generalize Paging.below Event.position _ _ = events
  unfold Paging.page answer
  split
  · -- the two cases the code answers before it looks at the page
    rename_i hempty
    rcases hempty with hzero | hzero
    · rw [hzero]
      exact congrArg (fun p => Except.ok (answer p)) (Paging.page_zero events).symm
    · rw [List.eq_nil_of_length_eq_zero hzero]
      rfl
  · split <;> rfl

/-- **What a query is answered with**: it is refused for its limit or for
its cursor, and else it gets its page of the listing. -/
theorem eventsByAddress_eq_ok_iff (hm : m.Invariant) {query : EventQuery} {page : EventPage} :
    m.eventsByAddress ord none query = .ok page ↔
      query.limit ≤ maxEventPageSize ∧ (∀ c ∈ query.before, m.Knows c) ∧
      page = answer (Paging.page query.limit.toNat (Paging.below Event.position
        (query.before.map EventCursor.position) (m.listed query.address))) := by
  by_cases hlimit : query.limit ≤ maxEventPageSize
  · by_cases hknows : ∀ c ∈ query.before, m.Knows c
    · rw [eventsByAddress_of_knows hm hlimit hknows, Except.ok.injEq, eq_comm]
      exact ⟨fun h => ⟨hlimit, hknows, h⟩, fun h => h.2.2⟩
    · rw [eventsByAddress_of_stale hlimit (by push Not at hknows; exact hknows)]
      exact iff_of_false (nomatch ·) fun h => hknows h.2.1
  · have hrefused : ∃ f : Fault, m.eventsByAddress ord none query = .error f ∧ _ :=
      eventsByAddress_of_limit_gt (UInt32.not_le.1 hlimit)
    obtain ⟨f, hf, -⟩ := hrefused
    rw [hf]
    exact iff_of_false (nomatch ·) fun h => hlimit h.1

end Memory

end EthIndexer
