import EthIndexer.Indexer.Model.Fetcher
import EthIndexer.Store.Memory
/-!
# The logs of a block

`mapEvents` accepts a list of logs when each of them belongs to the block
and no two share an index, and what it returns are their events in the
order of the indexes. An index is checked against `2 ^ 32` before it is
narrowed, so distinct logs keep distinct indexes, the order of the events
is total, and neither the order in which a provider lists the logs nor the
sort can be seen in the result.
-/

namespace EthIndexer

variable {blockNumber : UInt64} {blockHash : Hash} {positions : GoMap Hash UInt32}
variable {logs logs' : List Log} {events : List Event}

/-- **A log of the block**, whose transaction is where the log says. -/
structure Log.Belongs (blockNumber : UInt64) (blockHash : Hash) (positions : GoMap Hash UInt32)
    (log : Log) : Prop where
  kept : log.removed = false
  hash : log.blockHash = blockHash
  number : log.blockNumber = blockNumber
  index : log.index.toNat < 2 ^ 32
  txIndex : log.txIndex.toNat < 2 ^ 32
  topics : log.topics.length ≤ 4
  position : ∃ p, positions.get? log.txHash = some p ∧ p.toNat = log.txIndex.toNat

/-- The event of a log. -/
def Log.event (blockNumber : UInt64) (blockHash : Hash) (log : Log) : Event where
  blockNumber := blockNumber
  blockHash := blockHash
  transactionHash := log.txHash
  transactionIndex := log.txIndex.toUInt32
  logIndex := log.index.toUInt32
  address := log.address
  topics := some log.topics
  data := some log.data

/-- An index that fits is not changed by narrowing. -/
theorem toNat_toUInt32_of_lt {n : UInt64} (h : n.toNat < 2 ^ 32) : n.toUInt32.toNat = n.toNat := by
  rw [UInt64.toNat_toUInt32, Nat.mod_eq_of_lt h]

theorem Log.belongs_iff {log : Log} :
    log.Belongs blockNumber blockHash positions ↔
      ¬ log.removed = true ∧ ¬ (log.blockHash ≠ blockHash ∨ log.blockNumber ≠ blockNumber) ∧
      ¬ (log.index > 0xffffffff ∨ log.txIndex > 0xffffffff) ∧ ¬ log.topics.length > 4 ∧
      positions.get? log.txHash = some log.txIndex.toUInt32 := by
  have hsmall : ∀ n : UInt64, ¬ n > 0xffffffff ↔ n.toNat < 2 ^ 32 := by
    intro n
    rw [gt_iff_lt, UInt64.not_lt, UInt64.le_iff_toNat_le]
    exact Nat.lt_succ_iff.symm
  rw [not_or, not_not, not_not, not_or, hsmall, hsmall, not_lt, Bool.not_eq_true]
  constructor
  · intro h
    obtain ⟨p, hp, hnat⟩ := h.position
    have hp' : p = log.txIndex.toUInt32 :=
      UInt32.toNat_inj.1 (hnat.trans (toNat_toUInt32_of_lt h.txIndex).symm)
    exact ⟨h.kept, ⟨h.hash, h.number⟩, ⟨h.index, h.txIndex⟩, h.topics, hp.trans (by rw [hp'])⟩
  · rintro ⟨hkept, ⟨hhash, hnumber⟩, ⟨hindex, htx⟩, htopics, hp⟩
    exact ⟨hkept, hhash, hnumber, hindex, htx, htopics, _, hp, toNat_toUInt32_of_lt htx⟩

/-- One turn of the loop. -/
theorem mapLogs_cons_eq_ok_iff {seen : Finset UInt32} {log : Log} {rest : List Log} :
    mapLogs blockNumber blockHash positions seen (log :: rest) = .ok events ↔
      log.Belongs blockNumber blockHash positions ∧ log.index.toUInt32 ∉ seen ∧
      ∃ events', mapLogs blockNumber blockHash positions (insert log.index.toUInt32 seen) rest =
        .ok events' ∧ events = log.event blockNumber blockHash :: events' := by
  rw [Log.belongs_iff]
  simp only [mapLogs, Go.bind_eq_ok_iff, Go.failIf_eq_ok_iff, exists_const]
  cases hp : positions.get? log.txHash with
  | none => simp
  | some p =>
    simp only [Go.bind_eq_ok_iff, Go.failIf_eq_ok_iff, Go.pure_eq_ok_iff, exists_const,
      Option.some.injEq, ne_eq, not_not, Log.event]
    constructor
    · rintro ⟨h1, h2, h3, h4, rfl, hseen, events', hrest, rfl⟩
      exact ⟨⟨h1, h2, h3, h4, rfl⟩, hseen, events', hrest, rfl⟩
    · rintro ⟨⟨h1, h2, h3, h4, rfl⟩, hseen, events', hrest, rfl⟩
      exact ⟨h1, h2, h3, h4, rfl, hseen, events', hrest, rfl⟩

/-- **The loop over the logs.** -/
theorem mapLogs_eq_ok_iff {seen : Finset UInt32} :
    mapLogs blockNumber blockHash positions seen logs = .ok events ↔
      (∀ log ∈ logs, log.Belongs blockNumber blockHash positions) ∧
      (logs.map fun log => log.index.toUInt32).Nodup ∧
      (∀ log ∈ logs, log.index.toUInt32 ∉ seen) ∧
      events = logs.map (Log.event blockNumber blockHash) := by
  induction logs generalizing seen events with
  | nil => simp [mapLogs, eq_comm]
  | cons log rest ih =>
    rw [mapLogs_cons_eq_ok_iff]
    simp only [ih, List.forall_mem_cons, List.map_cons, List.nodup_cons, Finset.mem_insert, not_or]
    constructor
    · rintro ⟨hbelongs, hseen, _, ⟨hall, hnodup, hfresh, rfl⟩, rfl⟩
      refine ⟨⟨hbelongs, hall⟩, ⟨?_, hnodup⟩, ⟨hseen, fun l hl => (hfresh l hl).2⟩, rfl⟩
      rintro hmem
      obtain ⟨l, hl, heq⟩ := List.mem_map.1 hmem
      exact (hfresh l hl).1 heq
    · rintro ⟨⟨hbelongs, hall⟩, ⟨hnot, hnodup⟩, ⟨hseen, hfresh⟩, rfl⟩
      refine ⟨hbelongs, hseen, _, ⟨hall, hnodup, fun l hl => ⟨?_, hfresh l hl⟩, rfl⟩, rfl⟩
      exact fun heq => hnot (heq ▸ List.mem_map_of_mem hl)

/-- Among logs of the block the narrowed indexes are distinct when the
indexes are. -/
theorem nodup_toUInt32_iff (h : ∀ log ∈ logs, log.index.toNat < 2 ^ 32) :
    (logs.map fun log => log.index.toUInt32).Nodup ↔ (logs.map Log.index).Nodup := by
  have hmap : logs.map (fun log => log.index.toUInt32.toNat) =
      logs.map fun log => log.index.toNat :=
    List.map_congr_left fun log hlog => toNat_toUInt32_of_lt (h log hlog)
  have hnarrow : Function.Injective UInt32.toNat := fun _ _ => UInt32.toNat_inj.1
  have hwide : Function.Injective UInt64.toNat := fun _ _ => UInt64.toNat_inj.1
  rw [← List.nodup_map_iff hnarrow, ← List.nodup_map_iff hwide, List.map_map, List.map_map]
  exact iff_of_eq (congrArg List.Nodup hmap)

theorem mapEvents_eq_ok_iff :
    mapEvents blockNumber blockHash logs positions = .ok events ↔
      ((∀ log ∈ logs, log.Belongs blockNumber blockHash positions) ∧
        (logs.map Log.index).Nodup) ∧
      events = sortSlice (fun left right => decide (left.logIndex < right.logIndex))
        (logs.map (Log.event blockNumber blockHash)) := by
  simp only [mapEvents, Go.bind_eq_ok_iff, Go.pure_eq_ok_iff, mapLogs_eq_ok_iff]
  constructor
  · rintro ⟨_, ⟨hall, hnodup, -, rfl⟩, rfl⟩
    exact ⟨⟨hall, (nodup_toUInt32_iff fun log hlog => (hall log hlog).index).1 hnodup⟩, rfl⟩
  · rintro ⟨⟨hall, hnodup⟩, rfl⟩
    exact ⟨_, ⟨hall, (nodup_toUInt32_iff fun log hlog => (hall log hlog).index).2 hnodup,
      fun _ _ => Finset.notMem_empty _, rfl⟩, rfl⟩

/-- The events of logs that are accepted have distinct indexes. -/
theorem nodup_logIndex_event (h : ∀ log ∈ logs, log.Belongs blockNumber blockHash positions)
    (hnodup : (logs.map Log.index).Nodup) :
    ((logs.map (Log.event blockNumber blockHash)).map fun e => e.logIndex.toNat).Nodup := by
  have hnarrow := (nodup_toUInt32_iff fun log hlog => (h log hlog).index).2 hnodup
  have hmap := hnarrow.map (f := UInt32.toNat) fun _ _ => UInt32.toNat_inj.1
  rwa [List.map_map] at hmap ⊢

/-- The order of the logs does not matter. -/
theorem mapEvents_of_perm (hp : logs.Perm logs')
    (h : mapEvents blockNumber blockHash logs positions = .ok events) :
    mapEvents blockNumber blockHash logs' positions = .ok events := by
  obtain ⟨⟨hall, hnodup⟩, rfl⟩ := mapEvents_eq_ok_iff.1 h
  refine mapEvents_eq_ok_iff.2 ⟨⟨fun log hlog => hall log (hp.mem_iff.2 hlog),
    (hp.map _).nodup_iff.1 hnodup⟩, ?_⟩
  exact sortSlice_eq_of_perm Memory.comparesBy_byLogIndex (hp.map _)
    (nodup_logIndex_event hall hnodup)

/-- **The mapping of logs is exact, whatever their order.** It succeeds
when every log belongs to the block and no two share an index; the result
is one event for each log, in increasing order of the indexes; and logs in
another order give the same. -/
theorem mapEvents_exact (blockNumber : UInt64) (blockHash : Hash) (positions : GoMap Hash UInt32)
    (logs : List Log) :
    ((∃ events, mapEvents blockNumber blockHash logs positions = .ok events) ↔
      (∀ log ∈ logs, log.Belongs blockNumber blockHash positions) ∧
        (logs.map Log.index).Nodup) ∧
    (∀ events, mapEvents blockNumber blockHash logs positions = .ok events →
      events.Perm (logs.map (Log.event blockNumber blockHash)) ∧
        events.Pairwise fun left right => left.logIndex < right.logIndex) ∧
    (∀ logs', logs.Perm logs' → ∀ events,
      mapEvents blockNumber blockHash logs positions = .ok events ↔
        mapEvents blockNumber blockHash logs' positions = .ok events) := by
  refine ⟨?_, fun events h => ?_, fun logs' hp events => ?_⟩
  · simp only [mapEvents_eq_ok_iff, exists_and_left, exists_eq, and_true]
  · obtain ⟨⟨hall, hnodup⟩, rfl⟩ := mapEvents_eq_ok_iff.1 h
    have hsorted := pairwise_lt_sortSlice Memory.comparesBy_byLogIndex
      (nodup_logIndex_event hall hnodup)
    exact ⟨perm_sortSlice _ _, hsorted.imp UInt32.lt_iff_toNat_lt.2⟩
  · exact ⟨mapEvents_of_perm hp, mapEvents_of_perm hp.symm⟩

/-- A log of the first transaction of block 7. -/
def logAt (index : UInt64) : Log where
  address := default
  topics := [.spelling 6]
  data := [1, 2]
  blockNumber := 7
  blockHash := .spelling 7
  txHash := .spelling 8
  txIndex := 0
  index := index
  removed := false

/-- Two logs listed backwards. -/
theorem mapEvents_exact_backwards :
    mapEvents 7 (.spelling 7) [logAt 1, logAt 0] ((∅ : GoMap Hash UInt32).set (.spelling 8) 0) =
      .ok [(logAt 0).event 7 (.spelling 7), (logAt 1).event 7 (.spelling 7)] := by
  have hsame := (mapEvents_exact 7 (.spelling 7) ((∅ : GoMap Hash UInt32).set (.spelling 8) 0)
    [logAt 0, logAt 1]).2.2 [logAt 1, logAt 0] (.swap _ _ _)
  exact (hsame _).1 rfl

end EthIndexer
