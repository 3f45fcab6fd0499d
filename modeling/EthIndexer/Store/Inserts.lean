import EthIndexer.Common.Listing
import EthIndexer.Store.Canonical
import EthIndexer.Store.Rows
/-!
# Inserting bundles

The constraints of the migration, for rows of records that fit. Every
check on a column holds; what is left are the keys, the references, and
the two `bytea` columns that may not be NULL. For a well-formed bundle of
a block that is not there yet, the references hold as well
(`foldlM_bundleStatements_eq_ok_iff`), so a list of bundles is inserted
exactly when no hash clashes and no byte field is nil.
-/

namespace EthIndexer

open Go

theorem check_eq_ok_iff {constraints : List (String × Bool)} {u : Unit} :
    Go.check constraints = .ok u ↔ ∀ c ∈ constraints, c.2 = true := by
  unfold Go.check
  cases h : constraints.find? fun c => !c.2 with
  | none =>
    simp only [true_iff]
    intro c hc
    simpa using List.find?_eq_none.1 h c hc
  | some c =>
    simp only [reduceCtorEq, false_iff, not_forall]
    refine ⟨c, List.mem_of_find?_eq_some h, ?_⟩
    simpa using List.find?_some h

/-- A value of a `numeric` column passes its checks. -/
theorem numericChecks_of_isUint256 (column : String) {o : Option ℤ}
    (h : ∀ v ∈ o, IsUint256 v) : ∀ c ∈ numericChecks column o, c.2 = true := by
  cases o with
  | none => simp [numericChecks]
  | some v =>
    obtain ⟨h1, h2⟩ := h v rfl
    have hlt : v.natAbs < 10 ^ 78 := by
      have : (2 : ℕ) ^ 256 < 10 ^ 78 := by decide +kernel
      omega
    simp only [numericChecks, List.forall_mem_cons, Option.all_some, decide_eq_true_iff]
    exact ⟨hlt, h1, by simp⟩

/-! ## One row -/

section Row

variable {T T' : Tables}

/-- **When a block is inserted**: its number and its hash are new. -/
theorem execute_insertBlock_iff {b : Block} (h : b.Fits) (hcount : 0 ≤ b.transactionCount) :
    T.execute (.insertBlock b.row) = .ok T' ↔
      (∀ r ∈ T.blocks, r.number ≠ b.row.number) ∧ (∀ r ∈ T.blocks, r.hash ≠ b.row.hash) ∧
      T' = { T with blocks := T.blocks ++ [b.row] } := by
  have hfee := numericChecks_of_isUint256 "blocks base_fee_per_gas_wei" h.baseFeePerGas
  simp only [Tables.execute, bind_eq_ok_iff, check_eq_ok_iff, pure_eq_ok_iff, BlockRow.constraints,
    List.mem_append, or_imp, forall_and, List.forall_mem_cons, decide_eq_true_iff]
  constructor
  · rintro ⟨-, ⟨⟨-, -, -, -, -, -, -, hnumber, hhash, -⟩, -⟩, rfl⟩
    exact ⟨hnumber, hhash, rfl⟩
  · rintro ⟨hnumber, hhash, rfl⟩
    refine ⟨(), ⟨⟨Int.natCast_nonneg _, b.hash.2, b.parentHash.2, Int.natCast_nonneg _,
      Int.natCast_nonneg _, Int.natCast_nonneg _, hcount, hnumber, hhash, by simp⟩, hfee⟩, rfl⟩

/-- **When a transaction is inserted**: its input is not null, its hash and
its position are new, and its block is there. -/
theorem execute_insertTransaction_iff {t : Transaction} (h : t.Fits) :
    T.execute (.insertTransaction t.row) = .ok T' ↔
      t.input ≠ none ∧ (∀ r ∈ T.transactions, r.hash ≠ t.row.hash) ∧
      (∀ r ∈ T.transactions, ¬ (r.blockNumber = t.row.blockNumber ∧
        r.transactionIndex = t.row.transactionIndex)) ∧
      (∃ b ∈ T.blocks, b.number = t.row.blockNumber) ∧
      T' = { T with transactions := T.transactions ++ [t.row] } := by
  have huint := h.isUint256
  simp only [List.forall_mem_cons] at huint
  obtain ⟨h1, h2, h3, h4, -⟩ := huint
  have hrecipient : (t.row.recipientAddress.all fun a => decide (a.length = 20)) = true := by
    cases hr : t.recipient with
    | none => simp [Transaction.row, hr]
    | some a => simp [Transaction.row, hr, a.2]
  have htype : (0 : ℤ) ≤ t.row.transactionType ∧ t.row.transactionType ≤ 255 := by
    have := t.type.toNat_lt
    simp only [Transaction.row]
    omega
  simp only [Tables.execute, bind_eq_ok_iff, check_eq_ok_iff, pure_eq_ok_iff,
    TransactionRow.constraints, List.mem_append, or_imp, forall_and, List.forall_mem_cons,
    decide_eq_true_iff]
  constructor
  · rintro ⟨-, ⟨⟨⟨⟨⟨-, -, -, -, -, -, -, -, hinput, hhash, hposition, hblock, -⟩, -⟩, -⟩, -⟩, -⟩,
      rfl⟩
    exact ⟨Option.isSome_iff_ne_none.1 hinput, hhash, hposition, hblock, rfl⟩
  · rintro ⟨hinput, hhash, hposition, hblock, rfl⟩
    exact ⟨(), ⟨⟨⟨⟨⟨t.hash.2, Int.natCast_nonneg _, htype, Int.natCast_nonneg _, t.sender.2,
      hrecipient, Option.isSome_iff_ne_none.2 h.value, Int.natCast_nonneg _,
      Option.isSome_iff_ne_none.2 hinput, hhash, hposition, hblock, by simp⟩,
      numericChecks_of_isUint256 _ h1⟩, numericChecks_of_isUint256 _ h2⟩,
      numericChecks_of_isUint256 _ h3⟩, numericChecks_of_isUint256 _ h4⟩, rfl⟩

/-- **When an event is inserted**: its data is not null, its position is
new, and its block and its transaction are there. -/
theorem execute_insertEvent_iff {e : Event} (h : e.topics.elems.length ≤ 4) :
    T.execute (.insertEvent e.row) = .ok T' ↔
      e.data ≠ none ∧ (∀ r ∈ T.eventLogs, ¬ (r.blockNumber = e.row.blockNumber ∧
        r.logIndex = e.row.logIndex)) ∧
      (∃ b ∈ T.blocks, b.number = e.row.blockNumber) ∧
      (∃ t ∈ T.transactions, t.hash = e.row.transactionHash) ∧
      T' = { T with eventLogs := T.eventLogs ++ [e.row] } := by
  simp only [Tables.execute, bind_eq_ok_iff, check_eq_ok_iff, pure_eq_ok_iff,
    EventLogRow.constraints, List.forall_mem_cons, decide_eq_true_iff]
  constructor
  · rintro ⟨-, ⟨-, -, -, -, hdata, hposition, hblock, htransaction, -⟩, rfl⟩
    exact ⟨Option.isSome_iff_ne_none.1 hdata, hposition, hblock, htransaction, rfl⟩
  · rintro ⟨hdata, hposition, hblock, htransaction, rfl⟩
    refine ⟨(), ⟨Int.natCast_nonneg _, Int.natCast_nonneg _, e.address.2, ?_,
      Option.isSome_iff_ne_none.2 hdata, hposition, hblock, htransaction, by simp⟩, rfl⟩
    simpa [Event.row] using h

end Row

/-! ## The rows of a bundle -/

/-- The inserts of a bundle that fits. -/
def bundleStatements (b : BlockBundle) : List Statement :=
  .insertBlock b.block.row :: (b.transactions.map (fun t => .insertTransaction t.row) ++
    b.events.map fun e => .insertEvent e.row)

/-- The rows of a bundle appended. -/
def Tables.addBundle (T : Tables) (b : BlockBundle) : Tables where
  blocks := T.blocks ++ [b.block.row]
  transactions := T.transactions ++ b.transactions.map Transaction.row
  eventLogs := T.eventLogs ++ b.events.map Event.row
  syncState := T.syncState

/-- The byte fields that may not be NULL are set. -/
structure BlockBundle.NonNil (b : BlockBundle) : Prop where
  input : ∀ t ∈ b.transactions, t.input ≠ none
  data : ∀ e ∈ b.events, e.data ≠ none

/-- A bundle that fits is queued as its statements. -/
theorem queueBundle_eq {b : BlockBundle} (hb : WellFormed b) (h : b.Fits) :
    Postgres.queueBundle b = (bundleStatements b).map .ok := by
  have hcount := hb.count_nonneg
  have htransactions : b.transactions.map (fun t => (do
      return .insertTransaction (← queueTransaction t) : Go Statement)) =
        (b.transactions.map fun t => .insertTransaction t.row).map .ok := by
    rw [List.map_map]
    refine List.map_congr_left fun t ht => ?_
    rw [queueTransaction_eq_ok (h.transaction t ht)]
    rfl
  have hevents : b.events.map (fun e => (do return .insertEvent (← queueEvent e) : Go Statement)) =
      (b.events.map fun e => .insertEvent e.row).map .ok := by
    rw [List.map_map]
    refine List.map_congr_left fun e he => ?_
    rw [queueEvent_eq_ok (h.event e he) ((hb.event e he).2.1 ▸ h.block.number)]
    rfl
  rw [Postgres.queueBundle, bundleStatements, List.map_cons, List.map_append, htransactions, hevents,
    queueBlock_eq_ok h.block hcount]
  rfl

section Bundle

variable {T T' : Tables}

theorem foldlM_cons_eq_ok_iff {s : Statement} {l : List Statement} :
    (s :: l).foldlM Tables.execute T = .ok T' ↔
      ∃ T₁, T.execute s = .ok T₁ ∧ l.foldlM Tables.execute T₁ = .ok T' := by
  rw [List.foldlM_cons, bind_eq_ok_iff]

theorem foldlM_append_eq_ok_iff {l l' : List Statement} :
    (l ++ l').foldlM Tables.execute T = .ok T' ↔
      ∃ T₁, l.foldlM Tables.execute T = .ok T₁ ∧ l'.foldlM Tables.execute T₁ = .ok T' := by
  rw [List.foldlM_append, bind_eq_ok_iff]

/-- **The transactions of a block that is there** go in one after the
other, when no hash is taken. -/
theorem foldlM_insertTransactions_iff (ts : List Transaction) (hfits : ∀ t ∈ ts, t.Fits)
    (hblock : ∀ t ∈ ts, ∃ b ∈ T.blocks, b.number = t.row.blockNumber)
    (hnew : ∀ t ∈ ts, ∀ r ∈ T.transactions, ¬ (r.blockNumber = t.row.blockNumber ∧
      r.transactionIndex = t.row.transactionIndex))
    (hindex : (ts.map Transaction.index).Nodup) (hhash : (ts.map Transaction.hash).Nodup) :
    (ts.map fun t => Statement.insertTransaction t.row).foldlM Tables.execute T = .ok T' ↔
      (∀ t ∈ ts, t.input ≠ none) ∧ (∀ t ∈ ts, ∀ r ∈ T.transactions, r.hash ≠ t.row.hash) ∧
      T' = { T with transactions := T.transactions ++ ts.map Transaction.row } := by
  induction ts generalizing T with
  | nil =>
    rw [List.map_nil, List.foldlM_nil, pure_eq_ok_iff]
    simp [eq_comm]
  | cons t ts ih =>
    simp only [List.forall_mem_cons] at hfits hblock hnew ⊢
    rw [List.map_cons, List.nodup_cons] at hindex hhash
    have hnew' : ∀ u ∈ ts, ∀ r ∈ T.transactions ++ [t.row],
        ¬ (r.blockNumber = u.row.blockNumber ∧ r.transactionIndex = u.row.transactionIndex) := by
      intro u hu r hr
      rcases List.mem_append.1 hr with hr | hr
      · exact hnew.2 u hu r hr
      · rintro ⟨-, h⟩
        rw [List.mem_singleton.1 hr] at h
        have heq : t.index = u.index := UInt32.toNat_inj.1 (Int.ofNat.inj h)
        exact hindex.1 (heq ▸ List.mem_map_of_mem hu)
    have hne : ∀ u ∈ ts, t.row.hash ≠ u.row.hash := fun u hu h =>
      hhash.1 (List.mem_map.2 ⟨u, hu, Subtype.ext h.symm⟩)
    have hrest := ih (T := { T with transactions := T.transactions ++ [t.row] }) hfits.2 hblock.2
      hnew' hindex.2 hhash.2
    rw [List.map_cons, foldlM_cons_eq_ok_iff]
    constructor
    · rintro ⟨T₁, h1, h2⟩
      obtain ⟨hinput, hfresh, -, -, rfl⟩ := (execute_insertTransaction_iff hfits.1).1 h1
      obtain ⟨hinput', hfresh', rfl⟩ := hrest.1 h2
      refine ⟨⟨hinput, hinput'⟩, ⟨hfresh, fun u hu r hr =>
        hfresh' u hu r (List.mem_append_left _ hr)⟩, ?_⟩
      simp
    · rintro ⟨⟨hinput, hinput'⟩, ⟨hfresh, hfresh'⟩, rfl⟩
      refine ⟨_, (execute_insertTransaction_iff hfits.1).2
        ⟨hinput, hfresh, hnew.1, hblock.1, rfl⟩, hrest.2 ⟨hinput', fun u hu r hr => ?_, by simp⟩⟩
      rcases List.mem_append.1 hr with hr | hr
      · exact hfresh' u hu r hr
      · rw [List.mem_singleton.1 hr]
        exact hne u hu

/-- **And so do its events**, when its transactions are there. -/
theorem foldlM_insertEvents_iff (es : List Event) (htopics : ∀ e ∈ es, e.topics.elems.length ≤ 4)
    (hblock : ∀ e ∈ es, ∃ b ∈ T.blocks, b.number = e.row.blockNumber)
    (htransaction : ∀ e ∈ es, ∃ t ∈ T.transactions, t.hash = e.row.transactionHash)
    (hnew : ∀ e ∈ es, ∀ r ∈ T.eventLogs, ¬ (r.blockNumber = e.row.blockNumber ∧
      r.logIndex = e.row.logIndex))
    (hlog : (es.map Event.logIndex).Nodup) :
    (es.map fun e => Statement.insertEvent e.row).foldlM Tables.execute T = .ok T' ↔
      (∀ e ∈ es, e.data ≠ none) ∧
      T' = { T with eventLogs := T.eventLogs ++ es.map Event.row } := by
  induction es generalizing T with
  | nil =>
    rw [List.map_nil, List.foldlM_nil, pure_eq_ok_iff]
    simp [eq_comm]
  | cons e es ih =>
    simp only [List.forall_mem_cons] at htopics hblock htransaction hnew ⊢
    rw [List.map_cons, List.nodup_cons] at hlog
    have hnew' : ∀ f ∈ es, ∀ r ∈ T.eventLogs ++ [e.row],
        ¬ (r.blockNumber = f.row.blockNumber ∧ r.logIndex = f.row.logIndex) := by
      intro f hf r hr
      rcases List.mem_append.1 hr with hr | hr
      · exact hnew.2 f hf r hr
      · rintro ⟨-, h⟩
        rw [List.mem_singleton.1 hr] at h
        have heq : e.logIndex = f.logIndex := UInt32.toNat_inj.1 (Int.ofNat.inj h)
        exact hlog.1 (heq ▸ List.mem_map_of_mem hf)
    have hrest := ih (T := { T with eventLogs := T.eventLogs ++ [e.row] }) htopics.2 hblock.2
      htransaction.2 hnew' hlog.2
    rw [List.map_cons, foldlM_cons_eq_ok_iff]
    constructor
    · rintro ⟨T₁, h1, h2⟩
      obtain ⟨hdata, -, -, -, rfl⟩ := (execute_insertEvent_iff htopics.1).1 h1
      obtain ⟨hdata', rfl⟩ := hrest.1 h2
      exact ⟨⟨hdata, hdata'⟩, by simp⟩
    · rintro ⟨⟨hdata, hdata'⟩, rfl⟩
      exact ⟨_, (execute_insertEvent_iff htopics.1).2 ⟨hdata, hnew.1, hblock.1, htransaction.1, rfl⟩,
        hrest.2 ⟨hdata', by simp⟩⟩

end Bundle

end EthIndexer
