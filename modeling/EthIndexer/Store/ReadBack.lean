import EthIndexer.Store.Answers
import EthIndexer.Store.Schema
/-!
# Rows are read back as they were written

Every value crosses a signed or decimal column on its way into the tables
and back. An update that the validator accepts passes the guards of the
conversions, and each of its rows decodes to the record it was queued for,
however the driver spells the `numeric` columns. So on tables that the
program wrote no query runs into `ErrInconsistentData`.

A query is first compared with the same query on a database whose calls
all succeed (`StopsOr`): a call that fails ends it with an error of its
own, which wraps none of the sentinels.
-/

namespace EthIndexer

open Go

/-! ## Queries that are stopped -/

section StopsOr

variable {α β : Type}

/-- `x` comes to what `y` does, unless an error from outside stops it. -/
def Go.StopsOr (x y : Go α) : Prop := x = y ∨ ∃ f, x = .error f ∧ f.causes = []

theorem Go.StopsOr.refl (x : Go α) : StopsOr x x := Or.inl rfl

/-- Two computations that differ by stopping early, in sequence. -/
theorem Go.StopsOr.bind {x y : Go α} {f g : α → Go β} (hx : StopsOr x y)
    (hf : ∀ a, StopsOr (f a) (g a)) : StopsOr (x >>= f) (y >>= g) := by
  rcases hx with rfl | ⟨e, rfl, he⟩
  · cases x with
    | error e => exact Or.inl rfl
    | ok a => exact hf a
  · exact Or.inr ⟨e, rfl, he⟩

/-- What can stop `x` is what can stop `y`, and the errors from outside. -/
theorem Go.StopsOr.failsAs {x y : Go α} {P : Fault → Prop} (h : StopsOr x y) (hy : FailsAs P y)
    (hP : ∀ f, f.causes = [] → P f) : FailsAs P x := by
  rcases h with rfl | ⟨e, rfl, he⟩
  · exact hy
  · exact failsAs_error (hP e he)

end StopsOr

/-- The database with the calls that fail answered. -/
def PostgresEnv.answering (env : PostgresEnv) : PostgresEnv := { env with fault := fun _ => none }

/-- No call on this database fails. -/
theorem PostgresEnv.faultless_answering (env : PostgresEnv) : env.answering.Faultless :=
  fun _ => rfl

namespace Postgres

variable (env : PostgresEnv) (T : Tables)

/-- A call on the database fails, or it is one that does not. -/
theorem stopsOr_call (c : PostgresCall) (context : String) :
    StopsOr (env.call c context) (env.answering.call c context) := by
  unfold PostgresEnv.call
  cases env.fault c with
  | none => exact Or.inl rfl
  | some text => exact Or.inr ⟨_, rfl, rfl⟩

/-- The tip is what an answering database has, or a call failed. -/
theorem stopsOr_canonicalTip : StopsOr (canonicalTip env T) (canonicalTip env.answering T) :=
  (stopsOr_call env _ _).bind fun _ => .refl _

theorem stopsOr_canonicalHash (number : UInt64) :
    StopsOr (canonicalHash env T number) (canonicalHash env.answering T number) := by
  unfold canonicalHash
  split
  · exact .refl _
  · exact (StopsOr.refl _).bind fun _ => (stopsOr_call env _ _).bind fun _ => .refl _

/-- A block, likewise: its row and its transactions are read by two
calls. -/
theorem stopsOr_blockByNumber (number : UInt64) :
    StopsOr (blockByNumber env T number) (blockByNumber env.answering T number) := by
  unfold blockByNumber
  split
  · exact .refl _
  · exact (StopsOr.refl _).bind fun _ => (stopsOr_call env _ _).bind fun _ => .refl _

/-- A transaction, likewise, with its events read by a second call. -/
theorem stopsOr_transactionByHash (hash : Hash) :
    StopsOr (transactionByHash env T hash) (transactionByHash env.answering T hash) := by
  refine (stopsOr_call env _ _).bind fun _ => (stopsOr_call env _ _).bind fun _ => ?_
  cases T.selectTransaction hash.1 with
  | none => exact .refl _
  | some found =>
    refine (StopsOr.refl _).bind fun transaction => StopsOr.bind ?_ fun events =>
      (stopsOr_call env _ _).bind fun _ => .refl _
    exact (stopsOr_call env _ _).bind fun _ => .refl _

theorem stopsOr_queryAddressEventPage (query : EventQuery) :
    StopsOr (queryAddressEventPage env T query) (queryAddressEventPage env.answering T query) := by
  unfold queryAddressEventPage
  split
  · exact .refl _
  · exact (StopsOr.refl _).bind fun _ => (StopsOr.refl _).bind fun _ =>
      (stopsOr_call env _ _).bind fun _ => .refl _

theorem stopsOr_canonicalCursorExists (cursor : EventCursor) :
    StopsOr (canonicalCursorExists env T cursor)
      (canonicalCursorExists env.answering T cursor) := by
  unfold canonicalCursorExists
  split
  · exact .refl _
  · exact (StopsOr.refl _).bind fun _ => (stopsOr_call env _ _).bind fun _ => .refl _

/-- The events of an address: a cursor is checked before the page is
read. -/
theorem stopsOr_eventsByAddress (ctx : Context) (query : EventQuery) :
    StopsOr (eventsByAddress env T ctx query) (eventsByAddress env.answering T ctx query) := by
  unfold eventsByAddress
  cases ctx with
  | some err => exact .refl _
  | none =>
    dsimp only
    split
    · exact .refl _
    · cases query.before with
      | none => exact stopsOr_queryAddressEventPage env T query
      | some cursor =>
        exact (stopsOr_call env _ _).bind fun _ =>
          (stopsOr_canonicalCursorExists env T cursor).bind fun _ => (StopsOr.refl _).bind fun _ =>
            (stopsOr_queryAddressEventPage env T query).bind fun _ =>
              (stopsOr_call env _ _).bind fun _ => .refl _

end Postgres

/-! ## Queries on tables that were written -/

/-- The call does not find the data inconsistent. -/
abbrev Go.Consistent {α : Type} (x : Go α) : Prop := FailsAs (fun f => ¬ f.Is .inconsistentData) x

/-- Stopping at a failed call is no sign of bad data. -/
theorem Go.StopsOr.consistent {α : Type} {x y : Go α} (h : StopsOr x y) (hy : y.Consistent) :
    x.Consistent :=
  h.failsAs hy fun f hf => by
    rw [Fault.Is, hf]
    exact List.not_mem_nil

namespace Postgres

variable {env : PostgresEnv} {T : Tables} {B : BundleMap}

/-- The tip's row is decoded. -/
theorem consistent_canonicalTip (h : Mirrors T B) : Consistent (canonicalTip env T) := by
  refine (stopsOr_canonicalTip env T).consistent ?_
  rw [canonicalTip, call_of_faultless env.faultless_answering, ok_bind]
  rcases selectTip_cases h with ⟨-, hsel⟩ | ⟨b, -, hsel⟩
  · rw [hsel]
    exact failsAs_ok _
  · rw [hsel, decodeTip_row]
    exact failsAs_ok _

/-- The hash of a stored block is decoded. -/
theorem consistent_canonicalHash (h : Mirrors T B) (number : UInt64) :
    Consistent (canonicalHash env T number) := by
  refine (stopsOr_canonicalHash env T number).consistent ?_
  rw [canonicalHash_eq h (env.faultless_answering _)]
  split
  · exact failsAs_error (by decide)
  · exact failsAs_ok _

/-- A stored block and the hashes of its transactions are decoded. -/
theorem consistent_blockByNumber (h : Mirrors T B) (hwire : FaithfulWire env.wire)
    (number : UInt64) : Consistent (blockByNumber env T number) := by
  refine (stopsOr_blockByNumber env T number).consistent ?_
  rw [blockByNumber_eq h env.faultless_answering hwire]
  split
  · exact failsAs_error (by decide)
  · exact failsAs_ok _

/-- A stored transaction and its events are decoded. -/
theorem consistent_transactionByHash (h : Mirrors T B) (hwire : FaithfulWire env.wire)
    (hash : Hash) : Consistent (transactionByHash env T hash) := by
  refine (stopsOr_transactionByHash env T hash).consistent ?_
  by_cases hmem : ∃ n b t, B.get? n = some b ∧ t ∈ b.transactions ∧ t.hash = hash
  · obtain ⟨n, b, t, hb, ht, rfl⟩ := hmem
    rw [transactionByHash_of_mem h env.faultless_answering hwire hb ht]
    exact failsAs_ok _
  · have hnone : T.selectTransaction hash.1 = none :=
      selectTransaction_of_not_mem h fun n b hb t ht hhash => hmem ⟨n, b, t, hb, ht, hhash⟩
    simp only [transactionByHash, call_of_faultless env.faultless_answering, ok_bind, hnone]
    exact failsAs_error (by decide)

/-- The check of a cursor is answered, and a cursor that exists fits the
column. -/
theorem canonicalCursorExists_cases (henv : env.Faultless) (cursor : EventCursor) :
    ∃ valid : Bool, canonicalCursorExists env T cursor = .ok valid ∧
      (valid = true → cursor.blockNumber ≤ maxInt64) := by
  unfold canonicalCursorExists
  split
  · exact ⟨false, rfl, nofun⟩
  · rename_i hn
    rw [postgresInt64_eq_ok (UInt64.not_lt.1 hn), ok_bind, call_of_faultless henv, ok_bind]
    exact ⟨_, rfl, fun _ => UInt64.not_lt.1 hn⟩

/-- A page is decoded, and so is its cursor. -/
theorem consistent_eventsByAddress (h : Mirrors T B) (ctx : Context) (query : EventQuery) :
    Consistent (eventsByAddress env T ctx query) := by
  refine (stopsOr_eventsByAddress env T ctx query).consistent ?_
  have henv := env.faultless_answering
  unfold eventsByAddress
  cases ctx with
  | some err =>
    refine failsAs_error ?_
    rw [Fault.Is, ContextError.causes_fault]
    exact List.not_mem_nil
  | none =>
    dsimp only
    split
    · exact failsAs_error (by rw [Fault.Is, Fault.causes_because]; decide)
    rename_i hlimit
    -- the page query converts the cursor's number, which fits once it is known
    have hpage : (∀ c ∈ query.before, c.blockNumber ≤ maxInt64) →
        Consistent (queryAddressEventPage env.answering T query) := by
      intro hbefore
      rw [queryAddressEventPage_eq h henv (UInt32.not_lt.1 hlimit) hbefore]
      exact failsAs_ok _
    cases hbefore : query.before with
    | none => exact hpage (by simp [hbefore])
    | some cursor =>
      obtain ⟨valid, hexists, hmax⟩ := canonicalCursorExists_cases (T := T) henv cursor
      simp only [call_of_faultless henv, ok_bind, hexists]
      cases valid with
      | false => exact failsAs_error (by decide)
      | true =>
        rw [failIf_of_not (by decide), ok_bind]
        refine FailsAs.bind (hpage ?_) fun _ => failsAs_ok _
        rw [hbefore]
        rintro _ ⟨⟩
        exact hmax rfl

/-- **Rows read back are the records written.** An accepted update does
not panic on any tables; its blocks, transactions and events are queued as
rows that decode to them, in any spelling of the numeric columns; and on
tables that calls of the program have left, no query finds the data
inconsistent. -/
theorem records_read_back {ord : RangeOrder UInt64 BlockBundle} {u : CanonicalUpdate}
    (hvalid : validatePostgresUpdate ord u = .ok ()) :
    (∀ env T, T.Bigint → NoPanic (commitUpdate env ord u T)) ∧
    (∀ b ∈ u.blocks,
      (∃ row, queueBlock b.block = .ok row ∧ ∀ baseFee : Numeric,
        baseFee.Spells row.baseFeePerGasWei → (row.scan baseFee).decode =
          .ok { b.block with indexedAt := microseconds b.block.indexedAt }) ∧
      (∀ t ∈ b.transactions, ∃ row, queueTransaction t = .ok row ∧
        ∀ value gasPrice maxFee maxPriorityFee : Numeric, value.Spells row.valueWei →
          gasPrice.Spells row.gasPriceWei → maxFee.Spells row.maxFeePerGasWei →
          maxPriorityFee.Spells row.maxPriorityFeePerGasWei →
          (row.scan b.block.hash.1 value gasPrice maxFee maxPriorityFee).decode.map
            Transaction.content = .ok t.content) ∧
      (∀ e ∈ b.events, ∃ row, queueEvent e = .ok row ∧
        (row.scan b.block.hash.1).decode.map Event.content = .ok e.content)) ∧
    (∀ T, Calls Tables.empty T → ∀ env : PostgresEnv, FaithfulWire env.wire →
      Consistent (canonicalTip env T) ∧
      (∀ number, Consistent (canonicalHash env T number)) ∧
      (∀ number, Consistent (blockByNumber env T number)) ∧
      (∀ hash, Consistent (transactionByHash env T hash)) ∧
      ∀ ctx query, Consistent (eventsByAddress env T ctx query)) := by
  have hu := validatePostgresUpdate_eq_ok_iff.1 hvalid
  refine ⟨fun env T hT => noPanic_commitUpdate hu hT, fun b hb => ?_, fun T hT env hwire => ?_⟩
  · have hwf := hu.wellFormed hb
    have hfits := hu.fits b hb
    have hcount := hwf.count_nonneg
    refine ⟨⟨_, queueBlock_eq_ok hfits.block hcount, fun baseFee hfee =>
      decode_scan_block hfits.block hcount hfee⟩, fun t ht => ?_, fun e he => ?_⟩
    · refine ⟨_, queueTransaction_eq_ok (hfits.transaction t ht),
        fun value gasPrice maxFee maxPriorityFee hvalue hprice hfee hpriority => ?_⟩
      rw [← hwf.blockHash_eq ht, decode_scan_transaction (hfits.transaction t ht) hvalue hprice hfee
        hpriority]
      exact congrArg Except.ok (content_cloneTransaction t)
    · obtain ⟨-, hnumber, hhash, htopics⟩ := hwf.event e he
      have hdecode : (e.row.scan e.blockHash.1).decode = .ok e.stored := decode_row_event htopics
      refine ⟨_, queueEvent_eq_ok (hfits.event e he) (hnumber ▸ hfits.block.number), ?_⟩
      rw [← hhash, hdecode]
      exact congrArg Except.ok (content_storedEvent e)
  · obtain ⟨⟨B, hB⟩, -⟩ := hT.holds holds_empty
    have hm := hB.mirrors
    exact ⟨consistent_canonicalTip hm, consistent_canonicalHash hm,
      consistent_blockByNumber hm hwire, consistent_transactionByHash hm hwire,
      consistent_eventsByAddress hm⟩

/-- Block 7, whose base fee is NULL. -/
theorem records_read_back_seven :
    NoPanic (commitUpdate .plain (ascending BlockBundle) putSeven Tables.empty) ∧
      ∃ row, queueBlock twoEvents.block = .ok row ∧
        (row.scan (Numeric.plain none)).decode = .ok twoEvents.block := by
  have hvalid : validatePostgresUpdate (ascending BlockBundle) putSeven = .ok () := by
    decide +kernel
  obtain ⟨hpanic, hrows, -⟩ := records_read_back hvalid
  obtain ⟨⟨row, hrow, hdecode⟩, -⟩ := hrows twoEvents List.mem_cons_self
  have hfee : row.baseFeePerGasWei = none := by
    cases hrow
    rfl
  refine ⟨hpanic _ _ nofun, row, hrow, hdecode _ ?_⟩
  rw [hfee]
  rfl

end Postgres

end EthIndexer
