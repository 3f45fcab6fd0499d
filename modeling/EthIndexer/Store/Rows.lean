import EthIndexer.Store.Model.Postgres
import EthIndexer.Store.Memory
import EthIndexer.Store.Numeric
/-!
# Records as rows

A record that passes the range checks is written as the row of its values
and read back as it was, up to the microsecond and to nil slices. The
driver may spell a `numeric` as any integer times a power of ten; decoding
finds the value again.
-/

namespace EthIndexer

open Go

/-! ## Records that fit -/

/-- **A block inside the ranges of its columns.** -/
structure Block.Fits (b : Block) : Prop where
  number : b.number ≤ maxInt64
  timestamp : b.timestamp ≤ maxInt64
  gasLimit : b.gasLimit ≤ maxInt64
  gasUsed : b.gasUsed ≤ maxInt64
  transactionCount : b.transactionCount ≤ maxInt32.toNat
  baseFeePerGas : ∀ v ∈ b.baseFeePerGas, IsUint256 v

structure Transaction.Fits (t : Transaction) : Prop where
  blockNumber : t.blockNumber ≤ maxInt64
  nonce : t.nonce ≤ maxInt64
  gasLimit : t.gasLimit ≤ maxInt64
  index : t.index ≤ maxInt32
  value : t.value ≠ none
  isUint256 : ∀ o ∈ [t.value, t.gasPrice, t.maxFeePerGas, t.maxPriorityFeePerGas],
    ∀ v ∈ o, IsUint256 v

structure Event.Fits (e : Event) : Prop where
  transactionIndex : e.transactionIndex ≤ maxInt32
  logIndex : e.logIndex ≤ maxInt32

structure BlockBundle.Fits (b : BlockBundle) : Prop where
  block : b.block.Fits
  transaction : ∀ t ∈ b.transactions, t.Fits
  event : ∀ e ∈ b.events, e.Fits

theorem each_eq_ok_iff {α : Type} {f : α → Go Unit} {l : List α} {u : Unit} :
    Go.each f l = .ok u ↔ ∀ a ∈ l, f a = .ok () := by
  induction l with
  | nil => simp [Go.each]
  | cons a l ih =>
    rw [Go.each, bind_eq_ok_iff, List.forall_mem_cons, ← ih]
    exact ⟨fun ⟨_, h1, h2⟩ => ⟨h1, h2⟩, fun ⟨h1, h2⟩ => ⟨(), h1, h2⟩⟩

/-- An amount is given where it has to be, and fits in 256 bits. -/
theorem validateUint256_eq_ok_iff {name : String} {value : Option ℤ} {required : Bool} :
    validateUint256 name value required = .ok () ↔
      (required = true → value ≠ none) ∧ ∀ v ∈ value, IsUint256 v := by
  cases value with
  | none => simp [validateUint256, failIf_eq_ok_iff]
  | some v => simp [validateUint256, failIf_eq_ok_iff, ← not_outside_uint256_iff]

/-- The check of a block is its fitting the columns. -/
theorem validatePostgresBlock_eq_ok_iff {b : Block} :
    validatePostgresBlock b = .ok () ↔ b.Fits := by
  simp only [validatePostgresBlock, bind_eq_ok_iff, failIf_eq_ok_iff, exists_const, not_or,
    gt_iff_lt, UInt64.not_lt, not_lt, validateUint256_eq_ok_iff]
  constructor
  · rintro ⟨⟨h1, h2, h3, h4⟩, h5, -, h6⟩
    exact ⟨h1, h2, h3, h4, h5, h6⟩
  · rintro ⟨h1, h2, h3, h4, h5, h6⟩
    exact ⟨⟨h1, h2, h3, h4⟩, h5, by simp, h6⟩

theorem validatePostgresTransaction_eq_ok_iff {t : Transaction} :
    validatePostgresTransaction t = .ok () ↔ t.Fits := by
  simp only [validatePostgresTransaction, bind_eq_ok_iff, failIf_eq_ok_iff, exists_const, not_or,
    gt_iff_lt, UInt64.not_lt, UInt32.not_lt, each_eq_ok_iff, List.forall_mem_cons,
    validateUint256_eq_ok_iff]
  constructor
  · rintro ⟨⟨h1, h2, h3⟩, h4, ⟨h5, h6⟩, ⟨-, h7⟩, ⟨-, h8⟩, ⟨-, h9⟩, -⟩
    exact ⟨h1, h2, h3, h4, h5 trivial, by simpa using ⟨h6, h7, h8, h9⟩⟩
  · rintro ⟨h1, h2, h3, h4, h5, h6⟩
    simp only [List.forall_mem_cons] at h6
    obtain ⟨h6, h7, h8, h9, -⟩ := h6
    exact ⟨⟨h1, h2, h3⟩, h4, ⟨fun _ => h5, h6⟩, ⟨by simp, h7⟩, ⟨by simp, h8⟩, ⟨by simp, h9⟩,
      by simp⟩

theorem validatePostgresEvent_eq_ok_iff {e : Event} :
    validatePostgresEvent e = .ok () ↔ e.Fits := by
  simp only [validatePostgresEvent, failIf_eq_ok_iff, not_or, gt_iff_lt, UInt32.not_lt]
  exact ⟨fun h => ⟨h.1, h.2⟩, fun h => ⟨h.1, h.2⟩⟩

/-! ## Rows -/

def Block.row (b : Block) : BlockRow where
  number := b.number.toNat
  hash := b.hash.1
  parentHash := b.parentHash.1
  blockTimestamp := b.timestamp.toNat
  gasLimit := b.gasLimit.toNat
  gasUsed := b.gasUsed.toNat
  baseFeePerGasWei := b.baseFeePerGas
  transactionCount := b.transactionCount
  indexedAt := microseconds b.indexedAt

def Transaction.row (t : Transaction) : TransactionRow where
  hash := t.hash.1
  blockNumber := t.blockNumber.toNat
  transactionIndex := t.index.toNat
  transactionType := t.type.toNat
  nonce := t.nonce.toNat
  senderAddress := t.sender.1
  recipientAddress := t.recipient.map Subtype.val
  valueWei := t.value
  gasLimit := t.gasLimit.toNat
  gasPriceWei := t.gasPrice
  maxFeePerGasWei := t.maxFeePerGas
  maxPriorityFeePerGasWei := t.maxPriorityFeePerGas
  input := t.input

def Event.row (e : Event) : EventLogRow where
  blockNumber := e.blockNumber.toNat
  transactionHash := e.transactionHash.1
  transactionIndex := e.transactionIndex.toNat
  logIndex := e.logIndex.toNat
  emitterAddress := e.address.1
  topics := e.topics.elems.map Subtype.val
  data := e.data

/-- A number that fits a `bigint` is converted. -/
theorem postgresInt64_eq_ok {v : UInt64} (h : v ≤ maxInt64) : postgresInt64 v = .ok v.toNat :=
  if_neg (UInt64.not_lt.2 h)

/-- A number that fits an `integer` is converted. -/
theorem postgresInt32_eq_ok {v : UInt32} (h : v ≤ maxInt32) : postgresInt32 v = .ok v.toNat :=
  if_neg (UInt32.not_lt.2 h)

/-- **A block that fits becomes its row.** -/
theorem queueBlock_eq_ok {b : Block} (h : b.Fits) (hcount : 0 ≤ b.transactionCount) :
    queueBlock b = .ok b.row := by
  have hpc : postgresCount b.transactionCount = .ok b.transactionCount :=
    if_neg (by have := h.transactionCount; omega)
  simp only [queueBlock, postgresInt64_eq_ok h.number, postgresInt64_eq_ok h.timestamp,
    postgresInt64_eq_ok h.gasLimit, postgresInt64_eq_ok h.gasUsed, hpc, ok_bind]
  rfl

/-- A transaction that fits becomes its row. -/
theorem queueTransaction_eq_ok {t : Transaction} (h : t.Fits) :
    queueTransaction t = .ok t.row := by
  simp only [queueTransaction, postgresInt64_eq_ok h.blockNumber, postgresInt32_eq_ok h.index,
    postgresInt64_eq_ok h.nonce, postgresInt64_eq_ok h.gasLimit, ok_bind]
  rfl

theorem queueEvent_eq_ok {e : Event} (h : e.Fits) (hn : e.blockNumber ≤ maxInt64) :
    queueEvent e = .ok e.row := by
  simp only [queueEvent, postgresInt64_eq_ok hn, postgresInt32_eq_ok h.transactionIndex,
    postgresInt32_eq_ok h.logIndex, ok_bind]
  rfl

/-! ## Reading back -/

/-- **The driver hands out the value**: as an integer times a power of
ten, and NULL as not valid. -/
structure FaithfulWire (wire : Option ℤ → Numeric) : Prop where
  null : (wire none).valid = false
  valid : ∀ v, (wire (some v)).valid = true ∧ (wire (some v)).nan = false ∧
    (wire (some v)).infinityModifier = .finite
  exp : ∀ v, -78 ≤ (wire (some v)).exp ∧ (wire (some v)).exp ≤ 78
  value : ∀ v, if 0 ≤ (wire (some v)).exp
    then (wire (some v)).int.getD 0 * 10 ^ (wire (some v)).exp.natAbs = v
    else (wire (some v)).int.getD 0 = v * 10 ^ (wire (some v)).exp.natAbs

/-- The plain spelling: the value, without an exponent. -/
def Numeric.plain (value : Option ℤ) : Numeric where
  int := value
  exp := 0
  nan := false
  infinityModifier := .finite
  valid := value.isSome

theorem faithfulWire_plain : FaithfulWire Numeric.plain where
  null := rfl
  valid _ := ⟨rfl, rfl, rfl⟩
  exp _ := by simp [Numeric.plain]
  value _ := by simp [Numeric.plain]

/-- **A spelling of a column's value**: the value as an integer times a
power of ten, and NULL as not valid. -/
def Numeric.Spells (numeric : Numeric) : Option ℤ → Prop
  | none => numeric.valid = false
  | some v => numeric.Readable ∧ (v : ℚ) = numeric.rational

variable {wire : Option ℤ → Numeric} {name : String} {o : Option ℤ}

/-- What a faithful driver hands out is a spelling. -/
theorem FaithfulWire.spells (h : FaithfulWire wire) (o : Option ℤ) : (wire o).Spells o := by
  cases o with
  | none => exact h.null
  | some v =>
    obtain ⟨hvalid, hnan, hfinite⟩ := h.valid v
    have hvalue := h.value v
    refine ⟨⟨hvalid, hnan, hfinite, (h.exp v).1, (h.exp v).2⟩, ?_⟩
    split at hvalue
    · rename_i hexp
      exact (Numeric.eq_rational_iff_of_nonneg hexp).2 hvalue
    · rename_i hexp
      exact (Numeric.eq_rational_iff_of_neg (not_le.1 hexp)).2 hvalue

/-- **Any spelling of a value decodes to it.** -/
theorem Numeric.Spells.decode {numeric : Numeric} (h : numeric.Spells o) {required : Bool}
    (hrequired : required = true → o ≠ none) (huint : ∀ v ∈ o, IsUint256 v) :
    decodePostgresNumeric name numeric required = .ok o := by
  cases o with
  | none =>
    have hnull : numeric.valid = false := h
    cases required with
    | true => exact absurd rfl (hrequired rfl)
    | false => simp [decodePostgresNumeric, hnull]
  | some v => exact (decodePostgresNumeric_eq_some_iff h.1).2 ⟨huint v rfl, h.2⟩

/-- A column that may be NULL. -/
theorem Numeric.Spells.decode_optional {numeric : Numeric} (h : numeric.Spells o)
    (huint : ∀ v ∈ o, IsUint256 v) : decodePostgresNumeric name numeric false = .ok o :=
  h.decode nofun huint

theorem decodePostgresUint64_toNat (v : UInt64) : decodePostgresUint64 v.toNat = .ok v := by
  rw [decodePostgresUint64, if_neg (by omega), Int.toNat_natCast, UInt64.ofNat_toNat]

theorem decodePostgresUint32_toNat (v : UInt32) : decodePostgresUint32 v.toNat = .ok v := by
  rw [decodePostgresUint32, if_neg (by omega), Int.toNat_natCast, UInt32.ofNat_toNat]

theorem decodePostgresUint8_toNat (v : UInt8) : decodePostgresUint8 v.toNat = .ok v := by
  have := v.toNat_lt
  rw [decodePostgresUint8, if_neg (by omega), Int.toNat_natCast, UInt8.ofNat_toNat]

@[simp] theorem decodeHash_val (h : Hash) : decodeHash h.1 = .ok h := dif_pos h.2

@[simp] theorem decodeAddress_val (a : Address) : decodeAddress a.1 = .ok a := dif_pos a.2

/-- An address comes back, and one that is not given as none. -/
theorem decodeOptionalAddress_val (a : Option Address) :
    decodeOptionalAddress (a.map Subtype.val) = .ok a := by
  cases a with
  | none => rfl
  | some a =>
    simp only [decodeOptionalAddress, Option.map_some, decodeAddress_val, ok_bind]
    rfl

theorem decodeTopics_val {topics : List Hash} (h : topics.length ≤ 4) :
    decodeTopics (topics.map Subtype.val) = .ok topics := by
  have hfrom : ∀ (ts : List Hash) (i : ℕ), decodeTopicsFrom i (ts.map Subtype.val) = .ok ts := by
    intro ts
    induction ts with
    | nil => exact fun _ => rfl
    | cons t ts ih =>
      intro i
      simp only [List.map_cons, decodeTopicsFrom, decodeHash_val, ih]
      rfl
  rw [decodeTopics, if_neg (by rw [List.length_map]; omega), hfrom]

/-- What is read back of a block. -/
def Block.stored (b : Block) : Block := { b with indexedAt := microseconds b.indexedAt }

/-- What is read back of an event: its topics are never nil. -/
def Event.stored (e : Event) : Event :=
  { e with topics := some e.topics.elems, data := cloneSlice e.data }

/-- **A block is read back as it was written**, whatever the spelling. -/
theorem decode_scan_block {b : Block} (h : b.Fits) (hcount : 0 ≤ b.transactionCount)
    {baseFee : Numeric} (hfee : baseFee.Spells b.baseFeePerGas) :
    (b.row.scan baseFee).decode = .ok b.stored := by
  have hnonneg : ¬ (b.row.scan baseFee).transactionCount < 0 := Int.not_lt.2 hcount
  unfold PostgresBlockRow.decode
  simp only [failIf_of_not hnonneg]
  simp only [BlockRow.scan, Block.row, decodePostgresUint64_toNat, decodeHash_val,
    hfee.decode_optional h.baseFeePerGas, wrap_ok, ok_bind]
  rfl

/-- **A transaction's row is read back**, whatever spellings its amounts
come in. -/
theorem decode_scan_transaction {t : Transaction} (h : t.Fits)
    {value gasPrice maxFee maxPriorityFee : Numeric} (hvalue : value.Spells t.value)
    (hprice : gasPrice.Spells t.gasPrice) (hfee : maxFee.Spells t.maxFeePerGas)
    (hpriority : maxPriorityFee.Spells t.maxPriorityFeePerGas) :
    (t.row.scan t.blockHash.1 value gasPrice maxFee maxPriorityFee).decode =
      .ok (cloneTransaction t) := by
  have huint := h.isUint256
  simp only [List.forall_mem_cons] at huint
  obtain ⟨h1, h2, h3, h4, -⟩ := huint
  simp only [PostgresTransactionRow.decode, TransactionRow.scan, Transaction.row,
    decodePostgresUint64_toNat, decodePostgresUint32_toNat, decodePostgresUint8_toNat,
    decodeHash_val, decodeAddress_val, decodeOptionalAddress_val,
    hvalue.decode (fun _ => h.value) h1, hprice.decode_optional h2, hfee.decode_optional h3,
    hpriority.decode_optional h4, wrap_ok, ok_bind]
  rfl

/-- A block's row is read back, with its instant to the microsecond. -/
theorem decode_row_block (hwire : FaithfulWire wire) {b : Block} (h : b.Fits)
    (hcount : 0 ≤ b.transactionCount) : b.row.decode wire = .ok b.stored :=
  decode_scan_block h hcount (hwire.spells _)

/-- A transaction's row is read back under the hash of its block. -/
theorem decode_row_transaction (hwire : FaithfulWire wire) {t : Transaction} (h : t.Fits) :
    t.row.decode wire t.blockHash.1 = .ok (cloneTransaction t) :=
  decode_scan_transaction h (hwire.spells _) (hwire.spells _) (hwire.spells _) (hwire.spells _)

/-- An event's row is read back under the hash of its block. -/
theorem decode_row_event {e : Event} (h : e.topics.elems.length ≤ 4) :
    e.row.decode e.blockHash.1 = .ok e.stored := by
  simp only [EventLogRow.decode, PostgresEventRow.decode, EventLogRow.scan, Event.row,
    decodePostgresUint64_toNat, decodePostgresUint32_toNat, decodeHash_val, decodeAddress_val,
    decodeTopics_val h, wrap_ok, ok_bind]
  rfl

end EthIndexer
