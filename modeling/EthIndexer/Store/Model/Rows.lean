import EthIndexer.Store.Model.Memory
/-!
# Rows of the PostgreSQL tables

The rows of the migration's tables, the conversions that queue a record
for insertion, and the decoders that read it back. `bigint`, `integer` and
`smallint` columns are integers, a `bytea` is a list of bytes, and a column
is an option where the argument sent for it can be NULL. A `numeric` is
stored as its value and comes back in one of several spellings
(`Numeric`); a `timestamptz` keeps microseconds.
-/

namespace EthIndexer

/-- `math.MaxInt64`, as the unsigned integers it is compared with. -/
def maxInt64 : UInt64 := 0x7fffffffffffffff

/-- `math.MaxInt32`. -/
def maxInt32 : UInt32 := 0x7fffffff

/-! ## The rows -/

structure BlockRow where
  number : ℤ
  hash : List UInt8
  parentHash : List UInt8
  blockTimestamp : ℤ
  gasLimit : ℤ
  gasUsed : ℤ
  baseFeePerGasWei : Option ℤ
  transactionCount : ℤ
  indexedAt : Time
  deriving DecidableEq

structure TransactionRow where
  hash : List UInt8
  blockNumber : ℤ
  transactionIndex : ℤ
  transactionType : ℤ
  nonce : ℤ
  senderAddress : List UInt8
  recipientAddress : Option (List UInt8)
  valueWei : Option ℤ
  gasLimit : ℤ
  gasPriceWei : Option ℤ
  maxFeePerGasWei : Option ℤ
  maxPriorityFeePerGasWei : Option ℤ
  input : Option (List UInt8)
  deriving DecidableEq

structure EventLogRow where
  blockNumber : ℤ
  transactionHash : List UInt8
  transactionIndex : ℤ
  logIndex : ℤ
  emitterAddress : List UInt8
  topics : List (List UInt8)
  data : Option (List UInt8)
  deriving DecidableEq

structure SyncStateRow where
  chainID : ℤ
  lastIndexedNumber : Option ℤ
  lastIndexedHash : Option (List UInt8)
  lastSuccessfulSyncAt : Time
  deriving DecidableEq

/-! ## Queueing -/

def postgresInt64 (value : UInt64) : Go ℤ :=
  if value > maxInt64 then .error (.panic "store: uint64 exceeds PostgreSQL bigint")
  else .ok value.toNat

def postgresInt32 (value : UInt32) : Go ℤ :=
  if value > maxInt32 then .error (.panic "store: uint32 exceeds PostgreSQL integer")
  else .ok value.toNat

def postgresCount (value : ℤ) : Go ℤ :=
  if value < 0 ∨ value > maxInt32.toNat then
    .error (.panic "store: int exceeds non-negative PostgreSQL integer")
  else .ok value

/-- The instant a `timestamptz` keeps. Its range, some three hundred
thousand years, is left out: no instant is refused here. -/
def microseconds (t : Time) : Time := t / 1000 * 1000

def queueBlock (block : Block) : Go BlockRow := do
  let number ← postgresInt64 block.number
  let blockTimestamp ← postgresInt64 block.timestamp
  let gasLimit ← postgresInt64 block.gasLimit
  let gasUsed ← postgresInt64 block.gasUsed
  let transactionCount ← postgresCount block.transactionCount
  return { number := number, hash := block.hash.1, parentHash := block.parentHash.1
           blockTimestamp := blockTimestamp, gasLimit := gasLimit, gasUsed := gasUsed
           baseFeePerGasWei := block.baseFeePerGas, transactionCount := transactionCount
           indexedAt := microseconds block.indexedAt }

def queueTransaction (t : Transaction) : Go TransactionRow := do
  let blockNumber ← postgresInt64 t.blockNumber
  let transactionIndex ← postgresInt32 t.index
  let nonce ← postgresInt64 t.nonce
  let gasLimit ← postgresInt64 t.gasLimit
  return { hash := t.hash.1, blockNumber := blockNumber, transactionIndex := transactionIndex
           transactionType := t.type.toNat, nonce := nonce, senderAddress := t.sender.1
           recipientAddress := t.recipient.map Subtype.val, valueWei := t.value
           gasLimit := gasLimit, gasPriceWei := t.gasPrice, maxFeePerGasWei := t.maxFeePerGas
           maxPriorityFeePerGasWei := t.maxPriorityFeePerGas, input := t.input }

def queueEvent (e : Event) : Go EventLogRow := do
  let blockNumber ← postgresInt64 e.blockNumber
  let transactionIndex ← postgresInt32 e.transactionIndex
  let logIndex ← postgresInt32 e.logIndex
  return { blockNumber := blockNumber, transactionHash := e.transactionHash.1
           transactionIndex := transactionIndex, logIndex := logIndex
           emitterAddress := e.address.1, topics := e.topics.elems.map Subtype.val
           data := e.data }

/-! ## Decoding -/

inductive InfinityModifier
  | finite
  | infinity
  | negativeInfinity
  deriving DecidableEq

/-- `pgtype.Numeric`. -/
structure Numeric where
  int : Option ℤ
  exp : ℤ
  nan : Bool
  infinityModifier : InfinityModifier
  valid : Bool

/-- `integer.BitLen() > 256`. -/
def exceeds256Bits (integer : ℤ) : Prop := integer.natAbs ≥ 2 ^ 256

instance (integer : ℤ) : Decidable (exceeds256Bits integer) := inferInstanceAs (Decidable (_ ≥ _))

def decodePostgresNumeric (name : String) (value : Numeric) (required : Bool) : Go (Option ℤ) :=
  if value.valid = false then
    if required then .error (.because .inconsistentData s!"{name} is null") else .ok none
  else if value.nan = true ∨ value.infinityModifier ≠ .finite then
    .error (.because .inconsistentData s!"{name} is not finite")
  else if value.exp < -78 ∨ value.exp > 78 then
    .error (.because .inconsistentData s!"{name} has unsupported exponent {value.exp}")
  else do
    let power : ℤ := 10 ^ value.exp.natAbs
    let integer ←
      if value.exp > 0 then .ok (value.int.getD 0 * power)
      else if value.exp < 0 then do
        Go.failIf ((value.int.getD 0).tmod power ≠ 0)
          (.because .inconsistentData s!"{name} is not an integer")
        .ok ((value.int.getD 0).tdiv power)
      else .ok (value.int.getD 0)
    Go.failIf (integer < 0 ∨ exceeds256Bits integer)
      (.because .inconsistentData s!"{name} is outside uint256")
    return some integer

def decodeHash (value : List UInt8) : Go Hash :=
  if h : value.length = 32 then .ok ⟨value, h⟩
  else .error (.because .inconsistentData s!"hash has {value.length} bytes")

def decodeAddress (value : List UInt8) : Go Address :=
  if h : value.length = 20 then .ok ⟨value, h⟩
  else .error (.because .inconsistentData s!"address has {value.length} bytes")

def decodeOptionalAddress (value : Option (List UInt8)) : Go (Option Address) :=
  match value with
  | none => .ok none
  | some value => do return some (← decodeAddress value)

/-- The loop of `decodeTopics` from `index` on. -/
def decodeTopicsFrom : ℕ → List (List UInt8) → Go (List Hash)
  | _, [] => .ok []
  | index, value :: rest => do
    let topic ← (decodeHash value).wrap s!"decode event topic {index}"
    return topic :: (← decodeTopicsFrom (index + 1) rest)

def decodeTopics (values : List (List UInt8)) : Go (List Hash) :=
  if values.length > 4 then
    .error (.because .inconsistentData s!"event has {values.length} topics")
  else decodeTopicsFrom 0 values

def decodePostgresUint64 (value : ℤ) : Go UInt64 :=
  if value < 0 then .error (.because .inconsistentData "PostgreSQL bigint is negative")
  else .ok (UInt64.ofNat value.toNat)

def decodePostgresUint32 (value : ℤ) : Go UInt32 :=
  if value < 0 then .error (.because .inconsistentData "PostgreSQL integer is negative")
  else .ok (UInt32.ofNat value.toNat)

def decodePostgresUint8 (value : ℤ) : Go UInt8 :=
  if value < 0 ∨ value > 255 then
    .error (.because .inconsistentData "PostgreSQL smallint is outside uint8")
  else .ok (UInt8.ofNat value.toNat)

/-! ## Scanned rows -/

structure PostgresBlockRow where
  number : ℤ
  hash : List UInt8
  parentHash : List UInt8
  timestamp : ℤ
  gasLimit : ℤ
  gasUsed : ℤ
  baseFeePerGas : Numeric
  transactionCount : ℤ
  indexedAt : Time

def PostgresBlockRow.decode (row : PostgresBlockRow) : Go Block := do
  let number ← (decodePostgresUint64 row.number).wrap "decode block number"
  let hash ← (decodeHash row.hash).wrap "decode block hash"
  let parentHash ← (decodeHash row.parentHash).wrap "decode block parent hash"
  let timestamp ← (decodePostgresUint64 row.timestamp).wrap "decode block timestamp"
  let gasLimit ← (decodePostgresUint64 row.gasLimit).wrap "decode block gas limit"
  let gasUsed ← (decodePostgresUint64 row.gasUsed).wrap "decode block gas used"
  let baseFee ← decodePostgresNumeric "block base fee" row.baseFeePerGas false
  Go.failIf (row.transactionCount < 0)
    (.because .inconsistentData "block transaction count is negative")
  return { number := number, hash := hash, parentHash := parentHash, timestamp := timestamp
           gasLimit := gasLimit, gasUsed := gasUsed, baseFeePerGas := baseFee
           transactionCount := row.transactionCount, indexedAt := row.indexedAt }

structure PostgresTransactionRow where
  hash : List UInt8
  blockNumber : ℤ
  blockHash : List UInt8
  index : ℤ
  typeID : ℤ
  nonce : ℤ
  sender : List UInt8
  recipient : Slice UInt8
  value : Numeric
  gasLimit : ℤ
  gasPrice : Numeric
  maxFeePerGas : Numeric
  maxPriorityFeePerGas : Numeric
  input : Slice UInt8

def PostgresTransactionRow.decode (row : PostgresTransactionRow) : Go Transaction := do
  let hash ← (decodeHash row.hash).wrap "decode transaction hash"
  let blockNumber ← (decodePostgresUint64 row.blockNumber).wrap "decode transaction block number"
  let blockHash ← (decodeHash row.blockHash).wrap "decode transaction block hash"
  let index ← (decodePostgresUint32 row.index).wrap "decode transaction index"
  let typeID ← (decodePostgresUint8 row.typeID).wrap "decode transaction type"
  let nonce ← (decodePostgresUint64 row.nonce).wrap "decode transaction nonce"
  let sender ← (decodeAddress row.sender).wrap "decode transaction sender"
  let recipient ← (decodeOptionalAddress row.recipient).wrap "decode transaction recipient"
  let value ← decodePostgresNumeric "transaction value" row.value true
  let gasLimit ← (decodePostgresUint64 row.gasLimit).wrap "decode transaction gas limit"
  let gasPrice ← decodePostgresNumeric "transaction gas price" row.gasPrice false
  let maxFee ← decodePostgresNumeric "transaction max fee" row.maxFeePerGas false
  let maxPriorityFee ←
    decodePostgresNumeric "transaction max priority fee" row.maxPriorityFeePerGas false
  return { hash := hash, blockNumber := blockNumber, blockHash := blockHash, index := index
           type := typeID, nonce := nonce, sender := sender, recipient := recipient, value := value
           gasLimit := gasLimit, gasPrice := gasPrice, maxFeePerGas := maxFee
           maxPriorityFeePerGas := maxPriorityFee, input := cloneSlice row.input }

structure PostgresEventRow where
  blockNumber : ℤ
  blockHash : List UInt8
  transactionHash : List UInt8
  transactionIndex : ℤ
  logIndex : ℤ
  address : List UInt8
  topics : List (List UInt8)
  data : Slice UInt8

def PostgresEventRow.decode (row : PostgresEventRow) : Go Event := do
  let blockNumber ← (decodePostgresUint64 row.blockNumber).wrap "decode event block number"
  let blockHash ← (decodeHash row.blockHash).wrap "decode event block hash"
  let transactionHash ← (decodeHash row.transactionHash).wrap "decode event transaction hash"
  let transactionIndex ←
    (decodePostgresUint32 row.transactionIndex).wrap "decode event transaction index"
  let logIndex ← (decodePostgresUint32 row.logIndex).wrap "decode event log index"
  let address ← (decodeAddress row.address).wrap "decode event address"
  let topics ← decodeTopics row.topics
  return { blockNumber := blockNumber, blockHash := blockHash, transactionHash := transactionHash
           transactionIndex := transactionIndex, logIndex := logIndex, address := address
           topics := some topics, data := cloneSlice row.data }

/-! ## Scanning

What the driver scans of a row: the values of its columns, and of a
`numeric` column one of the spellings of its value. -/

def BlockRow.scan (row : BlockRow) (baseFeePerGas : Numeric) : PostgresBlockRow where
  number := row.number
  hash := row.hash
  parentHash := row.parentHash
  timestamp := row.blockTimestamp
  gasLimit := row.gasLimit
  gasUsed := row.gasUsed
  baseFeePerGas := baseFeePerGas
  transactionCount := row.transactionCount
  indexedAt := row.indexedAt

/-- A transaction row is scanned with the hash of the joined block. -/
def TransactionRow.scan (row : TransactionRow) (blockHash : List UInt8)
    (value gasPrice maxFeePerGas maxPriorityFeePerGas : Numeric) : PostgresTransactionRow where
  hash := row.hash
  blockNumber := row.blockNumber
  blockHash := blockHash
  index := row.transactionIndex
  typeID := row.transactionType
  nonce := row.nonce
  sender := row.senderAddress
  recipient := row.recipientAddress
  value := value
  gasLimit := row.gasLimit
  gasPrice := gasPrice
  maxFeePerGas := maxFeePerGas
  maxPriorityFeePerGas := maxPriorityFeePerGas
  input := row.input

def EventLogRow.scan (row : EventLogRow) (blockHash : List UInt8) : PostgresEventRow where
  blockNumber := row.blockNumber
  blockHash := blockHash
  transactionHash := row.transactionHash
  transactionIndex := row.transactionIndex
  logIndex := row.logIndex
  address := row.emitterAddress
  topics := row.topics
  data := row.data

section Decode

variable (wire : Option ℤ → Numeric)

/-- A block row read through a driver that hands out a `numeric` column
as `wire` says. -/
def BlockRow.decode (row : BlockRow) : Go Block := (row.scan (wire row.baseFeePerGasWei)).decode

def TransactionRow.decode (blockHash : List UInt8) (row : TransactionRow) : Go Transaction :=
  (row.scan blockHash (wire row.valueWei) (wire row.gasPriceWei) (wire row.maxFeePerGasWei)
    (wire row.maxPriorityFeePerGasWei)).decode

def EventLogRow.decode (blockHash : List UInt8) (row : EventLogRow) : Go Event :=
  (row.scan blockHash).decode

end Decode

end EthIndexer
