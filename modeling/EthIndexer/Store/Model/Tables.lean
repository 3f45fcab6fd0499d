import EthIndexer.Store.Model.Rows
/-!
# The PostgreSQL tables

The tables are lists of rows under the constraints of the migration, and
an SQL statement does what its text says: an insert that violates a
constraint fails, a delete cascades, a select filters, joins and sorts.
-/

namespace EthIndexer

structure Tables where
  blocks : List BlockRow
  transactions : List TransactionRow
  eventLogs : List EventLogRow
  syncState : List SyncStateRow
  deriving DecidableEq

/-- The tables after the migration. -/
def Tables.empty : Tables := ⟨[], [], [], []⟩

/-! ## Constraints -/

/-- Fail with the first constraint that does not hold. -/
def Go.check (constraints : List (String × Bool)) : Go Unit :=
  match constraints.find? fun c => !c.2 with
  | some (name, _) => .error (.error [] s!"violates {name}")
  | none => .ok ()

/-- `CHECK (column >= 0)` on a nullable `numeric(78, 0)`. -/
def numericChecks (column : String) (value : Option ℤ) : List (String × Bool) :=
  [(column ++ " numeric(78, 0)", value.all fun v => decide (v.natAbs < 10 ^ 78)),
   (column ++ " check", value.all fun v => decide (0 ≤ v))]

def BlockRow.constraints (T : Tables) (row : BlockRow) : List (String × Bool) :=
  [("blocks number check", decide (0 ≤ row.number)),
   ("blocks hash check", decide (row.hash.length = 32)),
   ("blocks parent_hash check", decide (row.parentHash.length = 32)),
   ("blocks block_timestamp check", decide (0 ≤ row.blockTimestamp)),
   ("blocks gas_limit check", decide (0 ≤ row.gasLimit)),
   ("blocks gas_used check", decide (0 ≤ row.gasUsed)),
   ("blocks transaction_count check", decide (0 ≤ row.transactionCount)),
   ("blocks primary key", decide (∀ r ∈ T.blocks, r.number ≠ row.number)),
   ("blocks hash unique", decide (∀ r ∈ T.blocks, r.hash ≠ row.hash))] ++
  numericChecks "blocks base_fee_per_gas_wei" row.baseFeePerGasWei

def TransactionRow.constraints (T : Tables) (row : TransactionRow) : List (String × Bool) :=
  [("transactions hash check", decide (row.hash.length = 32)),
   ("transactions transaction_index check", decide (0 ≤ row.transactionIndex)),
   ("transactions transaction_type check",
    decide (0 ≤ row.transactionType ∧ row.transactionType ≤ 255)),
   ("transactions nonce check", decide (0 ≤ row.nonce)),
   ("transactions sender_address check", decide (row.senderAddress.length = 20)),
   ("transactions recipient_address check",
    row.recipientAddress.all fun a => decide (a.length = 20)),
   ("transactions value_wei not null", row.valueWei.isSome),
   ("transactions gas_limit check", decide (0 ≤ row.gasLimit)),
   ("transactions input not null", row.input.isSome),
   ("transactions primary key", decide (∀ r ∈ T.transactions, r.hash ≠ row.hash)),
   ("transactions block_number, transaction_index unique",
    decide (∀ r ∈ T.transactions,
      ¬ (r.blockNumber = row.blockNumber ∧ r.transactionIndex = row.transactionIndex))),
   ("transactions block_number references blocks",
    decide (∃ b ∈ T.blocks, b.number = row.blockNumber))] ++
  numericChecks "transactions value_wei" row.valueWei ++
  numericChecks "transactions gas_price_wei" row.gasPriceWei ++
  numericChecks "transactions max_fee_per_gas_wei" row.maxFeePerGasWei ++
  numericChecks "transactions max_priority_fee_per_gas_wei" row.maxPriorityFeePerGasWei

def EventLogRow.constraints (T : Tables) (row : EventLogRow) : List (String × Bool) :=
  [("event_logs transaction_index check", decide (0 ≤ row.transactionIndex)),
   ("event_logs log_index check", decide (0 ≤ row.logIndex)),
   ("event_logs emitter_address check", decide (row.emitterAddress.length = 20)),
   ("event_logs topics check", decide (row.topics.length ≤ 4)),
   ("event_logs data not null", row.data.isSome),
   ("event_logs primary key",
    decide (∀ r ∈ T.eventLogs, ¬ (r.blockNumber = row.blockNumber ∧ r.logIndex = row.logIndex))),
   ("event_logs block_number references blocks",
    decide (∃ b ∈ T.blocks, b.number = row.blockNumber)),
   ("event_logs transaction_hash references transactions",
    decide (∃ t ∈ T.transactions, t.hash = row.transactionHash))]

def SyncStateRow.constraints (row : SyncStateRow) : List (String × Bool) :=
  [("sync_state chain_id check", decide (0 < row.chainID)),
   ("sync_state last_indexed_number check",
    row.lastIndexedNumber.all fun n => decide (0 ≤ n)),
   ("sync_state last_indexed_hash check",
    row.lastIndexedHash.all fun h => decide (h.length = 32)),
   ("sync_state check",
    decide (row.lastIndexedNumber.isNone = row.lastIndexedHash.isNone))]

/-! ## Statements -/

/-- The inserts of an update. -/
inductive Statement
  | insertBlock (row : BlockRow)
  | insertTransaction (row : TransactionRow)
  | insertEvent (row : EventLogRow)
  deriving DecidableEq

namespace Tables

variable (T : Tables)

def execute : Statement → Go Tables
  | .insertBlock row => do
    Go.check (row.constraints T)
    return { T with blocks := T.blocks ++ [row] }
  | .insertTransaction row => do
    Go.check (row.constraints T)
    return { T with transactions := T.transactions ++ [row] }
  | .insertEvent row => do
    Go.check (row.constraints T)
    return { T with eventLogs := T.eventLogs ++ [row] }

/-- `deleteCanonicalRangeQuery`, with what cascades from it. -/
def deleteCanonicalRange (replaceFrom retainFrom : ℤ) : Tables :=
  let gone (b : BlockRow) : Bool := decide (b.number ≥ replaceFrom ∨ b.number < retainFrom)
  let deletedBlocks := (T.blocks.filter gone).map BlockRow.number
  let deletedTransactions :=
    (T.transactions.filter fun t => decide (t.blockNumber ∈ deletedBlocks)).map TransactionRow.hash
  { blocks := T.blocks.filter fun b => !gone b
    transactions := T.transactions.filter fun t => decide (t.blockNumber ∉ deletedBlocks)
    eventLogs := T.eventLogs.filter fun e =>
      decide (e.blockNumber ∉ deletedBlocks ∧ e.transactionHash ∉ deletedTransactions)
    syncState := T.syncState }

/-- `upsertSyncStateQuery`. -/
def upsertSyncState (row : SyncStateRow) : Go Tables := do
  Go.check row.constraints
  return { T with
    syncState :=
      if T.syncState.any fun r => decide (r.chainID = row.chainID) then
        T.syncState.map fun r => if r.chainID = row.chainID then row else r
      else T.syncState ++ [row] }

/-- `canonicalTipQuery`. -/
def selectTip : Option BlockRow :=
  (sortSlice (fun a b : BlockRow => decide (a.number > b.number)) T.blocks).head?

/-- The block of a number, as `canonicalHashQuery` and
`blockByNumberQuery` select it. -/
def selectBlock (number : ℤ) : Option BlockRow := T.blocks.find? fun b => b.number = number

/-- The transactions of a block, `ORDER BY transaction_index`. -/
def selectTransactions (number : ℤ) : List TransactionRow :=
  sortSlice (fun a b : TransactionRow => decide (a.transactionIndex < b.transactionIndex))
    (T.transactions.filter fun t => t.blockNumber = number)

/-- `transactionByHashQuery`: a transaction with the hash of its block. -/
def selectTransaction (hash : List UInt8) : Option (TransactionRow × List UInt8) :=
  (T.transactions.flatMap fun t =>
    if t.hash = hash then
      (T.blocks.filter fun b => b.number = t.blockNumber).map fun b => (t, b.hash)
    else []).head?

/-- Events with the hashes of their blocks, where `p` holds. -/
def joinEvents (p : EventLogRow → Bool) : List (EventLogRow × List UInt8) :=
  T.eventLogs.flatMap fun e =>
    if p e then (T.blocks.filter fun b => b.number = e.blockNumber).map fun b => (e, b.hash)
    else []

/-- `eventsForTransactionQuery`. -/
def selectEventsForTransaction (hash : List UInt8) : List (EventLogRow × List UInt8) :=
  sortSlice (fun a b => decide (a.1.logIndex < b.1.logIndex))
    (T.joinEvents fun e => e.transactionHash = hash)

/-- `ORDER BY block_number DESC, log_index DESC`. -/
def newestRowFirst (a b : EventLogRow × List UInt8) : Bool :=
  if a.1.blockNumber ≠ b.1.blockNumber then decide (a.1.blockNumber > b.1.blockNumber)
  else decide (a.1.logIndex > b.1.logIndex)

/-- `eventsByAddressQuery`, and `eventsByAddressBeforeQuery` where there
is a position to stay below. -/
def selectEventsByAddress (address : List UInt8) (before : Option (ℤ × ℤ)) (limit : ℤ) :
    List (EventLogRow × List UInt8) :=
  (sortSlice newestRowFirst (T.joinEvents fun e =>
    decide (e.emitterAddress = address) && before.all fun (number, logIndex) =>
      decide (e.blockNumber < number ∨ (e.blockNumber = number ∧ e.logIndex < logIndex)))).take
    limit.toNat

end Tables

end EthIndexer
