import EthIndexer.Store.Model.Tables
/-!
# The PostgreSQL store

A method runs in one transaction, writers one after the other under the
advisory lock, and a transaction that does not commit leaves the tables as
they were; so a method is one step on the tables. What is outside the
program is in `PostgresEnv`: the calls on the database that fail, and the
spelling the driver gives to a `numeric`.
-/

namespace EthIndexer

/-! ## The database as the program meets it -/

/-- The calls on the database. -/
inductive PostgresCall
  | begin
  | lock
  | chain
  | delete
  | parent
  | batch (i : ℕ)
  | tip
  | state
  | commit
  | query
  | cursor
  | events
  deriving DecidableEq

/-- What one method meets. -/
structure PostgresEnv where
  /-- The error of a call that fails. -/
  fault : PostgresCall → Option String
  /-- How a `numeric` column comes back. -/
  wire : Option ℤ → Numeric

/-- A call on the database. -/
def PostgresEnv.call (env : PostgresEnv) (c : PostgresCall) (context : String) : Go Unit :=
  match env.fault c with
  | none => .ok ()
  | some text => .error (.error [] (context ++ ": " ++ text))

/-- `for _, x := range l { if err := f(x); err != nil { return err } }`. -/
def Go.each {α : Type} (f : α → Go Unit) : List α → Go Unit
  | [] => .ok ()
  | a :: l => do
    f a
    Go.each f l

/-! ## Validation -/

def validateUint256 (name : String) (value : Option ℤ) (required : Bool) : Go Unit :=
  match value with
  | none =>
    Go.failIf (required = true) (.because .invalidCanonicalUpdate s!"{name} is required")
  | some value =>
    Go.failIf (value < 0 ∨ exceeds256Bits value)
      (.because .invalidCanonicalUpdate s!"{name} is outside uint256")

def validatePostgresBlock (block : Block) : Go Unit := do
  Go.failIf (block.number > maxInt64 ∨ block.timestamp > maxInt64 ∨ block.gasLimit > maxInt64 ∨
      block.gasUsed > maxInt64)
    (.because .invalidCanonicalUpdate
      s!"block {block.number} contains a value exceeding PostgreSQL bigint")
  Go.failIf (block.transactionCount > maxInt32.toNat)
    (.because .invalidCanonicalUpdate
      s!"block {block.number} transaction count exceeds PostgreSQL integer")
  validateUint256 "block base fee" block.baseFeePerGas false

def validatePostgresTransaction (t : Transaction) : Go Unit := do
  Go.failIf (t.blockNumber > maxInt64 ∨ t.nonce > maxInt64 ∨ t.gasLimit > maxInt64)
    (.because .invalidCanonicalUpdate
      s!"transaction {t.hash.hex} contains a value exceeding PostgreSQL bigint")
  Go.failIf (t.index > maxInt32)
    (.because .invalidCanonicalUpdate s!"transaction {t.hash.hex} index exceeds PostgreSQL integer")
  Go.each (fun (name, value, required) => validateUint256 name value required)
    [("transaction value", t.value, true), ("transaction gas price", t.gasPrice, false),
     ("transaction max fee", t.maxFeePerGas, false),
     ("transaction max priority fee", t.maxPriorityFeePerGas, false)]

def validatePostgresEvent (e : Event) : Go Unit :=
  Go.failIf (e.transactionIndex > maxInt32 ∨ e.logIndex > maxInt32)
    (.because .invalidCanonicalUpdate "event position exceeds PostgreSQL integer")

def validatePostgresUpdate (ord : RangeOrder UInt64 BlockBundle) (update : CanonicalUpdate) :
    Go Unit := do
  Go.failIf (update.chainID = 0)
    (.because .invalidCanonicalUpdate "chain ID must be greater than zero")
  Go.failIf (update.chainID > maxInt64)
    (.because .invalidCanonicalUpdate "chain ID exceeds PostgreSQL bigint")
  Go.failIf (update.retainFrom > update.replaceFrom)
    (.because .invalidCanonicalUpdate "retain-from block cannot exceed replace-from block")
  Go.failIf (update.retainFrom > maxInt64 ∨ update.replaceFrom > maxInt64)
    (.because .invalidCanonicalUpdate "canonical range exceeds PostgreSQL bigint")
  validateReplacement update
  validateCanonicalBundles ord
    ((∅ : BundleMap).setAll (fun bundle => bundle.block.number) update.blocks)
  Go.each (fun bundle => do
    validatePostgresBlock bundle.block
    Go.each validatePostgresTransaction bundle.transactions
    Go.each validatePostgresEvent bundle.events) update.blocks

namespace Postgres

variable (env : PostgresEnv)

/-! ## The update -/

def rejectDifferentChain (chainID : UInt64) (T : Tables) : Go Unit := do
  let id ← postgresInt64 chainID
  env.call .chain "read stored chain ID"
  match T.syncState.find? fun r => r.chainID ≠ id with
  | none => .ok ()
  | some existing =>
    .error (.because .invalidCanonicalUpdate
      s!"store chain ID is {existing.chainID}, update chain ID is {chainID}")

def validateRetainedParent (update : CanonicalUpdate) (T : Tables) : Go Unit :=
  match update.blocks with
  | [] => .ok ()
  | first :: _ =>
    if update.replaceFrom = update.retainFrom then .ok ()
    else do
      let previousNumber := update.replaceFrom - 1
      let previous ← postgresInt64 previousNumber
      env.call .parent s!"read retained parent block {previousNumber}"
      match T.selectBlock previous with
      | none =>
        .error (.because .invalidCanonicalUpdate
          s!"retained parent block {previousNumber} is missing")
      | some row =>
        let hash ← (decodeHash row.hash).wrap s!"decode retained parent block {previousNumber}"
        Go.failIf (first.block.parentHash ≠ hash) (.because .invalidCanonicalUpdate
          (s!"replacement block {update.replaceFrom} does not extend " ++
           s!"retained block {previousNumber}"))

/-- `canonicalBatchQueryLimit`. -/
def canonicalBatchQueryLimit : ℕ := 1000

/-- Send the `i`-th batch. -/
def sendCanonicalBatch (i : ℕ) (batch : List Statement) (T : Tables) : Go Tables :=
  if batch.length = 0 then .ok T
  else do
    env.call (.batch i) "insert canonical bundles"
    (batch.foldlM Tables.execute T).wrap "insert canonical bundles"

/-- The statements a bundle is queued as, in order. -/
def queueBundle (bundle : BlockBundle) : List (Go Statement) :=
  (do return .insertBlock (← queueBlock bundle.block)) ::
    (bundle.transactions.map (fun t => do return .insertTransaction (← queueTransaction t)) ++
      bundle.events.map fun e => do return .insertEvent (← queueEvent e))

/-- Queue the statements one by one, and send the batch whenever it is
full; `i` batches are sent already. -/
def sendQueued : ℕ → List Statement → List (Go Statement) → Tables → Go Tables
  | i, batch, [], T => sendCanonicalBatch env i batch T
  | i, batch, queued :: rest, T => do
    let batch := batch ++ [← queued]
    if batch.length ≥ canonicalBatchQueryLimit then
      sendQueued (i + 1) [] rest (← sendCanonicalBatch env i batch T)
    else sendQueued i batch rest T

def insertCanonicalBundles (bundles : List BlockBundle) (T : Tables) : Go Tables :=
  sendQueued env 0 [] (bundles.flatMap queueBundle) T

/-- The tip a row of `canonicalTipQuery` decodes to. -/
def decodeTip (row : Option BlockRow) : Go (Option ChainTip) :=
  match row with
  | none => .ok none
  | some row => do
    let hash ← decodeHash row.hash
    let number ← decodePostgresUint64 row.number
    return some { number := number, hash := hash }

def canonicalTipInTransaction (T : Tables) : Go (Option ChainTip) := do
  env.call .tip "read updated canonical tip"
  (decodeTip T.selectTip).wrap "decode updated canonical tip"

def writeSyncState (update : CanonicalUpdate) (tip : Option ChainTip) (T : Tables) :
    Go Tables := do
  let number ← tip.mapM fun tip => postgresInt64 tip.number
  let chainID ← postgresInt64 update.chainID
  env.call .state "write canonical sync state"
  (T.upsertSyncState
    { chainID := chainID, lastIndexedNumber := number
      lastIndexedHash := tip.map fun tip => tip.hash.1
      lastSuccessfulSyncAt := microseconds update.syncedAt }).wrap "write canonical sync state"

/-- The transaction of `ApplyCanonicalUpdate`: the tables it commits. -/
def commitUpdate (ord : RangeOrder UInt64 BlockBundle) (update : CanonicalUpdate) (T : Tables) :
    Go Tables := do
  validatePostgresUpdate ord update
  env.call .begin "begin canonical update"
  env.call .lock "acquire canonical writer lock"
  rejectDifferentChain env update.chainID T
  let replaceFrom ← postgresInt64 update.replaceFrom
  let retainFrom ← postgresInt64 update.retainFrom
  env.call .delete "delete replaced canonical range"
  let T := T.deleteCanonicalRange replaceFrom retainFrom
  validateRetainedParent env update T
  let T ← insertCanonicalBundles env update.blocks T
  let tip ← canonicalTipInTransaction env T
  let T ← writeSyncState env update tip T
  env.call .commit "commit canonical update"
  return T

/-- `ApplyCanonicalUpdate`: the answer and the tables it leaves. A commit
that fails is here one that did not take place. It may also have taken
place and its answer be lost; `Postgres.losingStore` is the store over a
connection of which that is so. -/
def applyCanonicalUpdate (ord : RangeOrder UInt64 BlockBundle) (update : CanonicalUpdate)
    (T : Tables) : Go Unit × Tables :=
  match commitUpdate env ord update T with
  | .ok T' => (.ok (), T')
  | .error err => (.error err, T)

/-! ## Queries -/

variable (T : Tables)

def canonicalTip : Go (Option ChainTip) := do
  env.call .query "query canonical tip"
  (decodeTip T.selectTip).wrap "decode canonical tip"

def canonicalHash (number : UInt64) : Go Hash :=
  if number > maxInt64 then .error (.ofSentinel .notFound)
  else do
    let n ← postgresInt64 number
    env.call .query s!"query canonical hash for block {number}"
    match T.selectBlock n with
    | none => .error (.ofSentinel .notFound)
    | some row => (decodeHash row.hash).wrap s!"decode canonical hash for block {number}"

/-- The loop that decodes the transaction hashes of a block. -/
def decodeHashes (number : UInt64) : ℕ → List (List UInt8) → Go (List Hash)
  | _, [] => .ok []
  | index, value :: rest => do
    let hash ← (decodeHash value).wrap s!"decode block {number} transaction {index} hash"
    return hash :: (← decodeHashes number (index + 1) rest)

def blockByNumber (number : UInt64) : Go BlockResult :=
  if number > maxInt64 then .error (.ofSentinel .notFound)
  else do
    let n ← postgresInt64 number
    env.call .query s!"query block {number}"
    match T.selectBlock n with
    | none => .error (.ofSentinel .notFound)
    | some row =>
      let block ← (row.decode env.wire).wrap s!"decode block {number}"
      let hashes ← decodeHashes number 0 ((T.selectTransactions row.number).map TransactionRow.hash)
      Go.failIf ((hashes.length : ℤ) ≠ block.transactionCount)
        (.because .inconsistentData
          (s!"block {number} contains {hashes.length} transaction hashes, " ++
           s!"expected {block.transactionCount}"))
      return { block := block, transactionHashes := hashes }

/-- `scanPostgresEvents`. -/
def scanPostgresEvents : List (EventLogRow × List UInt8) → Go (List Event)
  | [] => .ok []
  | (row, blockHash) :: rest => do
    let event ← row.decode blockHash
    return event :: (← scanPostgresEvents rest)

def queryEventsForTransaction (hash : Hash) : Go (List Event) := do
  env.call .events s!"query events for transaction {hash.hex}"
  (scanPostgresEvents (T.selectEventsForTransaction hash.1)).wrap
    s!"scan events for transaction {hash.hex}"

def transactionByHash (hash : Hash) : Go TransactionResult := do
  env.call .begin "begin transaction lookup"
  env.call .query s!"query transaction {hash.hex}"
  match T.selectTransaction hash.1 with
  | none => .error (.ofSentinel .notFound)
  | some (row, blockHash) =>
    let transaction ← (row.decode env.wire blockHash).wrap s!"decode transaction {hash.hex}"
    let events ← queryEventsForTransaction env T hash
    env.call .commit "commit transaction lookup"
    return { transaction := transaction, events := events }

def canonicalCursorExists (cursor : EventCursor) : Go Bool :=
  if cursor.blockNumber > maxInt64 then .ok false
  else do
    let number ← postgresInt64 cursor.blockNumber
    env.call .cursor "validate event cursor"
    return T.blocks.any fun b => decide (b.number = number ∧ b.hash = cursor.blockHash.1)

/-- The position a query stays below, as its arguments. -/
def positionArguments (before : Option EventCursor) : Go (Option (ℤ × ℤ)) :=
  before.mapM fun cursor => do
    let number ← postgresInt64 cursor.blockNumber
    let logIndex ← postgresInt64 cursor.logIndex.toUInt64
    return (number, logIndex)

def queryAddressEventPage (query : EventQuery) : Go EventPage :=
  if query.limit = 0 then .ok { events := [], nextCursor := none }
  else do
    let queryLimit ← postgresInt64 (query.limit.toUInt64 + 1)
    let before ← positionArguments query.before
    env.call .events s!"query events for address {query.address.hex}"
    let events ← (scanPostgresEvents (T.selectEventsByAddress query.address.1 before queryLimit)).wrap
      s!"scan events for address {query.address.hex}"
    if events.length ≤ query.limit.toNat then return { events := events, nextCursor := none }
    else
      let pageEvents := events.take (events.length - 1)
      return { events := pageEvents, nextCursor := pageEvents.getLast?.map Memory.cursorOf }

def eventsByAddress (ctx : Context) (query : EventQuery) : Go EventPage :=
  match ctx with
  | some err => .error err.fault
  | none =>
    if query.limit > maxEventPageSize then
      .error (.because .invalidQuery
        s!"event page limit {query.limit} exceeds maximum {maxEventPageSize}")
    else
      match query.before with
      | none => queryAddressEventPage env T query
      | some cursor => do
        env.call .begin "begin event cursor lookup"
        let valid ← canonicalCursorExists env T cursor
        Go.failIf (valid = false) (.ofSentinel .staleCursor)
        let page ← queryAddressEventPage env T query
        env.call .commit "commit event cursor lookup"
        return page

end Postgres

/-! ## The tables regrouped -/

/-- The bundle of a block row: the block, its transactions by index, its
events by log index. -/
def Tables.regroupBlock (wire : Option ℤ → Numeric) (T : Tables) (row : BlockRow) :
    Go BlockBundle := do
  let block ← row.decode wire
  let transactions ← (T.selectTransactions row.number).mapM (TransactionRow.decode wire row.hash)
  let events ← Postgres.scanPostgresEvents
    (sortSlice (fun a b => decide (a.1.logIndex < b.1.logIndex))
      (T.joinEvents fun e => e.blockNumber = row.number))
  return { block := block, transactions := transactions, events := events }

/-- The tables as bundles by block number. -/
def Tables.regroup (wire : Option ℤ → Numeric) (T : Tables) : Go BundleMap := do
  let bundles ← T.blocks.mapM (T.regroupBlock wire)
  return (∅ : BundleMap).setAll (fun bundle => bundle.block.number) bundles

end EthIndexer
