import EthIndexer.Common.Transactions
import EthIndexer.Store.Model.Postgres
/-!
# The PostgreSQL store, statement by statement

The methods of the store as the commands they send over their connection:
a query on the pool stands alone, a lookup in several queries is a
repeatable read transaction, and an update is a transaction under the
default isolation that takes the advisory lock before it reads anything.
A batch is one command. A transaction that is not committed is rolled
back when the method returns.

The failures that a call meets are those of its `PostgresEnv`. A commit
that is answered with an error may have taken place all the same, when the
connection broke behind it.
-/

namespace EthIndexer

namespace Postgres

/-! ## Statements -/

/-- The queries. -/
inductive Select
  /-- `SELECT chain_id FROM sync_state WHERE chain_id <> $1 LIMIT 1`. -/
  | otherChain (id : ℤ)
  | canonicalHash (number : ℤ)
  | canonicalTip
  | blockByNumber (number : ℤ)
  | transactionByHash (hash : List UInt8)
  | eventsForTransaction (hash : List UInt8)
  | cursorExists (number : ℤ) (hash : List UInt8)
  | eventsByAddress (address : List UInt8) (before : Option (ℤ × ℤ)) (limit : ℤ)

/-- What a query returns. -/
abbrev Rows : Select → Type
  | .otherChain _ => Option ℤ
  | .canonicalHash _ => Option (List UInt8)
  | .canonicalTip => Option BlockRow
  | .blockByNumber _ => Option (BlockRow × List (List UInt8))
  | .transactionByHash _ => Option (TransactionRow × List UInt8)
  | .eventsForTransaction _ => List (EventLogRow × List UInt8)
  | .cursorExists _ _ => Bool
  | .eventsByAddress _ _ _ => List (EventLogRow × List UInt8)

def Select.run (T : Tables) : (q : Select) → Rows q
  | .otherChain id => (T.syncState.find? fun r => r.chainID ≠ id).map SyncStateRow.chainID
  | .canonicalHash number => (T.selectBlock number).map BlockRow.hash
  | .canonicalTip => T.selectTip
  | .blockByNumber number =>
    (T.selectBlock number).map fun row =>
      (row, (T.selectTransactions row.number).map TransactionRow.hash)
  | .transactionByHash hash => T.selectTransaction hash
  | .eventsForTransaction hash => T.selectEventsForTransaction hash
  | .cursorExists number hash =>
    T.blocks.any fun b => decide (b.number = number ∧ b.hash = hash)
  | .eventsByAddress address before limit => T.selectEventsByAddress address before limit

/-- The changes. -/
inductive Change
  | deleteCanonicalRange (replaceFrom retainFrom : ℤ)
  | batch (statements : List Statement)
  | upsertSyncState (row : SyncStateRow)

def Change.run (T : Tables) : Change → Go Tables
  | .deleteCanonicalRange replaceFrom retainFrom => .ok (T.deleteCanonicalRange replaceFrom retainFrom)
  | .batch statements => statements.foldlM Tables.execute T
  | .upsertSyncState row => T.upsertSyncState row

/-- A statement on its way, with the failure it meets. -/
structure Sent (α : Type) where
  statement : α
  fault : Option Fault

/-- The database server. -/
def database :
    Database (Sent Select) (fun q => Rows q.statement) (Sent Change) Fault Tables where
  select q T :=
    match q.fault with
    | some err => .error err
    | none => .ok (q.statement.run T)
  execute u T :=
    match u.fault with
    | some err => .error err
    | none => u.statement.run T

/-- A method of the store on its connection. -/
abbrev Connection (α : Type) :=
  Database.Program (fun q : Sent Select => Rows q.statement) (Sent Change) Fault Fault α

/-- The failure of a call. -/
def failure (env : PostgresEnv) (c : PostgresCall) : Option Fault :=
  (env.fault c).map (Fault.error [])

namespace Connection

variable (env : PostgresEnv)

def query (c : PostgresCall) (q : Select) (context : String) : Connection (Rows q) :=
  Database.send (.query ⟨q, failure env c⟩) (Go.wrap context)

def execute (c : PostgresCall) (u : Change) (context : String) : Connection Unit :=
  Database.send (.execute ⟨u, failure env c⟩) (Go.wrap context)

/-- `BeginTx` up to `Commit`, with the deferred `Rollback`; `lost` says
that a commit answered with an error has taken place. -/
def transaction {α : Type} (isolation : Database.Isolation) (beginContext : String)
    (body : Connection α) (commitContext : String) (lost : Bool) : Connection α :=
  Database.transaction isolation (failure env .begin) (Fault.wrap beginContext) body
    ((failure env .commit).map fun err => (err, lost)) (Fault.wrap commitContext)

/-! ## The update -/

def rejectDifferentChain (chainID : UInt64) : Connection Unit := do
  let id ← .lift (postgresInt64 chainID)
  match ← query env .chain (.otherChain id) "read stored chain ID" with
  | none => return ()
  | some existing =>
    .lift (.error (.because .invalidCanonicalUpdate
      s!"store chain ID is {existing}, update chain ID is {chainID}"))

def validateRetainedParent (update : CanonicalUpdate) : Connection Unit :=
  match update.blocks with
  | [] => return ()
  | first :: _ =>
    if update.replaceFrom = update.retainFrom then return ()
    else do
      let previousNumber := update.replaceFrom - 1
      let previous ← .lift (postgresInt64 previousNumber)
      match ← query env .parent (.canonicalHash previous)
          s!"read retained parent block {previousNumber}" with
      | none =>
        .lift (.error (.because .invalidCanonicalUpdate
          s!"retained parent block {previousNumber} is missing"))
      | some previousHash => do
        let hash ← .lift ((decodeHash previousHash).wrap
          s!"decode retained parent block {previousNumber}")
        .lift (Go.failIf (first.block.parentHash ≠ hash) (.because .invalidCanonicalUpdate
          (s!"replacement block {update.replaceFrom} does not extend " ++
           s!"retained block {previousNumber}")))

def sendCanonicalBatch (i : ℕ) (batch : List Statement) : Connection Unit :=
  if batch.length = 0 then return ()
  else execute env (.batch i) (.batch batch) "insert canonical bundles"

def sendQueued : ℕ → List Statement → List (Go Statement) → Connection Unit
  | i, batch, [] => sendCanonicalBatch env i batch
  | i, batch, queued :: rest => do
    let statement ← .lift queued
    if (batch ++ [statement]).length ≥ canonicalBatchQueryLimit then do
      sendCanonicalBatch env i (batch ++ [statement])
      sendQueued (i + 1) [] rest
    else sendQueued i (batch ++ [statement]) rest

def insertCanonicalBundles (bundles : List BlockBundle) : Connection Unit :=
  sendQueued env 0 [] (bundles.flatMap queueBundle)

def canonicalTipInTransaction : Connection (Option ChainTip) := do
  let row ← query env .tip .canonicalTip "read updated canonical tip"
  .lift ((decodeTip row).wrap "decode updated canonical tip")

def writeSyncState (update : CanonicalUpdate) (tip : Option ChainTip) : Connection Unit := do
  let number ← .lift (tip.mapM fun tip => postgresInt64 tip.number)
  let chainID ← .lift (postgresInt64 update.chainID)
  execute env .state
    (.upsertSyncState
      { chainID := chainID, lastIndexedNumber := number
        lastIndexedHash := tip.map fun tip => tip.hash.1
        lastSuccessfulSyncAt := microseconds update.syncedAt })
    "write canonical sync state"

/-- What an update does once it has the lock. -/
def replaceCanonicalRange (update : CanonicalUpdate) : Connection Unit := do
  rejectDifferentChain env update.chainID
  let replaceFrom ← .lift (postgresInt64 update.replaceFrom)
  let retainFrom ← .lift (postgresInt64 update.retainFrom)
  execute env .delete (.deleteCanonicalRange replaceFrom retainFrom)
    "delete replaced canonical range"
  validateRetainedParent env update
  insertCanonicalBundles env update.blocks
  let tip ← canonicalTipInTransaction env
  writeSyncState env update tip

def applyCanonicalUpdate (ord : RangeOrder UInt64 BlockBundle) (update : CanonicalUpdate)
    (lost : Bool) : Connection Unit := do
  .lift (validatePostgresUpdate ord update)
  transaction env .readCommitted "begin canonical update"
    (do
      Database.send (.lock (failure env .lock)) (Go.wrap "acquire canonical writer lock")
      replaceCanonicalRange env update)
    "commit canonical update" lost

/-! ## Queries -/

def canonicalTip : Connection (Option ChainTip) := do
  let row ← query env .query .canonicalTip "query canonical tip"
  .lift ((decodeTip row).wrap "decode canonical tip")

def canonicalHash (number : UInt64) : Connection Hash :=
  if number > maxInt64 then .lift (.error (.ofSentinel .notFound))
  else do
    let n ← .lift (postgresInt64 number)
    match ← query env .query (.canonicalHash n) s!"query canonical hash for block {number}" with
    | none => .lift (.error (.ofSentinel .notFound))
    | some hash => .lift ((decodeHash hash).wrap s!"decode canonical hash for block {number}")

/-- What `BlockByNumber` makes of its row. -/
def decodeBlockResult (number : UInt64) (row : BlockRow) (transactionHashes : List (List UInt8)) :
    Go BlockResult := do
  let block ← (row.decode env.wire).wrap s!"decode block {number}"
  let hashes ← decodeHashes number 0 transactionHashes
  Go.failIf ((hashes.length : ℤ) ≠ block.transactionCount)
    (.because .inconsistentData
      (s!"block {number} contains {hashes.length} transaction hashes, " ++
       s!"expected {block.transactionCount}"))
  return { block := block, transactionHashes := hashes }

def blockByNumber (number : UInt64) : Connection BlockResult :=
  if number > maxInt64 then .lift (.error (.ofSentinel .notFound))
  else do
    let n ← .lift (postgresInt64 number)
    match ← query env .query (.blockByNumber n) s!"query block {number}" with
    | none => .lift (.error (.ofSentinel .notFound))
    | some (row, hashes) => .lift (decodeBlockResult env number row hashes)

def queryEventsForTransaction (hash : Hash) : Connection (List Event) := do
  let rows ← query env .events (.eventsForTransaction hash.1)
    s!"query events for transaction {hash.hex}"
  .lift ((scanPostgresEvents rows).wrap s!"scan events for transaction {hash.hex}")

def transactionByHash (hash : Hash) : Connection TransactionResult :=
  transaction env .repeatableRead "begin transaction lookup"
    (do
      match ← query env .query (.transactionByHash hash.1) s!"query transaction {hash.hex}" with
      | none => .lift (.error (.ofSentinel .notFound))
      | some (row, blockHash) => do
        let transaction ← .lift ((row.decode env.wire blockHash).wrap
          s!"decode transaction {hash.hex}")
        let events ← queryEventsForTransaction env hash
        return { transaction := transaction, events := events })
    "commit transaction lookup" false

def canonicalCursorExists (cursor : EventCursor) : Connection Bool :=
  if cursor.blockNumber > maxInt64 then return false
  else do
    let number ← .lift (postgresInt64 cursor.blockNumber)
    query env .cursor (.cursorExists number cursor.blockHash.1) "validate event cursor"

/-- The page that events make. -/
def pageOf (query : EventQuery) (events : List Event) : EventPage :=
  if events.length ≤ query.limit.toNat then { events := events, nextCursor := none }
  else
    { events := events.take (events.length - 1)
      nextCursor := (events.take (events.length - 1)).getLast?.map Memory.cursorOf }

def queryAddressEventPage (q : EventQuery) : Connection EventPage :=
  if q.limit = 0 then return { events := [], nextCursor := none }
  else do
    let queryLimit ← .lift (postgresInt64 (q.limit.toUInt64 + 1))
    let before ← .lift (positionArguments q.before)
    let rows ← query env .events (.eventsByAddress q.address.1 before queryLimit)
      s!"query events for address {q.address.hex}"
    let events ← .lift ((scanPostgresEvents rows).wrap
      s!"scan events for address {q.address.hex}")
    return pageOf q events

def eventsByAddress (ctx : Context) (q : EventQuery) : Connection EventPage :=
  match ctx with
  | some err => .lift (.error err.fault)
  | none =>
    if q.limit > maxEventPageSize then
      .lift (.error (.because .invalidQuery
        s!"event page limit {q.limit} exceeds maximum {maxEventPageSize}"))
    else
      match q.before with
      | none => queryAddressEventPage env q
      | some cursor =>
        transaction env .repeatableRead "begin event cursor lookup"
          (do
            let valid ← canonicalCursorExists env cursor
            .lift (Go.failIf (valid = false) (.ofSentinel .staleCursor))
            queryAddressEventPage env q)
          "commit event cursor lookup" false

end Connection

/-! ## Calls of the store -/

/-- A method with its arguments. -/
inductive Method
  | canonicalTip
  | canonicalHash (number : UInt64)
  | blockByNumber (number : UInt64)
  | transactionByHash (hash : Hash)
  | eventsByAddress (ctx : Context) (query : EventQuery)
  | applyCanonicalUpdate (ord : RangeOrder UInt64 BlockBundle) (update : CanonicalUpdate)
      (lost : Bool)

/-- A method as it is called, with the failures it meets. -/
structure Call where
  method : Method
  env : PostgresEnv

/-- What a method returns. -/
inductive Answer
  | tip (tip : Option ChainTip)
  | hash (hash : Hash)
  | block (result : BlockResult)
  | transaction (result : TransactionResult)
  | events (page : EventPage)
  | applied

/-- **The call, statement by statement.** -/
def Call.program (c : Call) : Connection Answer :=
  match c.method with
  | .canonicalTip => do return .tip (← Connection.canonicalTip c.env)
  | .canonicalHash number => do return .hash (← Connection.canonicalHash c.env number)
  | .blockByNumber number => do return .block (← Connection.blockByNumber c.env number)
  | .transactionByHash hash => do return .transaction (← Connection.transactionByHash c.env hash)
  | .eventsByAddress ctx query => do
    return .events (← Connection.eventsByAddress c.env ctx query)
  | .applyCanonicalUpdate ord update lost => do
    Connection.applyCanonicalUpdate c.env ord update lost
    return .applied

/-- The same calls, with a commit that succeeds. -/
def committing (env : PostgresEnv) : PostgresEnv :=
  { env with fault := fun c => if c = .commit then none else env.fault c }

/-- **The call as one step** on the tables: what it returns, and the
tables it leaves. -/
def Call.atomic (c : Call) (T : Tables) : Go Answer × Tables :=
  match c.method with
  | .canonicalTip => ((Postgres.canonicalTip c.env T).map .tip, T)
  | .canonicalHash number => ((Postgres.canonicalHash c.env T number).map .hash, T)
  | .blockByNumber number => ((Postgres.blockByNumber c.env T number).map .block, T)
  | .transactionByHash hash => ((Postgres.transactionByHash c.env T hash).map .transaction, T)
  | .eventsByAddress ctx query => ((Postgres.eventsByAddress c.env T ctx query).map .events, T)
  | .applyCanonicalUpdate ord update lost =>
    ((Postgres.applyCanonicalUpdate c.env ord update T).1.map fun _ => .applied,
      (Postgres.applyCanonicalUpdate (if lost then committing c.env else c.env) ord update T).2)

end Postgres

end EthIndexer
