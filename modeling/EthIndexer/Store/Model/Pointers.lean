import EthIndexer.Common.Heap
import EthIndexer.Store.Model.Memory
/-!
# The in-memory store with its pointers

The records of `internal/domain` as they are in memory: a `*big.Int`, a
`*common.Address` and a slice are nil or an address, and a record that is
assigned takes its addresses along. The methods of `Memory` are programs
on that memory, and the copies are those of the source.

A function that only reads is the one on values, at the values the memory
holds. A record that a method makes for its answer and keeps nowhere is
held by value, and so is the map, which never leaves the store.

Callers are what else runs in the process. A step of theirs writes to an
address they have or calls the store (`Reached`); the calls are recorded
as values, to be compared with the store on values.
-/

namespace EthIndexer

namespace Pointers

/-! ## Records -/

structure Block where
  number : UInt64
  hash : Hash
  parentHash : Hash
  timestamp : UInt64
  gasLimit : UInt64
  gasUsed : UInt64
  baseFeePerGas : Option ℕ
  transactionCount : ℤ
  indexedAt : Time
  deriving Inhabited

structure Transaction where
  hash : Hash
  blockNumber : UInt64
  blockHash : Hash
  index : UInt32
  type : UInt8
  nonce : UInt64
  sender : Address
  recipient : Option ℕ
  value : Option ℕ
  gasLimit : UInt64
  gasPrice : Option ℕ
  maxFeePerGas : Option ℕ
  maxPriorityFeePerGas : Option ℕ
  input : Option ℕ

structure Event where
  blockNumber : UInt64
  blockHash : Hash
  transactionHash : Hash
  transactionIndex : UInt32
  logIndex : UInt32
  address : Address
  topics : Option ℕ
  data : Option ℕ

structure BlockBundle where
  block : Block
  transactions : Option ℕ
  events : Option ℕ
  deriving Inhabited

structure CanonicalUpdate where
  chainID : UInt64
  replaceFrom : UInt64
  retainFrom : UInt64
  blocks : Option ℕ
  syncedAt : Time

structure BlockResult where
  block : Block
  transactionHashes : ℕ

structure TransactionResult where
  transaction : Transaction
  events : ℕ

structure EventPage where
  events : ℕ
  nextCursor : Option EventCursor

/-! ## Memory -/

/-- What an address holds. -/
inductive Cell
  | bigInt (n : ℤ)
  | address (a : Address)
  | bytes (l : List UInt8)
  | hashes (l : List Hash)
  | transactions (l : List Transaction)
  | events (l : List Event)
  | bundles (l : List BlockBundle)

abbrev Prog := HeapM Cell

/-! An address is only used at the type of its pointer. -/

def Cell.asBigInt : Cell → ℤ
  | .bigInt n => n
  | _ => 0

def Cell.asAddress : Cell → Address
  | .address a => a
  | _ => default

def Cell.asBytes : Cell → List UInt8
  | .bytes l => l
  | _ => []

def Cell.asHashes : Cell → List Hash
  | .hashes l => l
  | _ => []

def Cell.asTransactions : Cell → List Transaction
  | .transactions l => l
  | _ => []

def Cell.asEvents : Cell → List Event
  | .events l => l
  | _ => []

def Cell.asBundles : Cell → List BlockBundle
  | .bundles l => l
  | _ => []

/-- The elements of a slice; a nil slice has none. -/
def elems {α : Type} (read : Cell → List α) (s : Option ℕ) (h : Heap Cell) : List α :=
  s.elim [] fun a => h.deref read [] a

def loadElems {α : Type} (read : Cell → List α) (s : Option ℕ) : Prog (List α) :=
  Heap.look (elems read s)

/-! ## Values -/

/-- A pointer to a value without pointers. -/
def pointer {α : Type} (read : Cell → α) (zero : α) : Shape Cell (Option ℕ) (Option α) :=
  (Shape.ref read zero (.plain Cell α)).option

/-- A slice of records. -/
def slice {P A : Type} (read : Cell → List P) (S : Shape Cell P A) :
    Shape Cell (Option ℕ) (List A) :=
  ((Shape.ref read [] S.list).option).record id fun _ s => Slice.elems s

def Block.shape : Shape Cell Block EthIndexer.Block :=
  (pointer Cell.asBigInt 0).record Block.baseFeePerGas fun b baseFeePerGas =>
    { b with baseFeePerGas := baseFeePerGas }

/-! The parts of a record are those with pointers in them. -/

abbrev Transaction.Parts := Option ℕ × Option ℕ × Option ℕ × Option ℕ × Option ℕ × Option ℕ

def Transaction.parts (t : Transaction) : Transaction.Parts :=
  (t.recipient, t.value, t.gasPrice, t.maxFeePerGas, t.maxPriorityFeePerGas, t.input)

def Transaction.shape : Shape Cell Transaction EthIndexer.Transaction :=
  ((pointer Cell.asAddress default).pair ((pointer Cell.asBigInt 0).pair
    ((pointer Cell.asBigInt 0).pair ((pointer Cell.asBigInt 0).pair
      ((pointer Cell.asBigInt 0).pair (pointer Cell.asBytes [])))))).record Transaction.parts
    fun t (recipient, value, gasPrice, maxFeePerGas, maxPriorityFeePerGas, input) =>
      { t with recipient, value, gasPrice, maxFeePerGas, maxPriorityFeePerGas, input }

def Event.parts (e : Event) : Option ℕ × Option ℕ := (e.topics, e.data)

def Event.shape : Shape Cell Event EthIndexer.Event :=
  ((pointer Cell.asHashes []).pair (pointer Cell.asBytes [])).record Event.parts
    fun e (topics, data) => { e with topics, data }

def BlockBundle.parts (b : BlockBundle) : Block × Option ℕ × Option ℕ :=
  (b.block, b.transactions, b.events)

def BlockBundle.shape : Shape Cell BlockBundle EthIndexer.BlockBundle :=
  (Block.shape.pair ((slice Cell.asTransactions Transaction.shape).pair
    (slice Cell.asEvents Event.shape))).record BlockBundle.parts
    fun _ (block, transactions, events) => { block, transactions, events }

def CanonicalUpdate.shape : Shape Cell CanonicalUpdate EthIndexer.CanonicalUpdate :=
  (slice Cell.asBundles BlockBundle.shape).record CanonicalUpdate.blocks fun u blocks =>
    { u with blocks }

/-- The map of the store. -/
abbrev BundleMap := GoMap UInt64 BlockBundle

def bundleMap : Shape Cell BundleMap EthIndexer.BundleMap := BlockBundle.shape.map UInt64

def BlockResult.shape : Shape Cell BlockResult EthIndexer.BlockResult :=
  (Block.shape.pair (Shape.ref Cell.asHashes [] (.plain Cell (List Hash)))).record
    (fun r => (r.block, r.transactionHashes))
    fun _ (block, transactionHashes) => { block, transactionHashes }

def TransactionResult.shape : Shape Cell TransactionResult EthIndexer.TransactionResult :=
  (Transaction.shape.pair (Shape.ref Cell.asEvents [] Event.shape.list)).record
    (fun r => (r.transaction, r.events)) fun _ (transaction, events) => { transaction, events }

def EventPage.shape : Shape Cell EventPage EthIndexer.EventPage :=
  (Shape.ref Cell.asEvents [] Event.shape.list).record EventPage.events fun p events =>
    { p with events }

/-! ## Copies -/

/-- `cloneBigInt` and `cloneAddress`: nil, or a new cell with the same in
it. -/
def clonePointer {α : Type} (read : Cell → α) (zero : α) (store : α → Cell) (value : Option ℕ) :
    Prog (Option ℕ) :=
  value.mapM fun a => do Heap.alloc (store (← Heap.load read zero a))

def cloneBigInt : Option ℕ → Prog (Option ℕ) := clonePointer Cell.asBigInt 0 .bigInt

def cloneAddress : Option ℕ → Prog (Option ℕ) := clonePointer Cell.asAddress default .address

/-- `append` to a nil slice: nothing is allocated for nothing. -/
def appendNil {α : Type} (store : List α → Cell) : List α → Prog (Option ℕ)
  | [] => return none
  | x :: xs => return some (← Heap.alloc (store (x :: xs)))

/-- `append([]T(nil), s...)`. -/
def cloneSlice {α : Type} (read : Cell → List α) (store : List α → Cell) (s : Option ℕ) :
    Prog (Option ℕ) := do
  appendNil store (← loadElems read s)

def cloneBlock (block : Block) : Prog Block := do
  return { block with baseFeePerGas := ← cloneBigInt block.baseFeePerGas }

def cloneTransaction (transaction : Transaction) : Prog Transaction := do
  let recipient ← cloneAddress transaction.recipient
  let value ← cloneBigInt transaction.value
  let gasPrice ← cloneBigInt transaction.gasPrice
  let maxFeePerGas ← cloneBigInt transaction.maxFeePerGas
  let maxPriorityFeePerGas ← cloneBigInt transaction.maxPriorityFeePerGas
  let input ← cloneSlice Cell.asBytes .bytes transaction.input
  return { transaction with
    recipient, value, gasPrice, maxFeePerGas, maxPriorityFeePerGas, input }

def cloneEvent (event : Event) : Prog Event := do
  let topics ← cloneSlice Cell.asHashes .hashes event.topics
  let data ← cloneSlice Cell.asBytes .bytes event.data
  return { event with topics, data }

/-- The arrays are made last here; nothing has their addresses before. -/
def cloneBundle (bundle : BlockBundle) : Prog BlockBundle := do
  let block ← cloneBlock bundle.block
  let transactions ← (← loadElems Cell.asTransactions bundle.transactions).mapM cloneTransaction
  let transactions ← Heap.alloc (.transactions transactions)
  let events ← (← loadElems Cell.asEvents bundle.events).mapM cloneEvent
  let events ← Heap.alloc (.events events)
  return { block, transactions := some transactions, events := some events }

/-! ## The store -/

structure Memory where
  chainID : UInt64
  bundles : BundleMap
  lastSyncedAt : Time

def Memory.shape : Shape Cell Memory EthIndexer.Memory :=
  bundleMap.record Memory.bundles fun m bundles => { m with bundles }

/-- `NewMemory`. -/
def Memory.new : Memory := { chainID := 0, bundles := ∅, lastSyncedAt := 0 }

namespace Memory

variable (ord : RangeOrder UInt64 EthIndexer.BlockBundle) (ctx : Context) (m : Memory)

/-- What `range` visits. -/
def visited (bundles : BundleMap) (h : Heap Cell) : List UInt64 :=
  ord.keys (bundleMap.view h bundles)

def canonicalTip : Prog (Go (Option ChainTip)) := do
  return (← Memory.shape.load m).canonicalTip ord ctx

def canonicalHash (number : UInt64) : Prog (Go Hash) := do
  return (← Memory.shape.load m).canonicalHash ctx number

/-- The body of the loop of `cloneBundles`. -/
def cloneInto (source cloned : BundleMap) (number : UInt64) : Prog BundleMap := do
  return cloned.set number (← cloneBundle (source.get number))

def cloneBundles (source : BundleMap) : Prog BundleMap := do
  (← Heap.look (visited ord source)).foldlM (cloneInto source) ∅

def candidate (update : CanonicalUpdate) : Prog BundleMap := do
  let cloned ← cloneBundles ord m.bundles
  let numbers ← Heap.look (visited ord cloned)
  let kept := cloned.deleteWhere
    (fun number => decide (number ≥ update.replaceFrom ∨ number < update.retainFrom)) numbers
  let blocks ← (← loadElems Cell.asBundles update.blocks).mapM cloneBundle
  return kept.setAll (fun bundle => bundle.block.number) blocks

/-- The end of `ApplyCanonicalUpdate`, by what the last check says. -/
def commit (update : CanonicalUpdate) (bundles : BundleMap) : Go Unit → Go Unit × Memory
  | .error err => (.error err, m)
  | .ok () => (.ok (), { chainID := update.chainID, bundles := bundles,
                         lastSyncedAt := update.syncedAt })

/-- The part of `ApplyCanonicalUpdate` that holds the lock, by what the
check before it says. -/
def replace (update : CanonicalUpdate) : Go Unit → Prog (Go Unit × Memory)
  | .error err => return (.error err, m)
  | .ok () =>
    if m.chainID ≠ 0 ∧ m.chainID ≠ update.chainID then
      return (.error (.because .invalidCanonicalUpdate
        s!"store chain ID is {m.chainID}, update chain ID is {update.chainID}"), m)
    else do
      let bundles ← candidate ord m update
      return commit m update bundles (validateCanonicalBundles ord (← bundleMap.load bundles))

/-- `ApplyCanonicalUpdate`: the answer and the store it leaves. -/
def applyCanonicalUpdate (update : CanonicalUpdate) : Prog (Go Unit × Memory) :=
  match ctx with
  | some err => return (.error err.fault, m)
  | none =>
    if update.chainID = 0 then
      return (.error (.because .invalidCanonicalUpdate "chain ID must be greater than zero"), m)
    else if update.retainFrom > update.replaceFrom then
      return (.error (.because .invalidCanonicalUpdate
        "retain-from block cannot exceed replace-from block"), m)
    else do
      replace ord m update (validateReplacement (← CanonicalUpdate.shape.load update))

/-! ## Queries -/

def blockByNumber (number : UInt64) : Prog (Go BlockResult) :=
  match ctx with
  | some err => return .error err.fault
  | none =>
    match m.bundles.get? number with
    | none => return .error (.ofSentinel .notFound)
    | some bundle => do
      let transactions ← loadElems Cell.asTransactions bundle.transactions
      let hashes ← Heap.alloc (.hashes (transactions.map Transaction.hash))
      let block ← cloneBlock bundle.block
      return .ok { block := block, transactionHashes := hashes }

/-- Events in ascending log order. -/
def byLogIndex (left right : Event) : Bool := decide (left.logIndex < right.logIndex)

/-- The first match in the order the map is visited in. -/
def findTransaction (hash : Hash) (h : Heap Cell) : Option (BlockBundle × Transaction) :=
  (visited ord m.bundles h).findSome? fun number =>
    ((elems Cell.asTransactions (m.bundles.get number).transactions h).find? fun t =>
      t.hash = hash).map fun t => (m.bundles.get number, t)

/-- The answer of `TransactionByHash`, by what the search has found. -/
def transactionAnswer (hash : Hash) :
    Option (BlockBundle × Transaction) → Prog (Go TransactionResult)
  | none => return .error (.ofSentinel .notFound)
  | some (bundle, transaction) => do
    let found ← loadElems Cell.asEvents bundle.events
    let events ← (found.filter fun e => e.transactionHash = hash).mapM cloneEvent
    let transaction ← cloneTransaction transaction
    let events ← Heap.alloc (.events (sortSlice byLogIndex events))
    return .ok { transaction := transaction, events := events }

def transactionByHash (hash : Hash) : Prog (Go TransactionResult) :=
  match ctx with
  | some err => return .error err.fault
  | none => do transactionAnswer hash (← Heap.look (findTransaction ord m hash))

def eventBeforeCursor (e : Event) (cursor : Option EventCursor) : Bool :=
  match cursor with
  | none => true
  | some cursor =>
    if e.blockNumber ≠ cursor.blockNumber then decide (e.blockNumber < cursor.blockNumber)
    else decide (e.logIndex < cursor.logIndex)

/-- Events from the newest to the oldest. -/
def newestFirst (left right : Event) : Bool :=
  if left.blockNumber ≠ right.blockNumber then decide (left.blockNumber > right.blockNumber)
  else decide (left.logIndex > right.logIndex)

def cursorOf (e : Event) : EventCursor :=
  { blockNumber := e.blockNumber, blockHash := e.blockHash, logIndex := e.logIndex }

/-- The events a query selects, in the order the map is visited in. -/
def selectedEvents (query : EventQuery) (h : Heap Cell) : List Event :=
  (visited ord m.bundles h).flatMap fun number =>
    (elems Cell.asEvents (m.bundles.get number).events h).filter fun e =>
      decide (e.address = query.address) && eventBeforeCursor e query.before

/-- The page of sorted events that a limit allows. -/
def pageOf (limit : UInt32) (events : List Event) : Prog (Go EventPage) :=
  if limit = 0 ∨ events.length = 0 then do
    return .ok { events := ← Heap.alloc (.events []), nextCursor := none }
  else if events.length ≤ limit.toNat then do
    return .ok { events := ← Heap.alloc (.events events), nextCursor := none }
  else do
    let pageEvents := events.take limit.toNat
    return .ok { events := ← Heap.alloc (.events pageEvents)
                 nextCursor := pageEvents.getLast?.map cursorOf }

def eventsByAddress (query : EventQuery) : Prog (Go EventPage) :=
  match ctx with
  | some err => return .error err.fault
  | none =>
    if query.limit > maxEventPageSize then
      return .error (.because .invalidQuery
        s!"event page limit {query.limit} exceeds maximum {maxEventPageSize}")
    else if query.before.any fun cursor =>
        (m.bundles.get? cursor.blockNumber).all fun bundle =>
          decide (bundle.block.hash ≠ cursor.blockHash) then
      return .error (.ofSentinel .staleCursor)
    else do
      let selected ← Heap.look (selectedEvents ord m query)
      pageOf query.limit (sortSlice newestFirst (← selected.mapM cloneEvent))

end Memory

end Pointers

/-! ## Callers -/

/-- A call of a method, with an update of either kind. -/
inductive StoreCall (U : Type)
  | canonicalTip
  | canonicalHash (number : UInt64)
  | applyCanonicalUpdate (update : U)
  | blockByNumber (number : UInt64)
  | transactionByHash (hash : Hash)
  | eventsByAddress (query : EventQuery)

/-- What a call returns, with records of either kind. -/
inductive StoreReply (B T P : Type)
  | tip (x : Go (Option ChainTip))
  | hash (x : Go Hash)
  | applied (x : Go Unit)
  | block (x : Go B)
  | transaction (x : Go T)
  | page (x : Go P)

abbrev Memory.Reply := StoreReply BlockResult TransactionResult EventPage

/-- A call on values: the answer and the store it leaves. -/
def Memory.call (ord : RangeOrder UInt64 BlockBundle) (ctx : Context) (m : Memory) :
    StoreCall CanonicalUpdate → Memory.Reply × Memory
  | .canonicalTip => (.tip (m.canonicalTip ord ctx), m)
  | .canonicalHash number => (.hash (m.canonicalHash ctx number), m)
  | .applyCanonicalUpdate update =>
    let answer := m.applyCanonicalUpdate ord ctx update
    (.applied answer.1, answer.2)
  | .blockByNumber number => (.block (m.blockByNumber ctx number), m)
  | .transactionByHash hash => (.transaction (m.transactionByHash ord ctx hash), m)
  | .eventsByAddress query => (.page (m.eventsByAddress ord ctx query), m)

namespace Pointers

abbrev Call := StoreCall CanonicalUpdate

abbrev Reply := StoreReply BlockResult TransactionResult EventPage

def Call.view (h : Heap Cell) : Call → StoreCall EthIndexer.CanonicalUpdate
  | .canonicalTip => .canonicalTip
  | .canonicalHash number => .canonicalHash number
  | .applyCanonicalUpdate update => .applyCanonicalUpdate (CanonicalUpdate.shape.view h update)
  | .blockByNumber number => .blockByNumber number
  | .transactionByHash hash => .transactionByHash hash
  | .eventsByAddress query => .eventsByAddress query

/-- The addresses that a call passes on. -/
def Call.cells (h : Heap Cell) : Call → Set ℕ
  | .applyCanonicalUpdate update => CanonicalUpdate.shape.cells h update
  | _ => ∅

def Reply.view (h : Heap Cell) : Reply → EthIndexer.Memory.Reply
  | .tip x => .tip x
  | .hash x => .hash x
  | .applied x => .applied x
  | .block x => .block ((BlockResult.shape.except Fault).view h x)
  | .transaction x => .transaction ((TransactionResult.shape.except Fault).view h x)
  | .page x => .page ((EventPage.shape.except Fault).view h x)

/-- The addresses that an answer hands out. -/
def Reply.cells (h : Heap Cell) : Reply → Set ℕ
  | .block x => (BlockResult.shape.except Fault).cells h x
  | .transaction x => (TransactionResult.shape.except Fault).cells h x
  | .page x => (EventPage.shape.except Fault).cells h x
  | _ => ∅

def Memory.call (ord : RangeOrder UInt64 EthIndexer.BlockBundle) (ctx : Context) (m : Memory) :
    Call → Prog (Reply × Memory)
  | .canonicalTip => do return (.tip (← canonicalTip ord ctx m), m)
  | .canonicalHash number => do return (.hash (← canonicalHash ctx m number), m)
  | .applyCanonicalUpdate update => do
    let answer ← applyCanonicalUpdate ord ctx m update
    return (.applied answer.1, answer.2)
  | .blockByNumber number => do return (.block (← blockByNumber ctx m number), m)
  | .transactionByHash hash => do return (.transaction (← transactionByHash ord ctx m hash), m)
  | .eventsByAddress query => do return (.page (← eventsByAddress ord ctx m query), m)

/-- The memory of the process, the store in it, and the addresses that are
known outside of the store. -/
structure State where
  heap : Heap Cell
  memory : Memory
  known : Set ℕ

/-- A call and its answer, as values at the time of each. -/
structure Entry where
  ord : RangeOrder UInt64 EthIndexer.BlockBundle
  ctx : Context
  call : StoreCall EthIndexer.CanonicalUpdate
  reply : EthIndexer.Memory.Reply

/-- A call of the store, as values and with what it leaves. -/
def State.called (s : State) (ord : RangeOrder UInt64 EthIndexer.BlockBundle) (ctx : Context)
    (c : Call) : Entry × State :=
  let answer := s.memory.call ord ctx c s.heap
  ({ ord := ord, ctx := ctx, call := c.view s.heap, reply := answer.1.1.view answer.2 },
    { heap := answer.2, memory := answer.1.2, known := s.known ∪ answer.1.1.cells answer.2 })

/-- **The store among its callers.** They allocate, write what they like to
any address they know, and call the store with what they know; whatever an
answer goes through, they know from then on. -/
inductive Reached : List Entry → State → Prop
  | new : Reached [] ⟨[], .new, ∅⟩
  | alloc {t : List Entry} {s : State} (h : Reached t s) (v : Cell) :
      Reached t { s with heap := s.heap ++ [v], known := insert s.heap.length s.known }
  | write {t : List Entry} {s : State} {a : ℕ} (h : Reached t s) (ha : a ∈ s.known) (v : Cell) :
      Reached t { s with heap := s.heap.set a v }
  | call {t : List Entry} {s : State} {c : Call} (h : Reached t s)
      (ord : RangeOrder UInt64 EthIndexer.BlockBundle) (ctx : Context)
      (hc : c.cells s.heap ⊆ s.known) :
      Reached (t ++ [(s.called ord ctx c).1]) (s.called ord ctx c).2

/-- One more call on values. -/
def Entry.replay (p : List EthIndexer.Memory.Reply × EthIndexer.Memory) (e : Entry) :
    List EthIndexer.Memory.Reply × EthIndexer.Memory :=
  let answer := p.2.call e.ord e.ctx e.call
  (p.1 ++ [answer.1], answer.2)

/-- The same calls on values: the answers, and the store they leave. -/
def replayed (t : List Entry) : List EthIndexer.Memory.Reply × EthIndexer.Memory :=
  t.foldl Entry.replay ([], .new)

end Pointers

end EthIndexer
