import EthIndexer.Store.Model.Validate
/-!
# The in-memory store

`Memory` keeps the canonical bundles in one map and answers every query
from it. Each method holds the lock from its first read to its last
write, so a method is one step. A method that ranges over the map takes
the order it happens to be visited in, and a method that asks its context
takes what the context answers.

Copies are deep: `cloneBundle` hands out no pointer the store keeps. As
values a copy differs from its source in one thing only, an empty slice
comes out nil.
-/

namespace EthIndexer

/-! ## Copies -/

/-- `append([]T(nil), s...)`. -/
def cloneSlice {α : Type} (s : Slice α) : Slice α :=
  match s.elems with
  | [] => none
  | x :: xs => some (x :: xs)

def cloneTransaction (t : Transaction) : Transaction := { t with input := cloneSlice t.input }

def cloneEvent (e : Event) : Event :=
  { e with topics := cloneSlice e.topics, data := cloneSlice e.data }

def cloneBundle (b : BlockBundle) : BlockBundle where
  block := b.block
  transactions := b.transactions.map cloneTransaction
  events := b.events.map cloneEvent

/-! ## The store -/

structure Memory where
  chainID : UInt64
  bundles : BundleMap
  lastSyncedAt : Time

/-- `NewMemory`. -/
def Memory.new : Memory := { chainID := 0, bundles := ∅, lastSyncedAt := 0 }

namespace Memory

variable (ord : RangeOrder UInt64 BlockBundle) (ctx : Context) (m : Memory)

/-- The loop of `highestBundle`: the highest number so far, if any. -/
def highest (numbers : List UInt64) : Option UInt64 :=
  numbers.foldl (fun best number =>
    match best with
    | none => some number
    | some highest => if number > highest then some number else some highest) none

def highestBundle (bundles : BundleMap) : Option (UInt64 × BlockBundle) :=
  (highest (ord.keys bundles)).map fun number => (number, bundles.get number)

def canonicalTip : Go (Option ChainTip) :=
  match ctx with
  | some err => .error err.fault
  | none => .ok ((highestBundle ord m.bundles).map fun (number, bundle) =>
      { number := number, hash := bundle.block.hash })

def canonicalHash (number : UInt64) : Go Hash :=
  match ctx with
  | some err => .error err.fault
  | none =>
    match m.bundles.get? number with
    | none => .error (.ofSentinel .notFound)
    | some bundle => .ok bundle.block.hash

def cloneBundles (source : BundleMap) : BundleMap :=
  (ord.keys source).foldl (fun cloned number => cloned.set number (cloneBundle (source.get number)))
    ∅

/-- The map an update leads to, before it is checked. -/
def candidate (update : CanonicalUpdate) : BundleMap :=
  let cloned := cloneBundles ord m.bundles
  let kept := cloned.deleteWhere
    (fun number => decide (number ≥ update.replaceFrom ∨ number < update.retainFrom))
    (ord.keys cloned)
  kept.setAll (fun bundle => bundle.block.number) (update.blocks.map cloneBundle)

/-- `ApplyCanonicalUpdate`: the answer and the store it leaves. -/
def applyCanonicalUpdate (update : CanonicalUpdate) : Go Unit × Memory :=
  match ctx with
  | some err => (.error err.fault, m)
  | none =>
    if update.chainID = 0 then
      (.error (.because .invalidCanonicalUpdate "chain ID must be greater than zero"), m)
    else if update.retainFrom > update.replaceFrom then
      (.error (.because .invalidCanonicalUpdate
        "retain-from block cannot exceed replace-from block"), m)
    else
      match validateReplacement update with
      | .error err => (.error err, m)
      | .ok () =>
        if m.chainID ≠ 0 ∧ m.chainID ≠ update.chainID then
          (.error (.because .invalidCanonicalUpdate
            s!"store chain ID is {m.chainID}, update chain ID is {update.chainID}"), m)
        else
          match validateCanonicalBundles ord (candidate ord m update) with
          | .error err => (.error err, m)
          | .ok () =>
            (.ok (), { chainID := update.chainID, bundles := candidate ord m update,
                       lastSyncedAt := update.syncedAt })

/-! ## Queries -/

def blockByNumber (number : UInt64) : Go BlockResult :=
  match ctx with
  | some err => .error err.fault
  | none =>
    match m.bundles.get? number with
    | none => .error (.ofSentinel .notFound)
    | some bundle =>
      .ok { block := bundle.block, transactionHashes := bundle.transactions.map Transaction.hash }

/-- Events in ascending log order. -/
def byLogIndex (left right : Event) : Bool := decide (left.logIndex < right.logIndex)

def transactionByHash (hash : Hash) : Go TransactionResult :=
  match ctx with
  | some err => .error err.fault
  | none =>
    -- the first match in the order the map is visited in
    match (ord.keys m.bundles).findSome? fun number =>
        ((m.bundles.get number).transactions.find? fun t => t.hash = hash).map fun t =>
          (m.bundles.get number, t) with
    | none => .error (.ofSentinel .notFound)
    | some (bundle, transaction) =>
      .ok { transaction := cloneTransaction transaction
            events := sortSlice byLogIndex
              ((bundle.events.filter fun e => e.transactionHash = hash).map cloneEvent) }

def eventBeforeCursor (e : Event) (cursor : Option EventCursor) : Bool :=
  match cursor with
  | none => true
  | some cursor =>
    if e.blockNumber ≠ cursor.blockNumber then decide (e.blockNumber < cursor.blockNumber)
    else decide (e.logIndex < cursor.logIndex)

/-- Events from the newest to the oldest. -/
def newestFirst (left right : Event) : Bool :=
  if left.blockNumber ≠ right.blockNumber then decide (left.blockNumber > right.blockNumber)
  else decide (left.logIndex > right.logIndex)

/-- The cursor of the last event of a page. -/
def cursorOf (e : Event) : EventCursor :=
  { blockNumber := e.blockNumber, blockHash := e.blockHash, logIndex := e.logIndex }

/-- The events a query selects, in the order the map is visited in. -/
def selectedEvents (query : EventQuery) : List Event :=
  (ord.keys m.bundles).flatMap fun number =>
    ((m.bundles.get number).events.filter fun e =>
      decide (e.address = query.address) && eventBeforeCursor e query.before).map cloneEvent

def eventsByAddress (query : EventQuery) : Go EventPage :=
  match ctx with
  | some err => .error err.fault
  | none =>
    if query.limit > maxEventPageSize then
      .error (.because .invalidQuery
        s!"event page limit {query.limit} exceeds maximum {maxEventPageSize}")
    else if query.before.any fun cursor =>
        (m.bundles.get? cursor.blockNumber).all fun bundle =>
          decide (bundle.block.hash ≠ cursor.blockHash) then
      .error (.ofSentinel .staleCursor)
    else
      let events := sortSlice newestFirst (selectedEvents ord m query)
      if query.limit = 0 ∨ events.length = 0 then
        .ok { events := [], nextCursor := none }
      else if events.length ≤ query.limit.toNat then
        .ok { events := events, nextCursor := none }
      else
        let pageEvents := events.take query.limit.toNat
        .ok { events := pageEvents, nextCursor := pageEvents.getLast?.map cursorOf }

end Memory

end EthIndexer
