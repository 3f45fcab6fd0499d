import EthIndexer.Common.Session
import EthIndexer.Indexer.Model.Fetcher
import Mathlib.Algebra.GroupWithZero.Nat
/-!
# One synchronization

`SyncOnce` reads the head, plans how far the stored window can be kept,
fetches what is missing and hands the store one update. Between its calls
other writers of the store may come in, so it is a session: its requests
are the calls on the store, and everything else it meets is in the `Env`.
-/

namespace EthIndexer

/-! ## The store as the syncer sees it -/

/-- The calls of `store.IndexStore`. -/
inductive Request
  | canonicalTip
  | canonicalHash (number : UInt64)
  | applyCanonicalUpdate (update : CanonicalUpdate)

abbrev Response : Request → Type
  | .canonicalTip => Go (Option ChainTip)
  | .canonicalHash _ => Go Hash
  | .applyCanonicalUpdate _ => Go Unit

/-- `store.IndexStore` over a state. -/
structure IndexStore (σ : Type) where
  canonicalTip : σ → Go (Option ChainTip)
  canonicalHash : UInt64 → σ → Go Hash
  applyCanonicalUpdate : CanonicalUpdate → σ → Go Unit × σ

/-- The answer to a request, and the state it leaves. -/
def IndexStore.handle {σ : Type} (S : IndexStore σ) : (r : Request) → σ → Response r × σ
  | .canonicalTip, s => (S.canonicalTip s, s)
  | .canonicalHash number, s => (S.canonicalHash number s, s)
  | .applyCanonicalUpdate update, s => S.applyCanonicalUpdate update s

/-- A session with the store. -/
abbrev Sync (α : Type) := Session Request Response Fault α

/-! ## Configuration and result -/

structure Config where
  chainID : UInt64
  blockWindow : UInt64
  headMode : HeadMode
  rpcConcurrency : ℤ

structure Syncer where
  fetcher : Option Fetcher
  /-- The chain reader is set. -/
  chain : Bool
  /-- The index store is set. -/
  store : Bool
  config : Config

inductive SyncMode
  | initialLoad
  | current
  | append
  | fullReload
  | reorg
  deriving DecidableEq

structure ReorgResult where
  commonAncestor : Option ChainTip
  replacedFrom : UInt64
  replacedTo : UInt64
  replacedBlockCount : UInt64
  deriving DecidableEq

structure ReplacementPlan where
  replaceFrom : UInt64
  mode : SyncMode
  reorg : Option ReorgResult
  deriving DecidableEq

structure SyncResult where
  head : ChainTip
  storedTip : Option ChainTip
  mode : SyncMode
  /-- The lower bound of the retained canonical window. -/
  fromBlock : UInt64
  /-- The first block fetched or removed during this cycle. -/
  replaceFrom : UInt64
  blockCount : ℕ
  transactionCount : ℕ
  eventCount : ℕ
  syncedAt : Time
  reorg : Option ReorgResult
  deriving DecidableEq

/-- `NewSyncer` over `NewFetcher` for the same chain. -/
def Syncer.new (config : Config) : Syncer where
  fetcher := some { chainID := some config.chainID.toNat }
  chain := true
  store := true
  config := config

def Syncer.validateSyncOnceConfig (s : Syncer) : Go Unit := do
  match s.fetcher with
  | none => .error (.because .invalidSyncDependency "fetcher is required")
  | some fetcher =>
    Go.failIf (s.chain = false) (.because .invalidSyncDependency "chain reader is required")
    Go.failIf (s.store = false) (.because .invalidSyncDependency "index store is required")
    Go.failIf (s.config.chainID = 0)
      (.because .invalidSyncConfig "chain ID must be greater than zero")
    Go.failIf (asUint64 fetcher.chainID ≠ some s.config.chainID)
      (.because .invalidSyncDependency "fetcher chain ID does not match sync config")
    Go.failIf (s.config.blockWindow = 0 ∨ s.config.blockWindow > maxBlockWindow)
      (.because .invalidSyncConfig s!"block window must be between 1 and {maxBlockWindow}")
    Go.failIf (s.config.rpcConcurrency < 1)
      (.because .invalidSyncConfig "RPC concurrency must be greater than zero")
    match s.config.headMode with
    | .unsupported _ quoted =>
      .error (.because .invalidSyncConfig s!"unsupported head mode {quoted}")
    | _ => .ok ()

/-! ## The head -/

def HeadMode.selector : HeadMode → Selector
  | .safe => .safe
  | .finalized => .finalized
  | _ => .latest

def Config.selectedHead (config : Config) (node : Node) : Go Header := do
  match ← (Go.ofExternal (node.headerByNumber config.headMode.selector)).wrap
      s!"read {config.headMode.text} head" with
  | none => .error (.because .inconsistentBlockData s!"{config.headMode.text} head is nil")
  | some header => return header

def validHeaderNumber (header : Header) : Go UInt64 :=
  match asUint64 header.number with
  | some number => .ok number
  | none => .error (.because .inconsistentBlockData
      s!"selected head has invalid block number {bigIntText header.number}")

def windowStart (head blockWindow : UInt64) : UInt64 :=
  if blockWindow - 1 > head then 0 else head - (blockWindow - 1)

/-! ## The plan -/

/-- The stored hash of a height, or the store's error, for the caller to
look at. -/
def storedHash (storedTip : ChainTip) (number : UInt64) : Sync (Go Hash) :=
  if number = storedTip.number then pure (.ok storedTip.hash)
  else .request (.canonicalHash number) fun answer => .ok answer

def chainHash (node : Node) (number headNumber : UInt64) (headHash : Hash) : Go Hash :=
  if number = headNumber then .ok headHash
  else do
    match ← (Go.ofExternal (node.headerByNumber (.number number))).wrap
        s!"read canonical header {number}" with
    | none => .error (.because .inconsistentBlockData s!"canonical header {number} is nil")
    | some header =>
      let actualNumber ← validHeaderNumber header
      Go.failIf (actualNumber ≠ number) (.because .inconsistentBlockData
        s!"requested header {number}, received header {actualNumber}")
      return header.hash

/-- What the body of the loop of `commonAncestor` finds at a height. -/
inductive Probe
  /-- The store has no block there. -/
  | missing
  /-- The store and the node have the same block. -/
  | found (ancestor : ChainTip)
  | differs

/-- The body of the loop. -/
def probe (node : Node) (storedTip : ChainTip) (headNumber : UInt64) (headHash : Hash)
    (number : UInt64) : Sync Probe := do
  match ← storedHash storedTip number with
  | .error err =>
    if err.Is .notFound then return .missing
    else .lift (.error (err.wrap s!"read stored canonical hash for block {number}"))
  | .ok storedHash =>
    let chainHash ← .lift (chainHash node number headNumber headHash)
    if storedHash = chainHash then return .found { number := number, hash := storedHash }
    else return .differs

/-- The loop at `number`. It ends at `retainFrom` at the latest, so the
distance down to there is fuel enough. -/
def commonAncestorFrom (node : Node) (storedTip : ChainTip) (headNumber : UInt64)
    (headHash : Hash) (retainFrom : UInt64) : ℕ → UInt64 → Sync (Option ChainTip)
  | fuel, number => do
    match ← probe node storedTip headNumber headHash number with
    | .missing => return none
    | .found ancestor => return some ancestor
    | .differs =>
      if number = retainFrom then return none
      else
        match fuel with
        | 0 => return none
        | fuel + 1 =>
          commonAncestorFrom node storedTip headNumber headHash retainFrom fuel (number - 1)

def commonAncestor (node : Node) (storedTip : ChainTip) (headNumber : UInt64) (headHash : Hash)
    (retainFrom : UInt64) : Sync (Option ChainTip) :=
  let start := min storedTip.number headNumber
  commonAncestorFrom node storedTip headNumber headHash retainFrom (start - retainFrom).toNat start

/-- What `replacementStart` makes of the ancestor it found. -/
def ancestorPlan (storedTip : ChainTip) (retainFrom : UInt64) (ancestor : Option ChainTip) :
    Go ReplacementPlan :=
  match ancestor with
  | none =>
    .ok { replaceFrom := retainFrom, mode := .reorg
          reorg := some
            { commonAncestor := none, replacedFrom := retainFrom, replacedTo := storedTip.number
              replacedBlockCount := storedTip.number - retainFrom + 1 } }
  | some ancestor =>
    if ancestor.number = maxUint64 then
      .error (.because .inconsistentBlockData "cannot advance past maximum block number")
    else if ancestor.number = storedTip.number then
      .ok { replaceFrom := ancestor.number + 1, mode := .append, reorg := none }
    else
      .ok { replaceFrom := ancestor.number + 1, mode := .reorg
            reorg := some
              { commonAncestor := some ancestor, replacedFrom := ancestor.number + 1
                replacedTo := storedTip.number
                replacedBlockCount := storedTip.number - (ancestor.number + 1) + 1 } }

def replacementStart (node : Node) (storedTip : Option ChainTip) (headNumber : UInt64)
    (headHash : Hash) (retainFrom : UInt64) : Sync ReplacementPlan :=
  match storedTip with
  | none => pure { replaceFrom := retainFrom, mode := .initialLoad, reorg := none }
  | some storedTip =>
    if storedTip.number > headNumber ∨ storedTip.number < retainFrom then
      pure { replaceFrom := retainFrom, mode := .fullReload, reorg := none }
    else if storedTip.number = headNumber ∧ storedTip.hash = headHash then
      if headNumber = maxUint64 then
        .lift (.error (.because .inconsistentBlockData "cannot advance past maximum block number"))
      else pure { replaceFrom := headNumber + 1, mode := .current, reorg := none }
    else do
      let ancestor ← commonAncestor node storedTip headNumber headHash retainFrom
      .lift (ancestorPlan storedTip retainFrom ancestor)

/-! ## The synchronization -/

/-- The blocks from `replaceFrom` to the head, of which the last is the
head that was selected. -/
def Syncer.fetchCanonical (s : Syncer) (env : Env) (replaceFrom headNumber : UInt64)
    (selectedHash : Hash) : Go (List BlockBundle) := do
  if replaceFrom ≤ headNumber then
    match s.fetcher with
    | none => .error (.panic "invalid memory address or nil pointer dereference")
    | some fetcher =>
      let bundles ← (fetcher.fetchRange env replaceFrom headNumber).wrap
        s!"fetch canonical range [{replaceFrom},{headNumber}]"
      match bundles.getLast? with
      | none => .error (.panic "index out of range [-1]")
      | some last =>
        Go.failIf (last.block.hash ≠ selectedHash) (.because .headChanged
          s!"block {headNumber} was {selectedHash.hex} and became {last.block.hash.hex}")
        return bundles
  else return []

def Syncer.syncOnce (s : Syncer) (env : Env) : Sync SyncResult := do
  .lift s.validateSyncOnceConfig
  let head ← .lift (s.config.selectedHead env.node)
  let headNumber ← .lift (validHeaderNumber head)
  let retainFrom := windowStart headNumber s.config.blockWindow
  let selectedHash := head.hash
  let storedTip ← .request .canonicalTip fun answer =>
    answer.wrap "read stored canonical tip"
  let plan ← replacementStart env.node storedTip headNumber selectedHash retainFrom
  let bundles ← .lift (s.fetchCanonical env plan.replaceFrom headNumber selectedHash)
  .request (.applyCanonicalUpdate
    { chainID := s.config.chainID, replaceFrom := plan.replaceFrom, retainFrom := retainFrom
      blocks := bundles, syncedAt := env.now }) fun answer =>
    answer.wrap s!"apply canonical update from block {plan.replaceFrom}"
  return { head := { number := headNumber, hash := selectedHash }, storedTip := storedTip
           mode := plan.mode, fromBlock := retainFrom, replaceFrom := plan.replaceFrom
           blockCount := bundles.length
           transactionCount := (bundles.map fun b => b.transactions.length).sum
           eventCount := (bundles.map fun b => b.events.length).sum
           syncedAt := env.now, reorg := plan.reorg }

/-- `isPermanentSyncError`. -/
def isPermanentSyncError (err : Fault) : Bool :=
  decide (err.Is .invalidSyncConfig ∨ err.Is .invalidSyncDependency ∨
    err.Is .invalidCanonicalUpdate ∨ err.Is .inconsistentData)

end EthIndexer
