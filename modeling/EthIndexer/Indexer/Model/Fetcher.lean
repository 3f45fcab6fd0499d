import EthIndexer.Common.GoMap
import EthIndexer.Common.SortSlice
import EthIndexer.Domain
import Mathlib.Data.Finset.Insert
/-!
# Fetching blocks from the node

`FetchBlock` reads a block and its logs and turns them into a bundle, and
`FetchRange` does so for every height of a range and checks the links.

The values of go-ethereum are records of what their accessors return. A
call on the node may answer anything, and no call is made twice during
one synchronization, so a node is a function from calls to answers. The
workers of `FetchRange` decide one thing only: which of several failures
arrives first. `Env.first` names it.
-/

namespace EthIndexer

/-! ## The node -/

/-- `types.Header`. -/
structure Header where
  number : Option ℤ
  hash : Hash
  deriving DecidableEq

/-- `types.Transaction`, with what `types.Sender` derives from it. -/
structure EthTransaction where
  hash : Hash
  isProtected : Bool
  chainId : ℤ
  sender : Except String Address
  type : UInt8
  nonce : UInt64
  recipient : Option Address
  value : ℤ
  gas : UInt64
  gasPrice : ℤ
  gasFeeCap : ℤ
  gasTipCap : ℤ
  data : List UInt8

/-- `types.Block`. -/
structure EthBlock where
  number : Option ℤ
  hash : Hash
  parentHash : Hash
  time : UInt64
  gasLimit : UInt64
  gasUsed : UInt64
  baseFee : Option ℤ
  transactions : List (Option EthTransaction)

/-- `types.Log`. -/
structure Log where
  address : Address
  topics : List Hash
  data : List UInt8
  blockNumber : UInt64
  blockHash : Hash
  txHash : Hash
  txIndex : UInt64
  index : UInt64
  removed : Bool

/-- What `HeaderByNumber` can be asked for. -/
inductive Selector
  | latest
  | safe
  | finalized
  | number (n : UInt64)
  deriving DecidableEq

/-- **The answers of a node** to the calls of one synchronization. The
logs are asked for by hash, once for each block that is fetched. -/
structure Node where
  headerByNumber : Selector → Except String (Option Header)
  blockByNumber : UInt64 → Except String (Option EthBlock)
  logsByBlockHash : UInt64 → Hash → Except String (List Log)

/-- What one synchronization meets: the node, the clock, and the outcome
of the race between the workers. -/
structure Env where
  node : Node
  /-- The clock when the block of a height has been fetched. -/
  fetchedAt : UInt64 → Time
  /-- The height whose failure arrives first, where several fail. -/
  first : UInt64
  /-- What the context answers once every worker is done. -/
  rangeCtx : Context
  /-- The clock before the update is stored. -/
  now : Time

/-! ## One block -/

structure Fetcher where
  chainID : Option ℤ

/-- The value of a `*big.Int` in a message. -/
def bigIntText (n : Option ℤ) : String := n.elim "<nil>" toString

/-- `IsUint64` and `Uint64`. -/
def asUint64 (n : Option ℤ) : Option UInt64 :=
  n.bind fun n => if 0 ≤ n ∧ n < 2 ^ 64 then some (UInt64.ofNat n.toNat) else none

def validateBlockNumber (block : EthBlock) (requested : UInt64) : Go Unit :=
  Go.failIf (asUint64 block.number ≠ some requested)
    (.because .inconsistentBlockData
      s!"requested block {requested}, received block {bigIntText block.number}")

/-- The chain a transaction is signed for. -/
def Fetcher.validateChainID (f : Fetcher) (t : EthTransaction) : Go Unit :=
  if t.isProtected then
    match f.chainID with
    | none => .error (.panic "invalid memory address or nil pointer dereference")
    | some id =>
      Go.failIf (t.chainId ≠ id) (.because .inconsistentBlockData
        s!"transaction {t.hash.hex} has chain ID {t.chainId}, expected {id}")
  else .ok ()

def EthTransaction.deriveSender (t : EthTransaction) : Go Address :=
  (Go.ofExternal t.sender).mapError (Fault.wrapBecause .inconsistentBlockData
    s!"derive sender for transaction {t.hash.hex}")

/-- The record of a transaction. Legacy and access-list transactions have
a gas price, all others the two fees. -/
def EthTransaction.mapped (t : EthTransaction) (sender : Address) (number : UInt64)
    (blockHash : Hash) (position : UInt32) : Transaction :=
  let priced := t.type = 0 ∨ t.type = 1
  { hash := t.hash, blockNumber := number, blockHash := blockHash, index := position
    type := t.type, nonce := t.nonce, sender := sender, recipient := t.recipient
    value := some t.value, gasLimit := t.gas, input := some t.data
    gasPrice := if priced then some t.gasPrice else none
    maxFeePerGas := if priced then none else some t.gasFeeCap
    maxPriorityFeePerGas := if priced then none else some t.gasTipCap }

/-- The loop of `mapTransactions` from `index` on. -/
def Fetcher.mapTransactionsFrom (f : Fetcher) (number : UInt64) (blockHash : Hash) :
    ℕ → GoMap Hash UInt32 → List (Option EthTransaction) →
      Go (List Transaction × GoMap Hash UInt32)
  | _, positions, [] => .ok ([], positions)
  | index, _, none :: _ =>
    .error (.because .inconsistentBlockData
      s!"block {number} contains a nil transaction at index {index}")
  | index, positions, some t :: rest => do
    f.validateChainID t
    let sender ← t.deriveSender
    let position := UInt32.ofNat index
    Go.failIf (positions.get? t.hash ≠ none)
      (.because .inconsistentBlockData s!"duplicate transaction {t.hash.hex}")
    let (transactions, positions) ←
      f.mapTransactionsFrom number blockHash (index + 1) (positions.set t.hash position) rest
    return (t.mapped sender number blockHash position :: transactions, positions)

/-- `mapTransactions`; `number` is the block's own, which the caller has
checked. -/
def Fetcher.mapTransactions (f : Fetcher) (number : UInt64) (block : EthBlock) :
    Go (List Transaction × GoMap Hash UInt32) :=
  if block.transactions.length > 2 ^ 32 - 1 then
    .error (.because .inconsistentBlockData s!"block {number} has too many transactions")
  else f.mapTransactionsFrom number block.hash 0 ∅ block.transactions

/-- The loop of `mapEvents`, with the log indexes seen so far. -/
def mapLogs (blockNumber : UInt64) (blockHash : Hash) (positions : GoMap Hash UInt32) :
    Finset UInt32 → List Log → Go (List Event)
  | _, [] => .ok []
  | seen, log :: rest => do
    Go.failIf (log.removed = true)
      (.because .inconsistentBlockData s!"block {blockNumber} contains a removed log")
    Go.failIf (log.blockHash ≠ blockHash ∨ log.blockNumber ≠ blockNumber)
      (.because .inconsistentBlockData
        s!"log {log.index} does not belong to block {blockNumber} ({blockHash.hex})")
    Go.failIf (log.index > 0xffffffff ∨ log.txIndex > 0xffffffff)
      (.because .inconsistentBlockData "log or transaction index exceeds uint32")
    Go.failIf (log.topics.length > 4)
      (.because .inconsistentBlockData
        s!"log {log.index} has {log.topics.length} topics, maximum is 4")
    match positions.get? log.txHash with
    | none =>
      .error (.because .inconsistentBlockData
        s!"log {log.index} references unknown transaction {log.txHash.hex}")
    | some transactionIndex =>
      Go.failIf (log.txIndex.toUInt32 ≠ transactionIndex)
        (.because .inconsistentBlockData
          s!"log {log.index} transaction index is {log.txIndex}, expected {transactionIndex}")
      Go.failIf (log.index.toUInt32 ∈ seen)
        (.because .inconsistentBlockData s!"duplicate log index {log.index}")
      let events ← mapLogs blockNumber blockHash positions (insert log.index.toUInt32 seen) rest
      return { blockNumber := blockNumber, blockHash := blockHash, transactionHash := log.txHash
               transactionIndex := transactionIndex, logIndex := log.index.toUInt32
               address := log.address, topics := some log.topics, data := some log.data }
              :: events

def mapEvents (blockNumber : UInt64) (blockHash : Hash) (logs : List Log)
    (positions : GoMap Hash UInt32) : Go (List Event) := do
  let events ← mapLogs blockNumber blockHash positions ∅ logs
  return sortSlice (fun left right => decide (left.logIndex < right.logIndex)) events

def Fetcher.fetchBlock (f : Fetcher) (env : Env) (number : UInt64) : Go BlockBundle := do
  match ← (Go.ofExternal (env.node.blockByNumber number)).wrap s!"fetch block {number}" with
  | none => .error (.because .inconsistentBlockData s!"block {number} response is nil")
  | some block =>
    validateBlockNumber block number
    let (transactions, positions) ← f.mapTransactions number block
    let logs ← (Go.ofExternal (env.node.logsByBlockHash number block.hash)).wrap
      s!"fetch logs for block {number} ({block.hash.hex})"
    let events ← mapEvents number block.hash logs positions
    return { block :=
               { number := number, hash := block.hash, parentHash := block.parentHash
                 timestamp := block.time, gasLimit := block.gasLimit, gasUsed := block.gasUsed
                 baseFeePerGas := block.baseFee, transactionCount := transactions.length
                 indexedAt := env.fetchedAt number }
             transactions := transactions, events := events }

/-! ## A range -/

/-- `math.MaxInt`. -/
def maxInt : ℕ := 2 ^ 63 - 1

/-- The heights of a range, in order. -/
def rangeNumbers (start : UInt64) (count : ℕ) : List UInt64 :=
  (List.range count).map fun i => start + UInt64.ofNat i

/-- The loop of `validateFetchedBundles` from position `i` on; `previous`
is the bundle before. -/
def validateFetchedFrom (start : UInt64) : ℕ → Option BlockBundle → List BlockBundle → Go Unit
  | _, _, [] => .ok ()
  | i, previous, bundle :: rest => do
    let expectedBlockNum := start + UInt64.ofNat i
    Go.failIf (bundle.block.number ≠ expectedBlockNum)
      (.error [.inconsistentBlockData] (s!"indexer: {Sentinel.inconsistentBlockData.text}: " ++
        s!"range position {i} contains block {bundle.block.number}, expected {expectedBlockNum}"))
    match previous with
    | none => validateFetchedFrom start (i + 1) (some bundle) rest
    | some previous =>
      Go.failIf (bundle.block.parentHash ≠ previous.block.hash)
        (.because .inconsistentBlockData
          (s!"block {bundle.block.number} parent {bundle.block.parentHash.hex} does not match " ++
           s!"block {previous.block.number} hash {previous.block.hash.hex}"))
      validateFetchedFrom start (i + 1) (some bundle) rest

def validateFetchedBundles (bundles : List BlockBundle) (start : UInt64) : Go Unit :=
  validateFetchedFrom start 0 none bundles

/-- The failure a worker reports for a height. -/
def Fetcher.failure (f : Fetcher) (env : Env) (number : UInt64) : Option Fault :=
  match f.fetchBlock env number with
  | .ok _ => none
  | .error err => some (err.wrap s!"failed to fetch block {number}")

def Fetcher.fetchRange (f : Fetcher) (env : Env) (start stop : UInt64) : Go (List BlockBundle) :=
  if start > stop then
    .error (.because .invalidLowFetchRange s!"from block {start} exceeds to block {stop}")
  else if (stop - start).toNat ≥ maxInt then
    .error (.because .invalidLargeFetchRange "block range is too large")
  else
    let numbers := rangeNumbers start ((stop - start).toNat + 1)
    match (numbers.filter (· = env.first) ++ numbers).findSome? (f.failure env) with
    | some err => .error err
    | none =>
      match env.rangeCtx with
      | some err => .error err.fault
      | none => do
        let bundles := numbers.filterMap fun n => (f.fetchBlock env n).toOption
        validateFetchedBundles bundles start
        return bundles

end EthIndexer
