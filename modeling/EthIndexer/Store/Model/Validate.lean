import EthIndexer.Common.GoMap
import EthIndexer.Common.SortSlice
import EthIndexer.Domain
import Mathlib.Data.Finset.Insert
/-!
# The store's checks on an update

`validateReplacement` looks at the blocks of an update alone and
`validateCanonicalBundles` at a whole map of bundles, as the two stores
run them. The second is a loop over the sorted block numbers that carries
the previous block and every transaction hash seen so far; inside it one
loop runs over the block's transactions and one over its events, each
with a set of its own.
-/

namespace EthIndexer

/-- The maps of bundles both stores work on. -/
abbrev BundleMap := GoMap UInt64 BlockBundle

/-! ## The replacement blocks -/

/-- The loop of `validateReplacement`: each number is the successor of the
one before. -/
def validateContiguous : BlockBundle → List BlockBundle → Go Unit
  | _, [] => .ok ()
  | previous, current :: rest =>
    if previous.block.number = maxUint64 ∨ current.block.number ≠ previous.block.number + 1 then
      .error (.because .invalidCanonicalUpdate "replacement blocks are not contiguous")
    else validateContiguous current rest

def validateReplacement (update : CanonicalUpdate) : Go Unit :=
  match update.blocks with
  | [] => .ok ()
  | first :: rest =>
    if first.block.number ≠ update.replaceFrom then
      .error (.because .invalidCanonicalUpdate
        s!"first replacement block is {first.block.number}, expected {update.replaceFrom}")
    else validateContiguous first rest

/-! ## The whole map -/

def sortedBlockNumbers (ord : RangeOrder UInt64 BlockBundle) (bundles : BundleMap) : List UInt64 :=
  sortSlice (fun left right => decide (left < right)) (ord.keys bundles)

/-- The loop over a block's transactions. It carries the hashes seen in
the whole map and the positions of this block. -/
def validateTransactions (number : UInt64) (blockHash : Hash) :
    ℕ → Finset Hash → GoMap Hash UInt32 → List Transaction → Go (Finset Hash × GoMap Hash UInt32)
  | _, seen, positions, [] => .ok (seen, positions)
  | index, seen, positions, t :: rest =>
    if t.blockNumber ≠ number ∨ t.blockHash ≠ blockHash ∨ t.index ≠ UInt32.ofNat index then
      .error (.because .invalidCanonicalUpdate
        s!"transaction {t.hash.hex} has inconsistent block metadata")
    else if t.hash ∈ seen then
      .error (.because .invalidCanonicalUpdate s!"duplicate transaction {t.hash.hex}")
    else
      validateTransactions number blockHash (index + 1) (insert t.hash seen)
        (positions.set t.hash t.index) rest

/-- The loop over a block's events. -/
def validateEvents (number : UInt64) (blockHash : Hash) (positions : GoMap Hash UInt32) :
    Finset UInt32 → List Event → Go Unit
  | _, [] => .ok ()
  | seenLogs, e :: rest =>
    if positions.get? e.transactionHash ≠ some e.transactionIndex then
      .error (.because .invalidCanonicalUpdate "event references an unknown transaction")
    else if e.blockNumber ≠ number ∨ e.blockHash ≠ blockHash then
      .error (.because .invalidCanonicalUpdate "event has inconsistent block metadata")
    else if e.topics.elems.length > 4 then
      .error (.because .invalidCanonicalUpdate "event has more than four topics")
    else if e.logIndex ∈ seenLogs then
      .error (.because .invalidCanonicalUpdate
        s!"block {number} has duplicate log index {e.logIndex}")
    else validateEvents number blockHash positions (insert e.logIndex seenLogs) rest

/-- The checks on one block that look at no other, and the hashes seen
once it is passed. -/
def validateBundle (number : UInt64) (bundle : BlockBundle) (seen : Finset Hash) :
    Go (Finset Hash) := do
  Go.failIf (bundle.block.transactionCount ≠ bundle.transactions.length)
    (.because .invalidCanonicalUpdate s!"block {number} transaction count does not match")
  Go.failIf (bundle.transactions.length > 2 ^ 32 - 1)
    (.because .invalidCanonicalUpdate s!"block {number} has too many transactions")
  let (seen, positions) ←
    validateTransactions number bundle.block.hash 0 seen ∅ bundle.transactions
  validateEvents number bundle.block.hash positions ∅ bundle.events
  return seen

/-- The check against the block before, which the first block does not
have. -/
def validateLink (previous : Option Block) (number : UInt64) (block : Block) : Go Unit :=
  match previous with
  | none => .ok ()
  | some previous =>
    Go.failIf (number ≠ previous.number + 1 ∨ block.parentHash ≠ previous.hash)
      (.because .invalidCanonicalUpdate "retained blocks do not form one canonical chain")

/-- The loop over the sorted numbers; `previous` is the block before. -/
def validateNumbers (bundles : BundleMap) : Option Block → Finset Hash → List UInt64 → Go Unit
  | _, _, [] => .ok ()
  | previous, seen, number :: rest => do
    let bundle := bundles.get number
    Go.failIf (bundle.block.number ≠ number)
      (.because .invalidCanonicalUpdate "block map key and block number differ")
    validateLink previous number bundle.block
    let seen ← validateBundle number bundle seen
    validateNumbers bundles (some bundle.block) seen rest

def validateCanonicalBundles (ord : RangeOrder UInt64 BlockBundle) (bundles : BundleMap) :
    Go Unit :=
  validateNumbers bundles none ∅ (sortedBlockNumbers ord bundles)

end EthIndexer
