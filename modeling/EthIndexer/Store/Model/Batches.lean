import EthIndexer.Common.Session
import EthIndexer.Store.Model.Postgres
/-!
# The batches of an insert

`insertCanonicalBundles` as it is written: a loop over the bundles with a
loop over the transactions and one over the events inside, each of which
sends the batch when it is full and begins a new one. It is a session
whose calls are the batches it sends, so that what is sent can be told
apart from what the database makes of it.
-/

namespace EthIndexer

namespace Postgres

namespace Batches

/-- A program that sends batches; the answer is that of `results.Close`. -/
abbrev Sends (α : Type) := Session (List Statement) (fun _ => Go Unit) Fault α

def sendCanonicalBatch (batch : List Statement) : Sends Unit :=
  if batch.length = 0 then return ()
  else .request batch fun answer => answer.wrap "insert canonical bundles"

/-- What stands after each `Queue`: send the batch if it is full, and begin
a new one. -/
def flushFull (batch : List Statement) : Sends (List Statement) := do
  if batch.length ≥ canonicalBatchQueryLimit then
    sendCanonicalBatch batch
    return []
  else return batch

/-- A loop that queues one statement for each value. -/
def queueEach {α : Type} (queue : α → Go Statement) :
    List Statement → List α → Sends (List Statement)
  | batch, [] => return batch
  | batch, value :: rest => do
    let batch ← flushFull (batch ++ [← .lift (queue value)])
    queueEach queue batch rest

def queueTransactions : List Statement → List Transaction → Sends (List Statement) :=
  queueEach fun t => do return .insertTransaction (← queueTransaction t)

def queueEvents : List Statement → List Event → Sends (List Statement) :=
  queueEach fun e => do return .insertEvent (← queueEvent e)

/-- The loop over the bundles. -/
def queueBundles : List Statement → List BlockBundle → Sends (List Statement)
  | batch, [] => return batch
  | batch, bundle :: rest => do
    let batch ← flushFull
      (batch ++ [← .lift do return .insertBlock (← queueBlock bundle.block)])
    let batch ← queueTransactions batch bundle.transactions
    let batch ← queueEvents batch bundle.events
    queueBundles batch rest

def insertCanonicalBundles (bundles : List BlockBundle) : Sends Unit := do
  if bundles.length = 0 then return ()
  else sendCanonicalBatch (← queueBundles [] bundles)

end Batches

end Postgres

end EthIndexer
