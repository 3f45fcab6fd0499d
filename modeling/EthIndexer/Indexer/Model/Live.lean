import EthIndexer.Indexer.Model.Runner
import EthIndexer.Indexer.Postgres
import EthIndexer.Store.Model.Connections
/-!
# The loop on the database

What `main` starts: the loop of `Run` around synchronizations that go to
the tables. A call to synchronize runs `SyncOnce` on the tables as they
are at that time, against the node and the database of that time; a wait
and a look at the context leave the tables alone. An update whose commit
is answered with an error may have taken place all the same.
-/

namespace EthIndexer

/-- The PostgreSQL store over a connection that can break: with `lost`, a
commit that is answered with an error has taken place. -/
def Postgres.losingStore (e : PostgresCalls) (lost : Bool) : IndexStore Tables where
  canonicalTip := (indexStore e).canonicalTip
  canonicalHash := (indexStore e).canonicalHash
  applyCanonicalUpdate update T :=
    let env := e.env (.applyCanonicalUpdate update)
    let order := e.order (.applyCanonicalUpdate update)
    ((applyCanonicalUpdate env order update T).1,
      (applyCanonicalUpdate (if lost then committing env else env) order update T).2)

/-- `SyncOnce` on the tables: the answer and the tables it leaves. -/
def Syncer.syncPostgres (s : Syncer) (env : Env) (e : PostgresCalls) (lost : Bool) (T : Tables) :
    Go SyncResult × Tables :=
  (s.syncOnce env).run (Postgres.losingStore e lost).handle T

namespace Runner

/-- **What the loop meets**, by the time of the call: the node and the
database, the timer, and the context. -/
structure Surroundings where
  env : ℕ → Env
  calls : ℕ → PostgresCalls
  /-- Whether a commit that is answered with an error has taken place. -/
  lost : ℕ → Bool
  wait : ℕ → Go Unit
  ctx : ℕ → Context

/-- The time of the next call, and the tables. -/
structure Live where
  time : ℕ
  tables : Tables

def Live.tick (l : Live) : Live := { l with time := l.time + 1 }

/-- **The answer to a call of the loop, and what it leaves.** -/
def Surroundings.handle (w : Surroundings) (s : Syncer) :
    (c : Call) → Live → Answer c × Live
  | .sync, l =>
    let outcome := s.syncPostgres (w.env l.time) (w.calls l.time) (w.lost l.time) l.tables
    (outcome.1, ⟨l.time + 1, outcome.2⟩)
  | .wait _, l => (w.wait l.time, l.tick)
  | .ctxErr, l => (w.ctx l.time, l.tick)

end Runner

end EthIndexer
