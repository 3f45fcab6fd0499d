import EthIndexer.Store.Model.Memory
import EthIndexer.Store.Model.Postgres
/-!
# The services between the store and the HTTP layer

`QueryService` passes a query on to the store and translates the store's
errors into its own; `HealthService` asks whether the store answers and
has a block. Both take the store as an interface, which is a record of
what its methods answer at the time they are called.
-/

namespace EthIndexer

namespace Service

/-! ## Errors -/

/-- The sentinel errors of the service. -/
inductive Sentinel
  | notFound
  | invalidQuery
  | staleCursor
  | notReady
  deriving DecidableEq

def Sentinel.text : Sentinel → String
  | .notFound => "service: not found"
  | .invalidQuery => "service: invalid query"
  | .staleCursor => "service: stale cursor"
  | .notReady => "service: not ready"

/-- An error: the sentinels of the service and of the store below that
`errors.Is` finds in it, and its text. -/
structure Err where
  own : List Sentinel
  store : List EthIndexer.Sentinel
  text : String
  deriving DecidableEq

/-- `errors.Is`. -/
def Err.Is (err : Err) (s : Sentinel) : Prop := s ∈ err.own

instance (err : Err) (s : Sentinel) : Decidable (err.Is s) :=
  inferInstanceAs (Decidable (s ∈ err.own))

/-- `fmt.Errorf("%w: %w", sentinel, err)`, of an error of the store. -/
def Err.because (s : Sentinel) (causes : List EthIndexer.Sentinel) (text : String) : Err :=
  ⟨[s], causes, s.text ++ ": " ++ text⟩

def translateStoreError (causes : List EthIndexer.Sentinel) (text : String) : Err :=
  if .notFound ∈ causes then .because .notFound causes text
  else if .invalidQuery ∈ causes then .because .invalidQuery causes text
  else if .staleCursor ∈ causes then .because .staleCursor causes text
  else ⟨[], causes, text⟩

/-- What stops a call of the service. -/
inductive Stop
  | error (err : Err)
  | panic (text : String)
  deriving DecidableEq

/-- What stops a call of the store, with its errors translated. -/
def Stop.ofStore (translate : List EthIndexer.Sentinel → String → Err) : Fault → Stop
  | .error causes text => .error (translate causes text)
  | .panic text => .panic text

/-! ## Queries -/

/-- `store.QueryStore`. -/
structure QueryStore where
  blockByNumber : UInt64 → Go BlockResult
  transactionByHash : Hash → Go TransactionResult
  eventsByAddress : EventQuery → Go EventPage

section Queries

variable (store : QueryStore)

def block (number : UInt64) : Except Stop BlockResult :=
  (store.blockByNumber number).mapError (Stop.ofStore translateStoreError)

def transaction (hash : Hash) : Except Stop TransactionResult :=
  (store.transactionByHash hash).mapError (Stop.ofStore translateStoreError)

def events (query : EventQuery) : Except Stop EventPage :=
  (store.eventsByAddress query).mapError (Stop.ofStore translateStoreError)

end Queries

/-! ## Readiness -/

/-- `readinessStore`. -/
structure ReadinessStore where
  ping : Go Unit
  canonicalTip : Go (Option ChainTip)

def ready (store : ReadinessStore) : Except Stop ChainTip := do
  (store.ping.wrap "check PostgreSQL connection").mapError (Stop.ofStore (Err.mk []))
  let tip ← (store.canonicalTip.wrap "read canonical tip").mapError (Stop.ofStore (Err.mk []))
  match tip with
  | none => .error (.error ⟨[.notReady], [], Sentinel.notReady.text⟩)
  | some tip => return tip

end Service

/-! ## The two stores -/

section Stores

open Service

/-- The in-memory store as the services see it. The orders are those that
the queries visit the map in, and `ctx` is the context of the request. -/
def Memory.queryStore (ord : RangeOrder UInt64 BlockBundle) (ctx : Context) (m : Memory) :
    QueryStore where
  blockByNumber := m.blockByNumber ctx
  transactionByHash := m.transactionByHash ord ctx
  eventsByAddress := m.eventsByAddress ord ctx

def Memory.ping (ctx : Context) : Go Unit :=
  match ctx with
  | some err => .error err.fault
  | none => .ok ()

def Memory.readinessStore (ord : RangeOrder UInt64 BlockBundle) (ctx : Context) (m : Memory) :
    ReadinessStore where
  ping := Memory.ping ctx
  canonicalTip := m.canonicalTip ord ctx

/-- The PostgreSQL store as the services see it. -/
def Postgres.queryStore (env : PostgresEnv) (ctx : Context) (T : Tables) : QueryStore where
  blockByNumber := Postgres.blockByNumber env T
  transactionByHash := Postgres.transactionByHash env T
  eventsByAddress := Postgres.eventsByAddress env T ctx

/-- `pool.Ping` is left to the world. -/
def Postgres.readinessStore (env : PostgresEnv) (ping : Except String Unit) (T : Tables) :
    ReadinessStore where
  ping := .ofExternal ping
  canonicalTip := Postgres.canonicalTip env T

end Stores

end EthIndexer
