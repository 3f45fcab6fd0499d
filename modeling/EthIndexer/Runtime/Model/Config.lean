import EthIndexer.Indexer.Model.Runner
import EthIndexer.Runtime.Model.Services
import Mathlib.Data.List.DropRight
import Mathlib.Data.List.ReduceOption
/-!
# The configuration of the process

The record that `Load` fills, its defaults, what the environment may
override and what `Validate` asks of it. `Validate` goes through all of
its checks and reports every one that fails, in the order of the checks.

The parse of a URL, the change to lower case and the names of the log
levels are those of libraries, and come as parameters.
-/

namespace EthIndexer

namespace Runtime

/-! ## Strings -/

/-- `unicode.IsSpace`. -/
def IsSpace (c : Char) : Prop :=
  c.toNat ∈ [0x09, 0x0a, 0x0b, 0x0c, 0x0d, 0x20, 0x85, 0xa0, 0x1680, 0x2028, 0x2029, 0x202f,
    0x205f, 0x3000] ∨ (0x2000 ≤ c.toNat ∧ c.toNat ≤ 0x200a)

instance : DecidablePred IsSpace := fun _ => inferInstanceAs (Decidable (_ ∨ _))

/-- `strings.TrimSpace`. -/
def trimSpace (s : String) : String :=
  .ofList ((s.toList.dropWhile (IsSpace ·)).rdropWhile (IsSpace ·))

/-- What `url.ParseRequestURI` finds, of which two parts are read. -/
structure URL where
  scheme : String
  host : String

/-- The libraries. A parse without a result is one that fails. -/
structure Libraries where
  parseRequestURI : String → Option URL
  toLower : String → String
  /-- What `%q` prints. -/
  quote : String → String
  /-- `zerolog.ParseLevel`: its error. -/
  parseLevel : String → Option Err

/-! ## The record -/

structure App where
  environment : String
  logLevel : String

structure HTTP where
  address : String
  requestTimeout : Duration
  readHeaderTimeout : Duration
  idleTimeout : Duration
  shutdownTimeout : Duration

structure Ethereum where
  rpcURL : String
  chainID : UInt64
  rpcTimeout : Duration
  rpcConcurrency : ℤ

structure Indexer where
  pollInterval : Duration
  blockWindow : UInt64
  headMode : HeadMode
  retryAttempts : ℤ
  retryMinBackoff : Duration
  retryMaxBackoff : Duration

structure Database where
  url : String
  maxConnections : Int32
  minConnections : Int32
  connectTimeout : Duration

structure Config where
  app : App
  http : HTTP
  ethereum : Ethereum
  indexer : Indexer
  database : Database

/-- `time.Second`. -/
def second : Duration := 1000000000

/-- `Default`. -/
def Config.default : Config where
  app := { environment := "development", logLevel := "info" }
  http :=
    { address := ":8080"
      requestTimeout := 5 * second
      readHeaderTimeout := 5 * second
      idleTimeout := 60 * second
      shutdownTimeout := 15 * second }
  ethereum :=
    { rpcURL := ""
      chainID := 1
      rpcTimeout := 30 * second
      rpcConcurrency := 4 }
  indexer :=
    { pollInterval := 4 * second
      blockWindow := 50
      headMode := .latest
      retryAttempts := 3
      retryMinBackoff := second
      retryMaxBackoff := 10 * second }
  database :=
    { url := ""
      maxConnections := 12
      minConnections := 2
      connectTimeout := 10 * second }

/-! ## The environment -/

/-- A variable that is not blank replaces the value of the file. -/
def overridden (env value : String) : String :=
  if trimSpace env ≠ "" then trimSpace env else value

/-- What `applyEnvironment` makes of the variables `ETH_RPC_URL`,
`DATABASE_URL` and `LOG_LEVEL`. -/
def Config.override (cfg : Config) (rpcURL databaseURL logLevel : String) : Config :=
  { cfg with
    ethereum := { cfg.ethereum with rpcURL := overridden rpcURL cfg.ethereum.rpcURL }
    database := { cfg.database with url := overridden databaseURL cfg.database.url }
    app := { cfg.app with logLevel := overridden logLevel cfg.app.logLevel } }

/-! ## Validation -/

def positiveDuration (name : String) (value : Duration) : Option String :=
  if value ≤ 0 then some s!"{name} must be greater than zero" else none

def validateURL (lib : Libraries) (name raw : String) (allowedSchemes : List String) :
    Option String :=
  if trimSpace raw = "" then some s!"{name} is required"
  else match lib.parseRequestURI raw with
    | none => some s!"{name} must be a valid URL"
    | some parsed =>
      if parsed.host = "" then some s!"{name} must be a valid URL"
      else if parsed.scheme ∈ allowedSchemes then none
      else some s!"{name} uses unsupported scheme {lib.quote parsed.scheme}"

/-- `if failed { problems = append(problems, errors.New(text)) }`. -/
def problemIf (failed : Prop) [Decidable failed] (text : String) : List (Option String) :=
  if failed then [some text] else []

/-- The `switch` over the head modes. -/
def HeadModeKnown : HeadMode → Prop
  | .unsupported _ _ => False
  | _ => True

instance : DecidablePred HeadModeKnown
  | .latest | .safe | .finalized => inferInstanceAs (Decidable True)
  | .unsupported _ _ => inferInstanceAs (Decidable False)

def HTTP.problems (http : HTTP) : List (Option String) :=
  problemIf (trimSpace http.address = "") "http.address is required" ++
  [positiveDuration "http.request_timeout" http.requestTimeout,
    positiveDuration "http.read_header_timeout" http.readHeaderTimeout,
    positiveDuration "http.idle_timeout" http.idleTimeout,
    positiveDuration "http.shutdown_timeout" http.shutdownTimeout]

def Ethereum.problems (lib : Libraries) (ethereum : Ethereum) : List (Option String) :=
  [validateURL lib "ethereum.rpc_url" ethereum.rpcURL ["http", "https"]] ++
  problemIf (ethereum.chainID ≠ 1)
    s!"ethereum.chain_id must be 1 for mainnet, got {ethereum.chainID}" ++
  [positiveDuration "ethereum.rpc_timeout" ethereum.rpcTimeout] ++
  problemIf (ethereum.rpcConcurrency < 1 ∨ ethereum.rpcConcurrency > 64)
    "ethereum.rpc_concurrency must be between 1 and 64"

def Indexer.problems (indexer : Indexer) : List (Option String) :=
  [positiveDuration "indexer.poll_interval" indexer.pollInterval] ++
  problemIf (indexer.blockWindow = 0 ∨ indexer.blockWindow > maxBlockWindow)
    s!"indexer.block_window must be between 1 and {maxBlockWindow}" ++
  problemIf (¬ HeadModeKnown indexer.headMode)
    "indexer.head_mode must be latest, safe, or finalized" ++
  problemIf (indexer.retryAttempts < 0) "indexer.retry_attempts cannot be negative" ++
  [positiveDuration "indexer.retry_min_backoff" indexer.retryMinBackoff,
    positiveDuration "indexer.retry_max_backoff" indexer.retryMaxBackoff] ++
  problemIf (indexer.retryMinBackoff > indexer.retryMaxBackoff)
    "indexer.retry_min_backoff cannot exceed retry_max_backoff"

def Database.problems (lib : Libraries) (database : Database) : List (Option String) :=
  [validateURL lib "database.url" database.url ["postgres", "postgresql"]] ++
  problemIf (database.maxConnections < 1)
    "database.max_connections must be greater than zero" ++
  problemIf (database.minConnections < 0 ∨ database.minConnections > database.maxConnections)
    "database.min_connections must be between zero and max_connections" ++
  [positiveDuration "database.connect_timeout" database.connectTimeout]

/-- `problems`, with the nil errors that `compact` drops. -/
def Config.problems (lib : Libraries) (cfg : Config) : List (Option String) :=
  problemIf (trimSpace cfg.app.environment = "") "app.environment is required" ++
  problemIf (trimSpace cfg.app.logLevel = "") "app.log_level is required" ++
  cfg.http.problems ++ cfg.ethereum.problems lib ++ cfg.indexer.problems ++
  cfg.database.problems lib

/-- `errors.Join`: a line for each error. -/
def joinErrors : List String → Option Err
  | [] => none
  | texts => some (.new ("\n".intercalate texts))

def Config.validate (lib : Libraries) (cfg : Config) : Option Err :=
  joinErrors (cfg.problems lib).reduceOption

end Runtime

end EthIndexer
