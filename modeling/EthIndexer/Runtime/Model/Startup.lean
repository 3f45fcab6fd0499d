import EthIndexer.Runtime.Model.Config
/-!
# From the command line to the services

`run` of the command: it parses the arguments, loads the configuration,
opens the database and the connection to the node, checks the node's chain
and hands what it has built to `runServices`. What it has opened it closes
on the way out, whichever way that is.

It is a session. Its calls are those on the operating system, the pool
and the RPC client, and `runServices` is the last of them; any of them may
fail. The deadline of a call is one of its arguments.
-/

namespace EthIndexer

namespace Runtime

/-- `store.PostgresOptions`. -/
structure PostgresOptions where
  url : String
  maxConnections : Int32
  minConnections : Int32
  connectTimeout : Duration

/-- What `runServices` is given: the syncer, and the HTTP server with the
timeout of its shutdown. -/
structure Services where
  runner : Runner
  address : String
  requestTimeout : Duration
  readHeaderTimeout : Duration
  idleTimeout : Duration
  shutdownTimeout : Duration

/-! ## Calls -/

inductive Call
  /-- `os.Getenv`. -/
  | getenv (name : String)
  /-- `flags.Parse`, with the default of `-config`. -/
  | parseFlags (configPath : String) (args : List String)
  | openFile (path : String)
  /-- `decoder.Decode(&cfg)`. -/
  | decode (cfg : Config)
  /-- `decoder.Decode(&extra)`. -/
  | decodeExtra
  | closeFile
  /-- `pgxpool.ParseConfig`. -/
  | parseConfig (url : String)
  /-- `pgxpool.NewWithConfig`. -/
  | newPool (options : PostgresOptions)
  | ping (timeout : Duration)
  | closePool
  /-- `ethclient.DialContext`. -/
  | dialContext (rpcURL : String) (timeout : Duration)
  | chainID (timeout : Duration)
  | closeClient
  | runServices (services : Services)

/-- What `flags.Parse` comes to. -/
inductive Flags
  /-- `flag.ErrHelp`. -/
  | help
  | invalid (err : Err)
  | parsed (configPath : String) (args : List String)

/-- What a second document comes to. -/
inductive Extra
  /-- `io.EOF`. -/
  | eof
  | document
  | failed (err : Err)

abbrev Answer : Call → Type
  | .getenv _ => String
  | .parseFlags _ _ => Flags
  | .decode _ => Except Err Config
  | .decodeExtra => Extra
  | .chainID _ => Except Err (Option ℤ)
  | .closeFile | .closePool | .closeClient => Unit
  -- The error of a call that returns nothing else.
  | .openFile _ | .parseConfig _ | .newPool _ | .ping _ | .dialContext _ _ | .runServices _ =>
    Option Err

abbrev Event := Session.Event Call Answer

abbrev Startup (α : Type) := Session Call Answer Err α

/-- A nil error is success. -/
def succeed : Option Err → Except Err Unit
  | none => .ok ()
  | some err => .error err

def failIf (failed : Prop) [Decidable failed] (text : String) : Startup Unit :=
  .lift (if failed then .error (.new text) else .ok ())

/-! ## The configuration -/

/-- The path that `-config` defaults to, by the variable `CONFIG_FILE`. -/
def configPath (env : String) : String :=
  if env ≠ "" then env else "configs/config.example.yaml"

def configPathFromEnvironment : Startup String := do
  return configPath (← Session.request (.getenv "CONFIG_FILE") .ok)

def applyEnvironment (cfg : Config) : Startup Config := do
  let rpcURL ← Session.request (.getenv "ETH_RPC_URL") .ok
  let databaseURL ← Session.request (.getenv "DATABASE_URL") .ok
  let logLevel ← Session.request (.getenv "LOG_LEVEL") .ok
  return cfg.override rpcURL databaseURL logLevel

/-- What `Load` does with the open file. -/
def decodeFile (lib : Libraries) : Startup Config := do
  let file ← Session.request (.decode .default) (Except.mapError (Err.wrap "decode config"))
  match ← Session.request .decodeExtra .ok with
  | .document => .lift (.error (.new "decode config: multiple YAML documents are not supported"))
  | .failed err => .lift (.error (err.wrap "decode trailing config"))
  | .eof =>
    let cfg ← applyEnvironment file
    .lift (succeed (cfg.validate lib))
    return cfg

def load (lib : Libraries) (path : String) : Startup Config := do
  Session.request (.openFile path) fun err => (succeed err).mapError (Err.wrap "open config")
  (decodeFile lib).defer (Session.request .closeFile .ok)

/-- `NewLogger`: its error. -/
def newLogger (lib : Libraries) (level : String) : Except Err Unit :=
  (succeed (lib.parseLevel (lib.toLower level))).mapError (Err.wrap "parse log level")

/-! ## The database and the node -/

def openPostgres (options : PostgresOptions) : Startup Unit := do
  Session.request (.parseConfig options.url) fun err =>
    (succeed err).mapError (Err.wrap "parse postgres config")
  Session.request (.newPool options) fun err =>
    (succeed err).mapError (Err.wrap "create postgres pool")
  match ← Session.request (.ping options.connectTimeout) .ok with
  | some err =>
    Session.request .closePool .ok
    .lift (.error (err.wrap "ping postgres"))
  | none => return ()

def dial (rpcURL : String) (rpcTimeout : Duration) : Startup Unit := do
  failIf (trimSpace rpcURL = "") "ethereum: RPC URL is required"
  failIf (rpcTimeout ≤ 0) "ethereum: RPC timeout must be greater than zero"
  Session.request (.dialContext rpcURL rpcTimeout) fun err =>
    (succeed err).mapError (Err.wrap "dial ethereum RPC")

/-- `ValidateChainID`, with the timeout of the client. `asUint64` is the
test for nil and for `IsUint64` in one. -/
def validateChainID (rpcTimeout : Duration) (expected : UInt64) : Startup Unit := do
  let actual ← Session.request (.chainID rpcTimeout) (Except.mapError (Err.wrap "read chain ID"))
  failIf (asUint64 actual ≠ some expected)
    s!"ethereum: unexpected chain ID: expected {expected}, got {bigIntText actual}"

/-! ## The command -/

def Config.postgresOptions (cfg : Config) : PostgresOptions where
  url := cfg.database.url
  maxConnections := cfg.database.maxConnections
  minConnections := cfg.database.minConnections
  connectTimeout := cfg.database.connectTimeout

/-- `NewFetcher`, `NewSyncer` and the HTTP server. -/
def Config.services (cfg : Config) : Services where
  runner :=
    { Syncer.new
        { chainID := cfg.ethereum.chainID
          blockWindow := cfg.indexer.blockWindow
          headMode := cfg.indexer.headMode
          rpcConcurrency := cfg.ethereum.rpcConcurrency } with
      pollInterval := cfg.indexer.pollInterval
      retryAttempts := cfg.indexer.retryAttempts
      retryMinBackoff := cfg.indexer.retryMinBackoff
      retryMaxBackoff := cfg.indexer.retryMaxBackoff }
  address := cfg.http.address
  requestTimeout := cfg.http.requestTimeout
  readHeaderTimeout := cfg.http.readHeaderTimeout
  idleTimeout := cfg.http.idleTimeout
  shutdownTimeout := cfg.http.shutdownTimeout

/-- The part of `run` that has the client open. -/
def serve (cfg : Config) : Startup Unit := do
  (validateChainID cfg.ethereum.rpcTimeout cfg.ethereum.chainID).mapError
    (Err.wrap "validate Ethereum network")
  Session.request (.runServices cfg.services) succeed

/-- The part of `run` that has the pool open. -/
def connect (cfg : Config) : Startup Unit := do
  (dial cfg.ethereum.rpcURL cfg.ethereum.rpcTimeout).mapError
    (Err.wrap "connect to Ethereum RPC")
  (serve cfg).defer (Session.request .closeClient .ok)

/-- The part of `run` that has its configuration. -/
def start (lib : Libraries) (cfg : Config) : Startup Unit := do
  .lift ((newLogger lib cfg.app.logLevel).mapError (Err.wrap "configure logger"))
  (openPostgres cfg.postgresOptions).mapError (Err.wrap "connect to PostgreSQL")
  (connect cfg).defer (Session.request .closePool .ok)

def run (lib : Libraries) (args : List String) : Startup Unit := do
  let defaultPath ← configPathFromEnvironment
  match ← Session.request (.parseFlags defaultPath args) .ok with
  | .help => return ()
  | .invalid err => .lift (.error (err.wrap "parse arguments"))
  | .parsed configPath rest =>
    failIf (rest ≠ []) ("unexpected arguments: " ++ " ".intercalate rest)
    let cfg ← (load lib configPath).mapError (Err.wrap "load configuration")
    start lib cfg

end Runtime

end EthIndexer
