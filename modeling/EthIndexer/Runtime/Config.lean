import EthIndexer.Indexer.Runner
import EthIndexer.Runtime.Model.Startup
/-!
# What a validated configuration is good for

`Validate` accepts exactly the valid configurations. The defaults are
valid but for the two URLs, which have none. A valid configuration is one
that the syncer accepts as well: the checks of `Run` and `SyncOnce`, which
are written anew in their own package, never fail on it.
-/

namespace EthIndexer

namespace Runtime

variable {lib : Libraries} {cfg : Config}

/-! ## Single checks -/

theorem positiveDuration_eq_none_iff {name : String} {value : Duration} :
    positiveDuration name value = none ↔ 0 < value := by
  simp [positiveDuration, Int64.not_le]

theorem forall_problemIf_iff {failed : Prop} [Decidable failed] {text : String} :
    (∀ problem ∈ problemIf failed text, problem = none) ↔ ¬ failed := by
  unfold problemIf
  split <;> simp_all

/-- A URL the configuration accepts. -/
def AcceptedURL (lib : Libraries) (raw : String) (allowedSchemes : List String) : Prop :=
  trimSpace raw ≠ "" ∧
    ∃ parsed, lib.parseRequestURI raw = some parsed ∧ parsed.host ≠ "" ∧
      parsed.scheme ∈ allowedSchemes

theorem validateURL_eq_none_iff {name raw : String} {allowedSchemes : List String} :
    validateURL lib name raw allowedSchemes = none ↔ AcceptedURL lib raw allowedSchemes := by
  unfold validateURL AcceptedURL
  split
  · simp_all
  · cases hparse : lib.parseRequestURI raw with
    | none => simp
    | some parsed => by_cases hhost : parsed.host = "" <;> simp_all

theorem headModeKnown_iff {mode : HeadMode} :
    HeadModeKnown mode ↔ ∀ text quoted, mode ≠ .unsupported text quoted := by
  cases mode <;> simp [HeadModeKnown]

/-! ## The whole record -/

structure App.Valid (app : App) : Prop where
  environment : trimSpace app.environment ≠ ""
  logLevel : trimSpace app.logLevel ≠ ""

structure HTTP.Valid (http : HTTP) : Prop where
  address : trimSpace http.address ≠ ""
  requestTimeout : 0 < http.requestTimeout
  readHeaderTimeout : 0 < http.readHeaderTimeout
  idleTimeout : 0 < http.idleTimeout
  shutdownTimeout : 0 < http.shutdownTimeout

structure Ethereum.Valid (lib : Libraries) (ethereum : Ethereum) : Prop where
  rpcURL : AcceptedURL lib ethereum.rpcURL ["http", "https"]
  chainID : ethereum.chainID = 1
  rpcTimeout : 0 < ethereum.rpcTimeout
  rpcConcurrency : 1 ≤ ethereum.rpcConcurrency ∧ ethereum.rpcConcurrency ≤ 64

structure Indexer.Valid (indexer : Indexer) : Prop where
  pollInterval : 0 < indexer.pollInterval
  blockWindow : indexer.blockWindow ≠ 0 ∧ indexer.blockWindow ≤ maxBlockWindow
  headMode : ∀ text quoted, indexer.headMode ≠ .unsupported text quoted
  retryAttempts : 0 ≤ indexer.retryAttempts
  retryMinBackoff : 0 < indexer.retryMinBackoff
  retryMaxBackoff : 0 < indexer.retryMaxBackoff
  ordered : indexer.retryMinBackoff ≤ indexer.retryMaxBackoff

structure Database.Valid (lib : Libraries) (database : Database) : Prop where
  url : AcceptedURL lib database.url ["postgres", "postgresql"]
  maxConnections : 1 ≤ database.maxConnections
  minConnections : 0 ≤ database.minConnections ∧ database.minConnections ≤ database.maxConnections
  connectTimeout : 0 < database.connectTimeout

structure Config.Valid (lib : Libraries) (cfg : Config) : Prop where
  app : cfg.app.Valid
  http : cfg.http.Valid
  ethereum : cfg.ethereum.Valid lib
  indexer : cfg.indexer.Valid
  database : cfg.database.Valid lib

theorem HTTP.forall_problems_iff {http : HTTP} :
    (∀ problem ∈ http.problems, problem = none) ↔ http.Valid := by
  simp only [HTTP.problems, List.forall_mem_append, forall_problemIf_iff, List.forall_mem_cons,
    positiveDuration_eq_none_iff, List.not_mem_nil, IsEmpty.forall_iff, implies_true, and_true]
  constructor
  · rintro ⟨h₁, h₂, h₃, h₄, h₅⟩
    exact ⟨h₁, h₂, h₃, h₄, h₅⟩
  · intro h
    exact ⟨h.address, h.requestTimeout, h.readHeaderTimeout, h.idleTimeout, h.shutdownTimeout⟩

theorem Ethereum.forall_problems_iff {ethereum : Ethereum} :
    (∀ problem ∈ ethereum.problems lib, problem = none) ↔ ethereum.Valid lib := by
  simp only [Ethereum.problems, List.forall_mem_append, forall_problemIf_iff, List.forall_mem_cons,
    positiveDuration_eq_none_iff, validateURL_eq_none_iff, List.not_mem_nil, IsEmpty.forall_iff,
    implies_true, and_true, not_or, not_lt, gt_iff_lt, ne_eq, not_not]
  constructor
  · rintro ⟨⟨⟨h₁, h₂⟩, h₃⟩, h₄⟩
    exact ⟨h₁, h₂, h₃, h₄⟩
  · intro h
    exact ⟨⟨⟨h.rpcURL, h.chainID⟩, h.rpcTimeout⟩, h.rpcConcurrency⟩

theorem Indexer.forall_problems_iff {indexer : Indexer} :
    (∀ problem ∈ indexer.problems, problem = none) ↔ indexer.Valid := by
  simp only [Indexer.problems, List.forall_mem_append, forall_problemIf_iff, List.forall_mem_cons,
    positiveDuration_eq_none_iff, headModeKnown_iff, List.not_mem_nil, IsEmpty.forall_iff,
    implies_true, and_true, not_or, not_lt, gt_iff_lt, UInt64.not_lt, Int64.not_lt, not_not]
  constructor
  · rintro ⟨⟨⟨⟨⟨h₁, h₂⟩, h₃⟩, h₄⟩, h₅, h₆⟩, h₇⟩
    exact ⟨h₁, h₂, h₃, h₄, h₅, h₆, h₇⟩
  · intro h
    exact ⟨⟨⟨⟨⟨h.pollInterval, h.blockWindow⟩, h.headMode⟩, h.retryAttempts⟩,
      h.retryMinBackoff, h.retryMaxBackoff⟩, h.ordered⟩

theorem Database.forall_problems_iff {database : Database} :
    (∀ problem ∈ database.problems lib, problem = none) ↔ database.Valid lib := by
  simp only [Database.problems, List.forall_mem_append, forall_problemIf_iff, List.forall_mem_cons,
    positiveDuration_eq_none_iff, validateURL_eq_none_iff, List.not_mem_nil, IsEmpty.forall_iff,
    implies_true, and_true, not_or, gt_iff_lt, Int32.not_lt]
  constructor
  · rintro ⟨⟨⟨h₁, h₂⟩, h₃⟩, h₄⟩
    exact ⟨h₁, h₂, h₃, h₄⟩
  · intro h
    exact ⟨⟨⟨h.url, h.maxConnections⟩, h.minConnections⟩, h.connectTimeout⟩

theorem joinErrors_eq_none_iff {problems : List (Option String)} :
    joinErrors problems.reduceOption = none ↔ ∀ problem ∈ problems, problem = none := by
  have hnil : problems.reduceOption = [] ↔ ∀ problem ∈ problems, problem = none := by
    simp [List.reduceOption]
  rw [← hnil]
  cases problems.reduceOption <;> simp [joinErrors]

/-- **`Validate` accepts exactly what is valid.** -/
theorem Config.validate_eq_none_iff : cfg.validate lib = none ↔ cfg.Valid lib := by
  simp only [Config.validate, joinErrors_eq_none_iff, Config.problems, List.forall_mem_append,
    forall_problemIf_iff, HTTP.forall_problems_iff, Ethereum.forall_problems_iff,
    Indexer.forall_problems_iff, Database.forall_problems_iff]
  constructor
  · rintro ⟨⟨⟨⟨⟨h₁, h₂⟩, h₃⟩, h₄⟩, h₅⟩, h₆⟩
    exact ⟨⟨h₁, h₂⟩, h₃, h₄, h₅, h₆⟩
  · intro h
    exact ⟨⟨⟨⟨⟨h.app.environment, h.app.logLevel⟩, h.http⟩, h.ethereum⟩, h.indexer⟩, h.database⟩

/-- **The syncer accepts what the configuration has accepted.** -/
theorem Config.Valid.validateRunConfig (h : cfg.Valid lib) :
    cfg.services.runner.validateRunConfig = .ok () := by
  refine Runner.validateRunConfig_eq_ok_iff.2 ⟨?_, h.indexer.pollInterval, h.indexer.retryAttempts,
    h.indexer.retryMinBackoff, h.indexer.retryMaxBackoff, h.indexer.ordered⟩
  refine validateSyncOnceConfig_eq_ok_iff.2 ⟨_, rfl, ?_, rfl, h.indexer.blockWindow.1,
    h.indexer.blockWindow.2, rfl, rfl, h.ethereum.rpcConcurrency.1, h.indexer.headMode⟩
  change cfg.ethereum.chainID ≠ 0
  rw [h.ethereum.chainID]
  decide

/-- The fetcher is one for the main chain. -/
theorem Config.Valid.fetcher (h : cfg.Valid lib) :
    cfg.services.runner.fetcher = some { chainID := some 1 } := by
  change some (Fetcher.mk (some (cfg.ethereum.chainID.toNat : ℤ))) = _
  rw [h.ethereum.chainID]
  rfl

end Runtime

end EthIndexer
