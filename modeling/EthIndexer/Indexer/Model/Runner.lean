import EthIndexer.Common.Trace
import EthIndexer.Indexer.Model.Syncer
/-!
# The loop around the synchronization

`Run` synchronizes once, and then polls for as long as its context lasts.
Each cycle is `syncWithRetry`, which repeats a synchronization that fails
with an error worth repeating, a bounded number of times and with a wait
in between that doubles.

The loop is a session. Its calls are the synchronization, the wait and
`ctx.Err()`, and a world answers them: with any outcome of a
synchronization or of a wait, and with a context that may end at any time
and then stays ended. A call may also panic, which nothing here recovers.
The poll loop has no end of its own, so `run` is looked at for a number of
poll cycles, and a loop that is still going then ends with `.ok ()`.
-/

namespace EthIndexer

/-- `time.Duration`, in nanoseconds. -/
abbrev Duration := Int64

/-- A syncer with the fields of its `Config` that only the loop reads. -/
structure Runner extends Syncer where
  pollInterval : Duration
  retryAttempts : ℤ
  retryMinBackoff : Duration
  retryMaxBackoff : Duration

namespace Runner

def validateRunConfig (r : Runner) : Go Unit := do
  r.validateSyncOnceConfig
  Go.failIf (r.pollInterval ≤ 0)
    (.because .invalidSyncConfig "poll interval must be greater than zero")
  Go.failIf (r.retryAttempts < 0)
    (.because .invalidSyncConfig "retry attempts cannot be negative")
  Go.failIf (r.retryMinBackoff ≤ 0)
    (.because .invalidSyncConfig "retry minimum backoff must be greater than zero")
  Go.failIf (r.retryMaxBackoff ≤ 0)
    (.because .invalidSyncConfig "retry maximum backoff must be greater than zero")
  Go.failIf (r.retryMinBackoff > r.retryMaxBackoff)
    (.because .invalidSyncConfig "retry minimum backoff cannot exceed maximum backoff")

/-! ## Calls -/

inductive Call
  | sync
  | wait (duration : Duration)
  /-- `ctx.Err()`. -/
  | ctxErr
  deriving DecidableEq

abbrev Answer : Call → Type
  | .sync => Go SyncResult
  | .wait _ => Go Unit
  | .ctxErr => Context

abbrev Event := Session.Event Call Answer

/-- What the loop meets, by the time of the call. A context that has ended
stays ended. -/
structure World where
  sync : ℕ → Go SyncResult
  wait : ℕ → Go Unit
  ctx : ℕ → Context
  sticky : ∀ {i j : ℕ} {err : ContextError}, i ≤ j → ctx i = some err → ctx j = some err

def World.answer (w : World) (time : ℕ) : (c : Call) → Answer c
  | .sync => w.sync time
  | .wait _ => w.wait time
  | .ctxErr => w.ctx time

abbrev Loop (α : Type) := Session Call Answer Fault α

/-- What a call returns; a panic goes through its caller. -/
def returned {α : Type} : Go α → Go (Go α)
  | .error (.panic text) => .error (.panic text)
  | answer => .ok answer

/-- `if ctx.Err() != nil { return ctx.Err() }`, and what follows. The
second look at the context sees what the first one saw. -/
def unlessDone {α : Type} (next : Loop α) : Loop α := do
  match ← Session.request .ctxErr .ok with
  | some err => .lift (.error err.fault)
  | none => next

/-! ## One cycle -/

def nextRetryBackoff (current maximum : Duration) : Duration :=
  if current ≥ maximum ∨ current > maximum - current then maximum else current * 2

/-- `fmt.Errorf("%w after %d attempts: %w", ErrSyncRetriesExhausted, ...)`. -/
def retriesExhausted (attempts : ℕ) : Fault → Fault
  | .error causes text => .error (.syncRetriesExhausted :: causes)
      (Sentinel.syncRetriesExhausted.text ++ s!" after {attempts} attempts: " ++ text)
  | .panic text => .panic text

/-- The body of the loop of `syncWithRetry`; `next` is the rest of the
loop. -/
def attemptSync (r : Runner) (retry : ℕ) (backoff : Duration) (next : Loop SyncResult) :
    Loop SyncResult := do
  match ← Session.request .sync returned with
  | .ok result => return result
  | .error err =>
    unlessDone do
      if isPermanentSyncError err then .lift (.error err)
      else if retry ≥ r.retryAttempts then .lift (.error (retriesExhausted (retry + 1) err))
      else
        match ← Session.request (.wait backoff) returned with
        | .error err => unlessDone (.lift (.error (err.wrap "wait before synchronization retry")))
        | .ok () => next

/-- The loop at `retry`. It ends at `retryAttempts` at the latest, so the
distance up to there is fuel enough. -/
def syncWithRetryFrom (r : Runner) : ℕ → ℕ → Duration → Loop SyncResult
  | 0, retry, backoff => r.attemptSync retry backoff (.lift (.error (.panic "out of fuel")))
  | fuel + 1, retry, backoff =>
    r.attemptSync retry backoff
      (r.syncWithRetryFrom fuel (retry + 1) (nextRetryBackoff backoff r.retryMaxBackoff))

def syncWithRetry (r : Runner) : Loop SyncResult :=
  r.syncWithRetryFrom r.retryAttempts.toNat 0 r.retryMinBackoff

/-- `result, err := s.syncWithRetry(ctx, sync)`. -/
def cycle (r : Runner) : Loop (Go SyncResult) := do
  .lift (returned (← r.syncWithRetry.attempt))

/-! ## The poll loop -/

/-- The `for` loop of `run`, for a number of rounds. -/
def poll (r : Runner) : ℕ → Loop Unit
  | 0 => return ()
  | rounds + 1 => do
    match ← Session.request (.wait r.pollInterval) returned with
    | .error err => unlessDone (.lift (.error (err.wrap "wait for next synchronization")))
    | .ok () =>
      match ← r.cycle with
      | .error _ => unlessDone (r.poll rounds)
      | .ok _ => r.poll rounds

def run (r : Runner) (rounds : ℕ) : Loop Unit := do
  .lift r.validateRunConfig
  match ← r.cycle with
  | .error err => unlessDone (.lift (.error (err.wrap "initial synchronization")))
  | .ok _ => r.poll rounds

end Runner

end EthIndexer
