import EthIndexer.Indexer.Model.Fetcher
import Mathlib.Logic.Function.Basic
import Mathlib.Logic.Relation
/-!
# The workers of a range

`FetchRange` as the goroutines it starts. A producer hands out the jobs of
the range over an unbuffered channel, `workerCount` workers take one job
after the other, and the main goroutine waits for the producer and then
for the workers. They meet at the channel of jobs, at the error channel,
which has room for one, and at the worker context, which the first failing
worker cancels and the caller's context ends.

A state is where each goroutine stands and what they share; `Step` is one
step of one of them. A goroutine that has been started and not scheduled
stands at its first statement, so all of them stand there at the beginning.
What `FetchBlock` returns is left to the step, and so is the moment at
which the caller's context ends. Every interleaving is a run of `Step`.
-/

namespace EthIndexer

namespace Ranger

/-! ## Where a goroutine stands -/

/-- `fetchJob`. -/
structure FetchJob where
  index : ℕ
  blockNumber : UInt64
  deriving DecidableEq

inductive Producer
  /-- At the head of its loop, with `i` jobs handed out. -/
  | sending (i : ℕ)
  /-- Out of the loop, before `close(jobs)`. -/
  | leaving
  /-- Before `pWg.Done()`. -/
  | closed
  | done

inductive Worker
  /-- At the `select` on the context and the jobs. -/
  | waiting
  | fetching (job : FetchJob)
  /-- `FetchBlock` has returned. -/
  | fetched (job : FetchJob) (result : Go BlockBundle)
  /-- Past the error channel, before `cancel()`. -/
  | reported
  | done

inductive Main
  /-- At `pWg.Wait()`. -/
  | waitProducer
  /-- At `cWg.Wait()`. -/
  | waitWorkers
  /-- At the `select` on the error channel. -/
  | selectError
  /-- At `ctx.Err()`. -/
  | checkContext
  | returned (answer : Go (List BlockBundle))

def Main.Running (main : Main) : Prop := ∀ answer, main ≠ .returned answer

/-- A call of `FetchBlock` that has returned, and whether a worker had
cancelled the worker context by then. -/
structure FetchCall where
  job : FetchJob
  result : Go BlockBundle
  cancelled : Bool

/-- Where `k` workers and the two other goroutines stand, and what they
share. `calls` is the history of `FetchBlock`; nothing reads it. -/
structure State (k : ℕ) where
  producer : Producer
  worker : Fin k → Worker
  main : Main
  bundles : List BlockBundle
  jobsClosed : Bool
  errCh : Option Fault
  /-- The caller's context. -/
  ctx : Context
  /-- A worker has called `cancel`. -/
  cancelled : Bool
  /-- The end of the caller's context has reached the worker context. -/
  propagated : Bool
  calls : List FetchCall

/-- `<-workerCtx.Done()` is ready. -/
def State.Done {k : ℕ} (s : State k) : Prop := s.cancelled = true ∨ s.propagated = true

/-! ## Steps -/

/-- Who makes a step. -/
inductive Actor (k : ℕ)
  | producer
  | worker (w : Fin k)
  | main
  /-- The caller's context, from outside. -/
  | context

/-- The error a worker sends. -/
def failedToFetch (job : FetchJob) (err : Fault) : Fault :=
  err.wrap s!"failed to fetch block {job.blockNumber}"

open Function in
/-- **One step** of the range that begins at `start` and has `blockCount`
blocks. -/
inductive Step {k : ℕ} (start : UInt64) (blockCount : ℕ) : Actor k → State k → State k → Prop
  /-- The producer hands a job to a worker. -/
  | send {s : State k} {i : ℕ} {w : Fin k} (hp : s.producer = .sending i) (hi : i < blockCount)
      (hw : s.worker w = .waiting) :
      Step start blockCount .producer s
        { s with
          producer := .sending (i + 1)
          worker := update s.worker w (.fetching ⟨i, start + UInt64.ofNat i⟩) }
  | exhaust {s : State k} {i : ℕ} (hp : s.producer = .sending i) (hi : ¬ i < blockCount) :
      Step start blockCount .producer s { s with producer := .leaving }
  | abandon {s : State k} {i : ℕ} (hp : s.producer = .sending i) (hi : i < blockCount)
      (hdone : s.Done) : Step start blockCount .producer s { s with producer := .leaving }
  | close {s : State k} (hp : s.producer = .leaving) :
      Step start blockCount .producer s { s with producer := .closed, jobsClosed := true }
  | leave {s : State k} (hp : s.producer = .closed) :
      Step start blockCount .producer s { s with producer := .done }
  /-- A worker sees the end of its context. -/
  | quit {s : State k} {w : Fin k} (hw : s.worker w = .waiting) (hdone : s.Done) :
      Step start blockCount (.worker w) s { s with worker := update s.worker w .done }
  /-- A worker sees that the jobs are closed. -/
  | drain {s : State k} {w : Fin k} (hw : s.worker w = .waiting) (hclosed : s.jobsClosed = true) :
      Step start blockCount (.worker w) s { s with worker := update s.worker w .done }
  | fetch {s : State k} {w : Fin k} {job : FetchJob} (result : Go BlockBundle)
      (hw : s.worker w = .fetching job) :
      Step start blockCount (.worker w) s
        { s with
          worker := update s.worker w (.fetched job result)
          calls := s.calls ++ [⟨job, result, s.cancelled⟩] }
  | store {s : State k} {w : Fin k} {job : FetchJob} {bundle : BlockBundle}
      (hw : s.worker w = .fetched job (.ok bundle)) :
      Step start blockCount (.worker w) s
        { s with
          worker := update s.worker w .waiting
          bundles := s.bundles.set job.index bundle }
  /-- A worker sends its error, where the channel is empty. -/
  | report {s : State k} {w : Fin k} {job : FetchJob} {err : Fault}
      (hw : s.worker w = .fetched job (.error err)) :
      Step start blockCount (.worker w) s
        { s with
          worker := update s.worker w .reported
          errCh := s.errCh.or (some (failedToFetch job err)) }
  | cancel {s : State k} {w : Fin k} (hw : s.worker w = .reported) :
      Step start blockCount (.worker w) s
        { s with worker := update s.worker w .done, cancelled := true }
  | waitedProducer {s : State k} (hm : s.main = .waitProducer) (hp : s.producer = .done) :
      Step start blockCount .main s { s with main := .waitWorkers }
  | waitedWorkers {s : State k} (hm : s.main = .waitWorkers) (hall : ∀ w, s.worker w = .done) :
      Step start blockCount .main s { s with main := .selectError }
  | receiveError {s : State k} {err : Fault} (hm : s.main = .selectError)
      (herr : s.errCh = some err) :
      Step start blockCount .main s { s with main := .returned (.error err), errCh := none }
  | noError {s : State k} (hm : s.main = .selectError) (herr : s.errCh = none) :
      Step start blockCount .main s { s with main := .checkContext }
  | contextError {s : State k} {err : ContextError} (hm : s.main = .checkContext)
      (hctx : s.ctx = some err) :
      Step start blockCount .main s { s with main := .returned (.error err.fault) }
  | validate {s : State k} (hm : s.main = .checkContext) (hctx : s.ctx = none) :
      Step start blockCount .main s
        { s with main := .returned (do
            validateFetchedBundles s.bundles start
            return s.bundles) }
  /-- The caller's context ends. -/
  | callerDone {s : State k} (err : ContextError) (hm : s.main.Running) (hctx : s.ctx = none) :
      Step start blockCount .context s { s with ctx := some err }
  | propagate {s : State k} (hm : s.main.Running) (hctx : s.ctx ≠ none)
      (hnot : s.propagated = false) :
      Step start blockCount .context s { s with propagated := true }

/-! ## Runs -/

/-- The number of blocks of a range. -/
def blockCount (start stop : UInt64) : ℕ := (stop - start).toNat + 1

/-- The number of workers that are started. -/
def workerCount (concurrency : ℤ) (blockCount : ℕ) : ℕ :=
  let concurrency := if concurrency < 1 then 1 else concurrency
  (if concurrency > blockCount then (blockCount : ℤ) else concurrency).toNat

/-- All goroutines started, and an array of zero bundles. -/
def State.init (k blockCount : ℕ) : State k where
  producer := .sending 0
  worker _ := .waiting
  main := .waitProducer
  bundles := List.replicate blockCount default
  jobsClosed := false
  errCh := none
  ctx := none
  cancelled := false
  propagated := false
  calls := []

/-- One step of whoever it is. -/
def Next {k : ℕ} (start : UInt64) (blockCount : ℕ) (s s' : State k) : Prop :=
  ∃ actor, Step start blockCount actor s s'

/-- **The states of a range**: what any interleaving comes to. The caller's
context may have ended before the call. -/
def Reachable (start stop : UInt64) (concurrency : ℤ)
    (s : State (workerCount concurrency (blockCount start stop))) : Prop :=
  Relation.ReflTransGen (Next start (blockCount start stop)) (.init _ (blockCount start stop)) s

end Ranger

end EthIndexer
