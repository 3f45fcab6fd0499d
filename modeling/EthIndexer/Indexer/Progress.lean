import EthIndexer.Indexer.Ranger
import Mathlib.Data.Fintype.Card
/-!
# A range is fetched to its end

Until `FetchRange` returns some goroutine can move: a worker that has a
job always can, a worker that waits can once the jobs are closed or the
context is done, and the producer can once a worker waits or the context
is done. What is left is a producer with a job in its hand and no worker
to take it; the workers then left for a reason, and since the jobs are not
closed the reason was the context, so the producer leaves too.

A job costs a worker three steps and the producer one, so every step lowers a
measure (`State.weight`) and no schedule goes on for ever.
-/

namespace EthIndexer

namespace Ranger

open Function

variable {k n : ℕ} {start stop : UInt64} {concurrency : ℤ} {s s' : State k} {actor : Actor k}

/-! ## Some goroutine can move -/

theorem workerCount_pos (hn : 0 < n) : 0 < workerCount concurrency n := by
  simp only [workerCount]
  split_ifs <;> omega

/-- A worker that has not left can move, unless it waits for the jobs. -/
theorem exists_worker_step (start : UInt64) (n : ℕ) {w : Fin k} (hw : s.worker w ≠ .done)
    (hwait : s.worker w = .waiting → s.Done ∨ s.jobsClosed = true) :
    ∃ s', Step start n (.worker w) s s' := by
  cases hat : s.worker w with
  | waiting =>
    rcases hwait hat with hdone | hclosed
    · exact ⟨_, .quit hat hdone⟩
    · exact ⟨_, .drain hat hclosed⟩
  | fetching job => exact ⟨_, .fetch (.ok default) hat⟩
  | fetched job result =>
    cases result with
    | ok bundle => exact ⟨_, .store hat⟩
    | error err => exact ⟨_, .report hat⟩
  | reported => exact ⟨_, .cancel hat⟩
  | done => exact absurd hat hw

/-- So can the producer, unless it waits for a worker. -/
theorem exists_producer_step (start : UInt64) (hp : s.producer ≠ .done)
    (hwait : ∀ i, s.producer = .sending i → i < n → (∃ w, s.worker w = .waiting) ∨ s.Done) :
    ∃ s', Step start n .producer s s' := by
  cases hat : s.producer with
  | sending i =>
    by_cases hi : i < n
    · rcases hwait i hat hi with ⟨w, hw⟩ | hdone
      · exact ⟨_, .send hat hi hw⟩
      · exact ⟨_, .abandon hat hi hdone⟩
    · exact ⟨_, .exhaust hat hi⟩
  | leaving => exact ⟨_, .close hat⟩
  | closed => exact ⟨_, .leave hat⟩
  | done => exact absurd hat hp

/-- **The producer is not left behind.** When all workers have gone while
it still has jobs, the context is done. -/
theorem Orderly.done_of_workers_done (h : Orderly s) (hk : 0 < k)
    (hall : ∀ w, s.worker w = .done) {i : ℕ} (hp : s.producer = .sending i) : s.Done := by
  rcases h.exited ⟨0, hk⟩ (hall _) with hdone | hclosed
  · exact hdone
  · rcases h.closed.1 hclosed with hp' | hp' <;> cases hp.symm.trans hp'

/-- **No state is stuck.** -/
theorem Orderly.exists_step (h : Orderly s) (hk : 0 < k) (hrunning : s.main.Running) :
    ∃ actor s', actor ≠ .context ∧ Step start n actor s s' := by
  cases hm : s.main with
  | waitProducer =>
    by_cases hp : s.producer = .done
    · exact ⟨.main, _, nofun, .waitedProducer hm hp⟩
    by_cases hbusy : ∃ w, s.worker w ≠ .done ∧ s.worker w ≠ .waiting
    · obtain ⟨w, hw, hnot⟩ := hbusy
      obtain ⟨s', hstep⟩ := exists_worker_step start n hw fun h => absurd h hnot
      exact ⟨.worker w, s', nofun, hstep⟩
    -- every worker waits or has gone
    obtain ⟨s', hstep⟩ := exists_producer_step start hp fun i hi _ => by
      by_cases hwaits : ∃ w, s.worker w = .waiting
      · exact Or.inl hwaits
      · refine Or.inr (h.done_of_workers_done hk (fun w => ?_) hi)
        by_contra hw
        exact hbusy ⟨w, hw, fun hwait => hwaits ⟨w, hwait⟩⟩
    exact ⟨.producer, s', nofun, hstep⟩
  | waitWorkers =>
    by_cases hall : ∀ w, s.worker w = .done
    · exact ⟨.main, _, nofun, .waitedWorkers hm hall⟩
    · obtain ⟨w, hw⟩ := not_forall.1 hall
      have hclosed := h.closed.2 (Or.inr (h.producer (by simp [hm])))
      obtain ⟨s', hstep⟩ := exists_worker_step start n hw
        fun _ => Or.inr hclosed
      exact ⟨.worker w, s', nofun, hstep⟩
  | selectError =>
    cases herr : s.errCh with
    | some err => exact ⟨.main, _, nofun, .receiveError hm herr⟩
    | none => exact ⟨.main, _, nofun, .noError hm herr⟩
  | checkContext =>
    cases hctx : s.ctx with
    | some err => exact ⟨.main, _, nofun, .contextError hm hctx⟩
    | none => exact ⟨.main, _, nofun, .validate hm hctx⟩
  | returned answer => exact absurd hm (hrunning answer)

/-! ## Every schedule ends -/

def Producer.weight (n : ℕ) : Producer → ℕ
  | .sending i => 3 * (n - i) + 3
  | .leaving => 2
  | .closed => 1
  | .done => 0

def Worker.weight : Worker → ℕ
  | .waiting => 1
  | .fetching _ => 3
  | .fetched _ _ => 2
  | .reported => 1
  | .done => 0

def Main.weight : Main → ℕ
  | .waitProducer => 4
  | .waitWorkers => 3
  | .selectError => 2
  | .checkContext => 1
  | .returned _ => 0

/-- How many steps are left at most. -/
def State.weight (n : ℕ) (s : State k) : ℕ :=
  s.producer.weight n + ∑ w, (s.worker w).weight + s.main.weight +
    (if s.ctx = none then 1 else 0) + if s.propagated then 0 else 1

/-- A worker that has less to do, and nothing else that counts changed. -/
theorem State.weight_lt_of_worker {w : Fin k} {place : Worker}
    (hworker : s'.worker = update s.worker w place) (hlt : place.weight < (s.worker w).weight)
    (hp : s'.producer = s.producer) (hm : s'.main = s.main) (hctx : s'.ctx = s.ctx)
    (hpropagated : s'.propagated = s.propagated) : s'.weight n < s.weight n := by
  have hsum := Steps.sum_update_add Worker.weight s.worker w place
  simp only [State.weight, hworker, hp, hm, hctx, hpropagated]
  omega

/-- **Every step lowers the measure.** -/
theorem lowers_weight : Steps.Lowers (Next start n) (State.weight n : State k → ℕ) := by
  rintro s s' ⟨actor, hstep⟩
  cases hstep with
  | @send _ i w hp hi hw =>
    -- of the three that a job has with the producer two go to the worker
    have hsum := Steps.sum_update_add Worker.weight s.worker w
      (.fetching ⟨i, start + UInt64.ofNat i⟩)
    simp only [State.weight, hp, hw, Producer.weight, Worker.weight] at hsum ⊢
    omega
  | exhaust hp hi | abandon hp hi | close hp | leave hp =>
    simp only [State.weight, hp, Producer.weight]
    omega
  | quit hw | drain hw | fetch _ hw | store hw | report hw | cancel hw =>
    exact State.weight_lt_of_worker rfl (by rw [hw]; exact Nat.lt_add_one _) rfl rfl rfl rfl
  | waitedProducer hm | waitedWorkers hm | receiveError hm | noError hm | contextError hm
  | validate hm =>
    simp only [State.weight, hm, Main.weight]
    omega
  | callerDone err hm hctx =>
    simp only [State.weight, hctx]
    simp
  | propagate hm hctx hnot =>
    simp only [State.weight, hnot]
    simp

/-- What is left at the beginning. -/
theorem weight_init : (State.init k n).weight n = 3 * n + k + 9 := by
  simp [State.weight, State.init, Producer.weight, Worker.weight, Main.weight,
    Finset.card_univ]
  omega

/-- **A range is fetched to its end.** In every state that an interleaving
comes to before `FetchRange` has returned, some goroutine can move; the
producer is not left with a job when all workers have gone, unless the
context lets it go too, and no worker waits for jobs that the producer
will not close. No schedule takes more than three steps a block, one a
worker and nine. -/
theorem Reachable.progress (start stop : UInt64) (concurrency : ℤ) :
    (∀ s, Reachable start stop concurrency s →
      (s.main.Running → ∃ actor s', actor ≠ .context ∧
        Step start (blockCount start stop) actor s s') ∧
      (∀ i, s.producer = .sending i → (∀ w, s.worker w = .done) → s.Done) ∧
      (s.producer = .done → s.jobsClosed = true)) ∧
    (∀ (run : ℕ → State (workerCount concurrency (blockCount start stop))) (steps : ℕ),
      run 0 = .init _ (blockCount start stop) →
      (∀ i < steps, Next start (blockCount start stop) (run i) (run (i + 1))) →
      steps ≤ 3 * blockCount start stop + workerCount concurrency (blockCount start stop) + 9) := by
  have hk : 0 < workerCount concurrency (blockCount start stop) := workerCount_pos (Nat.succ_pos _)
  refine ⟨fun s hs => ?_, fun run steps hinit hrun => ?_⟩
  · have horderly := hs.invariant.orderly
    exact ⟨horderly.exists_step hk, fun i hp hall => horderly.done_of_workers_done hk hall hp,
      fun hp => horderly.closed.2 (Or.inr hp)⟩
  · have hle := lowers_weight.length_le hrun
    rwa [hinit, weight_init] at hle

/-- Three blocks and two workers: twenty steps at most. -/
theorem progress_seven_to_nine :
    (∃ actor s', actor ≠ .context ∧ Step 7 3 actor (State.init 2 3) s') ∧
      ∀ (run : ℕ → State 2) (steps : ℕ), run 0 = .init 2 3 →
        (∀ i < steps, Next 7 3 (run i) (run (i + 1))) → steps ≤ 20 := by
  obtain ⟨hstates, hruns⟩ := Reachable.progress 7 9 2
  exact ⟨(hstates _ .refl).1 nofun, hruns⟩

end Ranger

end EthIndexer
