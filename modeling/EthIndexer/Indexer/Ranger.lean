import EthIndexer.Common.Steps
import EthIndexer.Indexer.Chain
import EthIndexer.Indexer.Model.Ranger
/-!
# Every schedule of a range

The producer hands out each height once, and a height that has been handed
out is with a worker or among the calls that have returned (`Jobs`). A
worker that fails leaves an error in the channel before it cancels, so the
error in the channel is from before any cancellation (`Errors`). When the
main goroutine comes to its checks all goroutines are done (`Orderly`);
then either the channel holds an error, or the caller's context has ended,
or every height has been fetched and stored. Every step lowers a measure
and some goroutine can always move, so every schedule comes to an end.
-/

namespace EthIndexer

namespace Ranger

open Function

variable {k n : ℕ} {start stop : UInt64} {s s' : State k} {actor : Actor k}

/-! ## Where the goroutines stand -/

/-- **The goroutines leave in order.** -/
structure Orderly (s : State k) : Prop where
  closed : s.jobsClosed = true ↔ s.producer = .closed ∨ s.producer = .done
  exited : ∀ w, s.worker w = .done → s.Done ∨ s.jobsClosed = true
  producer : s.main ≠ .waitProducer → s.producer = .done
  workers : s.main ≠ .waitProducer → s.main ≠ .waitWorkers → ∀ w, s.worker w = .done
  propagated : s.propagated = true → s.ctx ≠ none
  checked : s.main = .checkContext → s.errCh = none

theorem orderly_init : Orderly (State.init k n) where
  closed := by simp [State.init]
  exited w h := by cases h
  producer h := absurd rfl h
  workers h := absurd rfl h
  propagated h := by cases h
  checked h := by cases h

/-- The worker context stays done. -/
theorem Step.done (hstep : Step start n actor s s') (h : s.Done) : s'.Done := by
  cases hstep with
  | cancel => exact Or.inl rfl
  | propagate => exact Or.inr rfl
  | _ => exact h

/-- The channel of jobs stays closed. -/
theorem Step.jobsClosed (hstep : Step start n actor s s') (h : s.jobsClosed = true) :
    s'.jobsClosed = true := by
  cases hstep with
  | close => rfl
  | _ => exact h

/-- The producer does nothing after it is done. -/
theorem Step.producer_done (hstep : Step start n actor s s') (h : s.producer = .done) :
    s'.producer = .done := by
  cases hstep with
  | send hp | exhaust hp | abandon hp | close hp | leave hp => cases hp.symm.trans h
  | _ => exact h

/-- **What a step does with the workers.** One that was not done moves on,
and leaves only at the end of its context or of the jobs, or all stay. -/
theorem Step.worker_cases (hstep : Step start n actor s s') :
    s'.worker = s.worker ∨ ∃ w p, s'.worker = update s.worker w p ∧ s.worker w ≠ .done ∧
      (p = .done → s'.Done ∨ s'.jobsClosed = true) := by
  cases hstep with
  | send _ _ hw | fetch _ hw | store hw | report hw =>
    exact Or.inr ⟨_, _, rfl, by rw [hw]; nofun, nofun⟩
  | quit hw hdone => exact Or.inr ⟨_, _, rfl, by rw [hw]; nofun, fun _ => Or.inl hdone⟩
  | drain hw hclosed => exact Or.inr ⟨_, _, rfl, by rw [hw]; nofun, fun _ => Or.inr hclosed⟩
  | cancel hw => exact Or.inr ⟨_, _, rfl, by rw [hw]; nofun, fun _ => Or.inl (Or.inl rfl)⟩
  | _ => exact Or.inl rfl

/-- A worker that has ended does nothing more. -/
theorem Step.worker_done {w : Fin k} (hstep : Step start n actor s s')
    (h : s.worker w = .done) : s'.worker w = .done := by
  rcases hstep.worker_cases with heq | ⟨w', p, heq, hne, -⟩
  · rw [heq, h]
  · have hww : w ≠ w' := fun hww => hne (hww ▸ h)
    rw [heq, update_of_ne hww, h]

/-- Each goroutine takes its steps in order. -/
theorem Orderly.step (h : Orderly s) (hstep : Step start n actor s s') : Orderly s' := by
  have hproducer := hstep.producer_done
  have hworker := fun w => hstep.worker_done (w := w)
  have hexited : ∀ w, s.worker w = .done → s'.Done ∨ s'.jobsClosed = true :=
    fun w hw => (h.exited w hw).imp hstep.done hstep.jobsClosed
  refine ⟨?_, fun w hw => ?_, ?_, ?_, ?_, ?_⟩
  -- the producer closes the channel and does not come back before it
  · cases hstep with
    | close => simp
    | send hp | exhaust hp | abandon hp | leave hp => simpa [hp] using h.closed
    | _ => exact h.closed
  · rcases hstep.worker_cases with heq | ⟨w', p, heq, -, hleaves⟩
    · exact hexited w (heq ▸ hw)
    · rw [heq] at hw
      by_cases hww : w = w'
      · rw [hww, update_self] at hw
        exact hleaves hw
      · rw [update_of_ne hww] at hw
        exact hexited w hw
  · cases hstep with
    | waitedProducer _ hp => exact fun _ => hp
    | waitedWorkers hm | receiveError hm | noError hm | contextError hm | validate hm =>
      exact fun _ => h.producer (by rw [hm]; nofun)
    | _ => exact fun hm => hproducer (h.producer hm)
  · cases hstep with
    | waitedProducer => exact fun _ hm => absurd rfl hm
    | waitedWorkers _ hall => exact fun _ _ => hall
    | receiveError hm | noError hm | contextError hm | validate hm =>
      exact fun _ _ => h.workers (by rw [hm]; nofun) (by rw [hm]; nofun)
    | _ => exact fun hm hm' w => hworker w (h.workers hm hm' w)
  · cases hstep with
    | callerDone => exact fun _ => nofun
    | propagate _ hctx => exact fun _ => hctx
    | _ => exact h.propagated
  · cases hstep with
    | report hw =>
      -- by then every worker is done, and has nothing to report
      intro hm
      have hdone := h.workers (by rw [hm]; nofun) (by rw [hm]; nofun)
      cases hw.symm.trans (hdone _)
    | noError _ herr => exact fun _ => herr
    | waitedProducer | waitedWorkers | receiveError | contextError | validate => nofun
    | _ => exact h.checked

/-! ## The jobs -/

/-- A height that has been handed out: the call for it has returned or is
under way. -/
def State.Taken (s : State k) (i : ℕ) : Prop :=
  (∃ c ∈ s.calls, c.job.index = i) ∨ ∃ w job, s.worker w = .fetching job ∧ job.index = i

/-- **What a step does with the jobs.** It hands one out, or a call
returns, or the jobs stay where they are, though the producer may leave. -/
theorem Step.jobs_cases (hstep : Step start n actor s s') :
    (∃ i w, s.producer = .sending i ∧ i < n ∧ s.worker w = .waiting ∧
      s'.producer = .sending (i + 1) ∧ s'.calls = s.calls ∧
      s'.worker = update s.worker w (.fetching ⟨i, start + UInt64.ofNat i⟩)) ∨
    (∃ w job result, s.worker w = .fetching job ∧ s'.producer = s.producer ∧
      s'.calls = s.calls ++ [⟨job, result, s.cancelled⟩] ∧
      s'.worker = update s.worker w (.fetched job result)) ∨
    (s'.calls = s.calls ∧ (∀ w job, s'.worker w = .fetching job ↔ s.worker w = .fetching job) ∧
      (s'.producer = s.producer ∨ (∀ i, s'.producer ≠ .sending i) ∧
        ∀ i, s.producer = .sending i → n ≤ i ∨ s.Done)) := by
  cases hstep with
  | send hp hi hw => exact Or.inl ⟨_, _, hp, hi, hw, rfl, rfl, rfl⟩
  | fetch result hw => exact Or.inr (Or.inl ⟨_, _, result, hw, rfl, rfl, rfl⟩)
  | exhaust hp hi =>
    refine Or.inr (Or.inr ⟨rfl, fun _ _ => Iff.rfl, Or.inr ⟨nofun, fun i hi' => ?_⟩⟩)
    cases hp.symm.trans hi'
    exact Or.inl (not_lt.1 hi)
  | abandon hp hi hdone =>
    exact Or.inr (Or.inr ⟨rfl, fun _ _ => Iff.rfl, Or.inr ⟨nofun, fun _ _ => Or.inr hdone⟩⟩)
  | close hp | leave hp =>
    refine Or.inr (Or.inr ⟨rfl, fun _ _ => Iff.rfl, Or.inr ⟨nofun, fun i hi => ?_⟩⟩)
    cases hp.symm.trans hi
  | quit hw _ | drain hw _ | store hw | report hw | cancel hw =>
    refine Or.inr (Or.inr ⟨rfl, fun w' job => ?_, Or.inl rfl⟩)
    -- the worker that moves was not fetching and does not begin to
    grind [update_apply]
  | _ => exact Or.inr (Or.inr ⟨rfl, fun _ _ => Iff.rfl, Or.inl rfl⟩)

/-- **Each height is handed out once.** `sent` heights have been, in
order; each is with one worker or has been the subject of one call. -/
structure Jobs (start : UInt64) (n : ℕ) (s : State k) (sent : ℕ) : Prop where
  le : sent ≤ n
  sending : ∀ i, s.producer = .sending i → i = sent
  left : (∀ i, s.producer ≠ .sending i) → sent = n ∨ s.Done
  taken : ∀ i, s.Taken i ↔ i < sent
  nodup : (s.calls.map fun c => c.job.index).Nodup
  once : ∀ w job, s.worker w = .fetching job → ∀ c ∈ s.calls, c.job.index ≠ job.index
  apart : ∀ w w' job job', s.worker w = .fetching job → s.worker w' = .fetching job' →
    job.index = job'.index → w = w'
  called : ∀ c ∈ s.calls, c.job.blockNumber = start + UInt64.ofNat c.job.index
  fetching : ∀ w job, s.worker w = .fetching job →
    job.blockNumber = start + UInt64.ofNat job.index

theorem jobs_init : Jobs start n (State.init k n) 0 where
  le := Nat.zero_le n
  sending i h := by cases h; rfl
  left h := absurd rfl (h 0)
  taken i := by simp [State.Taken, State.init]
  nodup := List.nodup_nil
  once _ _ h := by cases h
  apart _ _ _ _ h := by cases h
  called _ h := absurd h List.not_mem_nil
  fetching _ _ h := by cases h

theorem Jobs.send {sent i : ℕ} {w : Fin k} (h : Jobs start n s sent)
    (hp : s.producer = .sending i) (hi : i < n) (hw : s.worker w = .waiting)
    (hp' : s'.producer = .sending (i + 1)) (hcalls : s'.calls = s.calls)
    (hworker : s'.worker = update s.worker w (.fetching ⟨i, start + UInt64.ofNat i⟩)) :
    Jobs start n s' (sent + 1) := by
  obtain rfl := h.sending i hp
  have hfetching : ∀ w' job, s'.worker w' = .fetching job ↔
      (w' = w ∧ job = ⟨i, start + UInt64.ofNat i⟩) ∨ s.worker w' = .fetching job := by
    intro w' job
    rw [hworker]
    grind [update_apply]
  -- what is under way already has an index below `i`
  have hbelow : ∀ w' job, s.worker w' = .fetching job → job.index < i := fun w' job hjob =>
    (h.taken _).1 (Or.inr ⟨w', job, hjob, rfl⟩)
  refine ⟨hi, fun j hj => ?_, fun hleft => absurd hp' (hleft _), fun j => ?_, hcalls ▸ h.nodup,
    ?_, ?_, by rw [hcalls]; exact h.called, ?_⟩
  · cases hp'.symm.trans hj
    rfl
  · have htaken : s'.Taken j ↔ s.Taken j ∨ j = i := by
      simp only [State.Taken, hcalls, hfetching]
      grind
    rw [htaken, h.taken]
    omega
  · intro w' job hjob c hc
    rw [hcalls] at hc
    rcases (hfetching w' job).1 hjob with ⟨-, rfl⟩ | hjob
    · exact ne_of_lt ((h.taken _).1 (Or.inl ⟨c, hc, rfl⟩))
    · exact h.once w' job hjob c hc
  · intro w₁ w₂ job₁ job₂ h₁ h₂ hindex
    rcases (hfetching w₁ job₁).1 h₁ with ⟨rfl, rfl⟩ | h₁ <;>
      rcases (hfetching w₂ job₂).1 h₂ with ⟨rfl, rfl⟩ | h₂
    · rfl
    · exact absurd hindex.symm (ne_of_lt (hbelow w₂ job₂ h₂))
    · exact absurd hindex (ne_of_lt (hbelow w₁ job₁ h₁))
    · exact h.apart w₁ w₂ job₁ job₂ h₁ h₂ hindex
  · intro w' job hjob
    rcases (hfetching w' job).1 hjob with ⟨-, rfl⟩ | hjob
    · rfl
    · exact h.fetching w' job hjob

theorem Jobs.fetch {sent : ℕ} {w : Fin k} {job : FetchJob} {result : Go BlockBundle}
    (h : Jobs start n s sent) (hw : s.worker w = .fetching job) (hdone : s.Done → s'.Done)
    (hp' : s'.producer = s.producer)
    (hcalls : s'.calls = s.calls ++ [⟨job, result, s.cancelled⟩])
    (hworker : s'.worker = update s.worker w (.fetched job result)) : Jobs start n s' sent := by
  have hfetching : ∀ w' job', s'.worker w' = .fetching job' ↔
      w' ≠ w ∧ s.worker w' = .fetching job' := by
    intro w' job'
    rw [hworker]
    grind [update_apply]
  have hcall : ∀ c, c ∈ s'.calls ↔ c ∈ s.calls ∨ c = ⟨job, result, s.cancelled⟩ := by
    intro c
    rw [hcalls, List.mem_append, List.mem_singleton]
  refine ⟨h.le, fun i hi => h.sending i (hp'.symm.trans hi), fun hleft => ?_, fun i => ?_, ?_, ?_,
    ?_, ?_, fun w' job' hjob => h.fetching w' job' ((hfetching w' job').1 hjob).2⟩
  · exact (h.left fun i hi => hleft i (hp'.trans hi)).imp id hdone
  -- the index of the job moves from the worker to the calls and stays taken
  · have htaken : s'.Taken i ↔ s.Taken i := by
      simp only [State.Taken, hcall, hfetching]
      constructor
      · rintro (⟨c, hc | rfl, hi⟩ | ⟨w', job', ⟨-, hjob⟩, hi⟩)
        · exact Or.inl ⟨c, hc, hi⟩
        · exact Or.inr ⟨w, job, hw, hi⟩
        · exact Or.inr ⟨w', job', hjob, hi⟩
      · rintro (⟨c, hc, hi⟩ | ⟨w', job', hjob, hi⟩)
        · exact Or.inl ⟨c, Or.inl hc, hi⟩
        · by_cases hww : w' = w
          · subst hww
            cases hw.symm.trans hjob
            exact Or.inl ⟨_, Or.inr rfl, hi⟩
          · exact Or.inr ⟨w', job', ⟨hww, hjob⟩, hi⟩
    rw [htaken, h.taken]
  · rw [hcalls, List.map_append, List.nodup_append]
    refine ⟨h.nodup, List.nodup_singleton _, ?_⟩
    intro i hi j hj
    obtain ⟨c, hc, rfl⟩ := List.mem_map.1 hi
    obtain rfl := List.mem_singleton.1 hj
    exact h.once w job hw c hc
  · intro w' job' hjob c hc hindex
    obtain ⟨hww, hjob⟩ := (hfetching w' job').1 hjob
    rcases (hcall c).1 hc with hc | rfl
    · exact h.once w' job' hjob c hc hindex
    · exact hww (h.apart w' w job' job hjob hw hindex.symm)
  · intro w₁ w₂ job₁ job₂ h₁ h₂
    exact h.apart w₁ w₂ job₁ job₂ ((hfetching w₁ job₁).1 h₁).2 ((hfetching w₂ job₂).1 h₂).2
  · intro c hc
    rcases (hcall c).1 hc with hc | rfl
    · exact h.called c hc
    · exact h.fetching w job hw

theorem Jobs.keep {sent : ℕ} (h : Jobs start n s sent) (hdone : s.Done → s'.Done)
    (hcalls : s'.calls = s.calls)
    (hworker : ∀ w job, s'.worker w = .fetching job ↔ s.worker w = .fetching job)
    (hp' : s'.producer = s.producer ∨ (∀ i, s'.producer ≠ .sending i) ∧
      ∀ i, s.producer = .sending i → n ≤ i ∨ s.Done) : Jobs start n s' sent := by
  refine ⟨h.le, fun i hi => ?_, fun hleft => ?_, fun i => ?_, ?_, ?_, ?_, ?_, ?_⟩
  · rcases hp' with hp' | ⟨hp', -⟩
    · exact h.sending i (hp'.symm.trans hi)
    · exact absurd hi (hp' i)
  · by_cases hsending : ∃ i, s.producer = .sending i
    · obtain ⟨i, hi⟩ := hsending
      obtain rfl := h.sending i hi
      rcases hp' with hp' | ⟨-, hp'⟩
      · exact absurd (hp'.trans hi) (hleft i)
      · exact (hp' i hi).imp (fun hn => le_antisymm h.le hn) hdone
    · exact (h.left fun i hi => hsending ⟨i, hi⟩).imp id hdone
  · simp only [State.Taken, hcalls, hworker]
    exact h.taken i
  · rw [hcalls]
    exact h.nodup
  · simp only [hcalls, hworker]
    exact h.once
  · simp only [hworker]
    exact h.apart
  · rw [hcalls]
    exact h.called
  · simp only [hworker]
    exact h.fetching

/-- **Each height is handed out once**, step by step. -/
theorem Jobs.step {sent : ℕ} (h : Jobs start n s sent) (hstep : Step start n actor s s') :
    ∃ sent', Jobs start n s' sent' := by
  rcases hstep.jobs_cases with ⟨i, w, hp, hi, hw, hp', hcalls, hworker⟩ |
    ⟨w, job, result, hw, hp', hcalls, hworker⟩ | ⟨hcalls, hworker, hp'⟩
  · exact ⟨sent + 1, h.send hp hi hw hp' hcalls hworker⟩
  · exact ⟨sent, h.fetch hw hstep.done hp' hcalls hworker⟩
  · exact ⟨sent, h.keep hstep.done hcalls hworker hp'⟩

/-! ## The results -/

/-- **What a step does with the results.** A call returns, or its bundle is
stored, or nothing is stored and no bundle is on its way to be. -/
theorem Step.results_cases (hstep : Step start n actor s s') :
    (∃ w job result, s.worker w = .fetching job ∧ s'.bundles = s.bundles ∧
      s'.calls = s.calls ++ [⟨job, result, s.cancelled⟩] ∧
      s'.worker = update s.worker w (.fetched job result)) ∨
    (∃ w job bundle, s.worker w = .fetched job (.ok bundle) ∧
      s'.bundles = s.bundles.set job.index bundle ∧ s'.calls = s.calls ∧
      s'.worker = update s.worker w .waiting) ∨
    (s'.bundles = s.bundles ∧ s'.calls = s.calls ∧
      (∀ w job result, s'.worker w = .fetched job result → s.worker w = .fetched job result) ∧
      ∀ w job bundle, s.worker w = .fetched job (.ok bundle) →
        s'.worker w = .fetched job (.ok bundle)) := by
  cases hstep with
  | fetch result hw => exact Or.inl ⟨_, _, result, hw, rfl, rfl, rfl⟩
  | store hw => exact Or.inr (Or.inl ⟨_, _, _, hw, rfl, rfl, rfl⟩)
  | send _ _ hw | quit hw _ | drain hw _ | report hw | cancel hw =>
    refine Or.inr (Or.inr ⟨rfl, rfl, ?_, ?_⟩)
    · grind [update_apply]
    · grind [update_apply]
  | _ => exact Or.inr (Or.inr ⟨rfl, rfl, fun _ _ _ => id, fun _ _ _ => id⟩)

/-- **Each bundle comes to its place.** -/
structure Results (n : ℕ) (s : State k) : Prop where
  length : s.bundles.length = n
  fetched : ∀ w job result, s.worker w = .fetched job result →
    ∃ c ∈ s.calls, c.job = job ∧ c.result = result
  stored : ∀ c ∈ s.calls, ∀ b, c.result = .ok b →
    s.bundles[c.job.index]? = some b ∨ ∃ w, s.worker w = .fetched c.job (.ok b)

theorem results_init : Results n (State.init k n) where
  length := List.length_replicate
  fetched _ _ _ h := by cases h
  stored _ h := absurd h List.not_mem_nil

theorem Results.fetch {w : Fin k} {job : FetchJob} {result : Go BlockBundle} (h : Results n s)
    (hw : s.worker w = .fetching job) (hbundles : s'.bundles = s.bundles)
    (hcalls : s'.calls = s.calls ++ [⟨job, result, s.cancelled⟩])
    (hworker : s'.worker = update s.worker w (.fetched job result)) : Results n s' := by
  have hcall : ∀ c, c ∈ s'.calls ↔ c ∈ s.calls ∨ c = ⟨job, result, s.cancelled⟩ := by
    intro c
    rw [hcalls, List.mem_append, List.mem_singleton]
  refine ⟨by rw [hbundles]; exact h.length, fun w' job' result' hw' => ?_, fun c hc b hb => ?_⟩
  · by_cases hww : w' = w
    · subst hww
      rw [hworker, update_self] at hw'
      cases hw'
      exact ⟨_, (hcall _).2 (Or.inr rfl), rfl, rfl⟩
    · rw [hworker, update_of_ne hww] at hw'
      obtain ⟨c, hc, hjob⟩ := h.fetched w' job' result' hw'
      exact ⟨c, (hcall c).2 (Or.inl hc), hjob⟩
  · rcases (hcall c).1 hc with hc | rfl
    · rcases h.stored c hc b hb with hstored | ⟨w', hw'⟩
      · exact Or.inl (by rw [hbundles]; exact hstored)
      · have hww : w' ≠ w := by
          rintro rfl
          cases hw.symm.trans hw'
        exact Or.inr ⟨w', by rw [hworker, update_of_ne hww]; exact hw'⟩
    · exact Or.inr ⟨w, by rw [hworker, update_self, ← hb]⟩

/-- The bundle that is stored is the result of the one call for its
index. -/
theorem Results.store {sent : ℕ} {w : Fin k} {job : FetchJob} {bundle : BlockBundle}
    (h : Results n s) (hjobs : Jobs start n s sent) (hw : s.worker w = .fetched job (.ok bundle))
    (hbundles : s'.bundles = s.bundles.set job.index bundle) (hcalls : s'.calls = s.calls)
    (hworker : s'.worker = update s.worker w .waiting) : Results n s' := by
  obtain ⟨call, hcall, hjob, hresult⟩ := h.fetched w job _ hw
  have hlt : job.index < n := by
    have htaken := (hjobs.taken job.index).1 (Or.inl ⟨call, hcall, by rw [hjob]⟩)
    exact lt_of_lt_of_le htaken hjobs.le
  refine ⟨by rw [hbundles, List.length_set]; exact h.length, fun w' job' result' hw' => ?_,
    fun c hc b hb => ?_⟩
  · rw [hcalls]
    refine h.fetched w' job' result' ?_
    rw [hworker] at hw'
    grind [update_apply]
  · rw [hcalls] at hc
    by_cases hindex : c.job.index = job.index
    · have hsame : c = call := List.inj_on_of_nodup_map hjobs.nodup hc hcall (by rw [hindex, hjob])
      subst hsame
      cases hresult.symm.trans hb
      refine Or.inl ?_
      rw [hbundles, hindex, List.getElem?_set_self (by rw [h.length]; exact hlt)]
    · rcases h.stored c hc b hb with hstored | ⟨w', hw'⟩
      · refine Or.inl ?_
        rw [hbundles, List.getElem?_set_ne (Ne.symm hindex)]
        exact hstored
      · have hww : w' ≠ w := by
          rintro rfl
          cases hw.symm.trans hw'
          exact hindex rfl
        exact Or.inr ⟨w', by rw [hworker, update_of_ne hww]; exact hw'⟩

/-- **Results come to their places**, step by step. -/
theorem Results.step {sent : ℕ} (h : Results n s) (hjobs : Jobs start n s sent)
    (hstep : Step start n actor s s') : Results n s' := by
  rcases hstep.results_cases with ⟨w, job, result, hw, hbundles, hcalls, hworker⟩ |
    ⟨w, job, bundle, hw, hbundles, hcalls, hworker⟩ | ⟨hbundles, hcalls, hback, hforth⟩
  · exact h.fetch hw hbundles hcalls hworker
  · exact h.store hjobs hw hbundles hcalls hworker
  · refine ⟨by rw [hbundles]; exact h.length, fun w job result hw => ?_, fun c hc b hb => ?_⟩
    · rw [hcalls]
      exact h.fetched w job result (hback w job result hw)
    · rw [hcalls] at hc
      rw [hbundles]
      exact (h.stored c hc b hb).imp id fun ⟨w, hw⟩ => ⟨w, hforth w _ _ hw⟩

/-! ## The errors -/

/-- An error of a call that failed before any worker had cancelled. -/
def State.FailedFirst (s : State k) (err : Fault) : Prop :=
  ∃ c ∈ s.calls, c.cancelled = false ∧ ∃ e, c.result = .error e ∧ err = failedToFetch c.job e

/-- **The error channel is filled before the context is cancelled**, and
what fills it is from before. -/
structure Errors (s : State k) : Prop where
  cancelled : s.cancelled = true → s.errCh ≠ none
  reported : ∀ w, s.worker w = .reported → s.errCh ≠ none
  late : ∀ c ∈ s.calls, c.cancelled = true → s.errCh ≠ none
  failed : ∀ c ∈ s.calls, ∀ err, c.result = .error err →
    s.errCh ≠ none ∨ ∃ w, s.worker w = .fetched c.job (.error err)
  first : ∀ err, s.errCh = some err → s.FailedFirst err

theorem errors_init : Errors (State.init k n) where
  cancelled h := by cases h
  reported _ h := by cases h
  late _ h := absurd h List.not_mem_nil
  failed _ h := absurd h List.not_mem_nil
  first _ h := by cases h

/-- A call that returns. Its error is on its way to the channel; and had
it been cancelled by a peer, the channel would be full. -/
theorem Errors.fetch {w : Fin k} {job : FetchJob} {result : Go BlockBundle} (h : Errors s)
    (hw : s.worker w = .fetching job) :
    Errors { s with
      worker := update s.worker w (.fetched job result)
      calls := s.calls ++ [⟨job, result, s.cancelled⟩] } := by
  refine ⟨h.cancelled, fun w' hw' => ?_, fun c hc hlate => ?_, fun c hc err herr => ?_,
    fun err herr => ?_⟩
  · refine h.reported w' ?_
    grind [update_apply]
  · rcases List.mem_append.1 hc with hc | hc
    · exact h.late c hc hlate
    · obtain rfl := List.mem_singleton.1 hc
      exact h.cancelled hlate
  · rcases List.mem_append.1 hc with hc | hc
    · rcases h.failed c hc err herr with hfull | ⟨w', hw'⟩
      · exact Or.inl hfull
      · have hww : w' ≠ w := by
          rintro rfl
          cases hw.symm.trans hw'
        exact Or.inr ⟨w', (update_of_ne hww _ _).trans hw'⟩
    · obtain rfl := List.mem_singleton.1 hc
      exact Or.inr ⟨w, (update_self w _ _).trans (congrArg _ herr)⟩
  · obtain ⟨c, hc, hfirst⟩ := h.first err herr
    exact ⟨c, List.mem_append_left _ hc, hfirst⟩

/-- A worker that fails leaves the channel full, with the error of a call
that was first. -/
theorem Errors.report {w : Fin k} {job : FetchJob} {err : Fault} (h : Errors s)
    (hresults : Results n s) (hw : s.worker w = .fetched job (.error err)) :
    Errors { s with
      worker := update s.worker w .reported
      errCh := s.errCh.or (some (failedToFetch job err)) } := by
  have hfull : s.errCh.or (some (failedToFetch job err)) ≠ none := by
    cases s.errCh <;> simp
  refine ⟨fun _ => hfull, fun _ _ => hfull, fun _ _ _ => hfull, fun _ _ _ _ => Or.inl hfull,
    fun err' herr' => ?_⟩
  cases hch : s.errCh with
  | some old =>
    simp only [hch, Option.some_or, Option.some.injEq] at herr'
    exact h.first err' (hch.trans (congrArg some herr'))
  | none =>
    simp only [hch, Option.none_or, Option.some.injEq] at herr'
    obtain ⟨c, hc, rfl, hresult⟩ := hresults.fetched w job _ hw
    have hearly : c.cancelled = false := by
      cases hcancelled : c.cancelled with
      | false => rfl
      | true => exact absurd hch (h.late c hc hcancelled)
    exact ⟨c, hc, hearly, err, hresult, herr'.symm⟩

/-- **The first failure is the one reported**, step by step. -/
theorem Errors.step (h : Errors s) (hresults : Results n s) (hrun : s'.main.Running)
    (hstep : Step start n actor s s') : Errors s' := by
  cases hstep with
  | fetch result hw => exact h.fetch hw
  | report hw => exact h.report hresults hw
  | cancel hw =>
    have hfull := h.reported _ hw
    exact ⟨fun _ => hfull, fun _ _ => hfull, fun _ _ _ => hfull, fun _ _ _ _ => Or.inl hfull,
      h.first⟩
  | receiveError => exact absurd rfl (hrun _)
  | send _ _ hw | quit hw _ | drain hw _ | store hw =>
    refine ⟨h.cancelled, fun w' hw' => ?_, h.late, fun c hc err herr => ?_, h.first⟩
    · refine h.reported w' ?_
      grind [update_apply]
    · refine (h.failed c hc err herr).imp id fun ⟨w', hw'⟩ => ⟨w', ?_⟩
      grind [update_apply]
  | _ => exact ⟨h.cancelled, h.reported, h.late, h.failed, h.first⟩

/-! ## What a run comes to -/

/-- **What holds while the range is running.** -/
structure Invariant (start : UInt64) (n : ℕ) (s : State k) : Prop where
  orderly : Orderly s
  jobs : ∃ sent, Jobs start n s sent
  results : Results n s
  errors : s.main.Running → Errors s

theorem invariant_init : Invariant start n (State.init k n) :=
  ⟨orderly_init, ⟨0, jobs_init⟩, results_init, fun _ => errors_init⟩

/-- Once the range has returned nothing moves. -/
theorem Orderly.running_of_step (h : Orderly s) (hstep : Step start n actor s s') :
    s.main.Running := by
  intro answer hanswer
  have hproducer := h.producer (by rw [hanswer]; exact nofun)
  have hworkers := h.workers (by rw [hanswer]; exact nofun) (by rw [hanswer]; exact nofun)
  cases hstep with
  | callerDone _ hm | propagate hm => exact hm answer hanswer
  | send hp | exhaust hp | abandon hp | close hp | leave hp => cases hproducer.symm.trans hp
  | quit hw | drain hw | fetch _ hw | store hw | report hw | cancel hw =>
    cases (hworkers _).symm.trans hw
  | waitedProducer hm | waitedWorkers hm | receiveError hm | noError hm | contextError hm
  | validate hm => cases hanswer.symm.trans hm

theorem Invariant.step (h : Invariant start n s) (hstep : Step start n actor s s') :
    Invariant start n s' := by
  obtain ⟨sent, hjobs⟩ := h.jobs
  exact ⟨h.orderly.step hstep, hjobs.step hstep, h.results.step hjobs hstep, fun hrun =>
    (h.errors (h.orderly.running_of_step hstep)).step h.results hrun hstep⟩

/-- **The invariant of every run.** -/
theorem Reachable.invariant {concurrency : ℤ}
    {s : State (workerCount concurrency (blockCount start stop))}
    (h : Reachable start stop concurrency s) : Invariant start (blockCount start stop) s :=
  Steps.invariant h invariant_init fun hs ⟨_, hstep⟩ => hs.step hstep

/-- The end of a run without an error and without an end of the caller's
context: every height has been fetched and stored. -/
structure Complete (start : UInt64) (n : ℕ) (s : State k) : Prop where
  fetched : ∀ i < n, ∃ c ∈ s.calls, c.job.index = i
  stored : ∀ c ∈ s.calls, c.cancelled = false ∧
    ∃ b, c.result = .ok b ∧ s.bundles[c.job.index]? = some b

/-- Where the channel was found empty every call has succeeded, before any
cancellation, and its bundle is in place. -/
theorem Invariant.stored (h : Invariant start n s) (hmain : s.main = .checkContext) :
    ∀ c ∈ s.calls, c.cancelled = false ∧
      ∃ b, c.result = .ok b ∧ s.bundles[c.job.index]? = some b := by
  have herrors := h.errors (by rw [hmain]; exact nofun)
  have hempty := h.orderly.checked hmain
  have hworkers := h.orderly.workers (by rw [hmain]; exact nofun) (by rw [hmain]; exact nofun)
  refine fun c hc => ⟨?_, ?_⟩
  · cases hcancelled : c.cancelled with
    | false => rfl
    | true => exact absurd hempty (herrors.late c hc hcancelled)
  · cases hresult : c.result with
    | error err =>
      rcases herrors.failed c hc err hresult with hfull | ⟨w, hw⟩
      · exact absurd hempty hfull
      · cases (hworkers w).symm.trans hw
    | ok b =>
      rcases h.results.stored c hc b hresult with hstored | ⟨w, hw⟩
      · exact ⟨b, rfl, hstored⟩
      · cases (hworkers w).symm.trans hw

/-- Without an error every block of the range was fetched. -/
theorem Invariant.isComplete (h : Invariant start n s) (hmain : s.main = .checkContext)
    (hctx : s.ctx = none) : Complete start n s := by
  obtain ⟨sent, hjobs⟩ := h.jobs
  have herrors := h.errors (by rw [hmain]; exact nofun)
  have hproducer := h.orderly.producer (by rw [hmain]; exact nofun)
  have hworkers := h.orderly.workers (by rw [hmain]; exact nofun) (by rw [hmain]; exact nofun)
  have hdone : ¬ s.Done := by
    rintro (hcancelled | hpropagated)
    · exact herrors.cancelled hcancelled (h.orderly.checked hmain)
    · exact h.orderly.propagated hpropagated hctx
  have hsent : sent = n := by
    refine (hjobs.left fun i hi => ?_).resolve_right hdone
    cases hproducer.symm.trans hi
  refine ⟨fun i hi => ?_, h.stored hmain⟩
  rcases (hjobs.taken i).2 (by omega) with hcall | ⟨w, job, hw, -⟩
  · exact hcall
  · cases (hworkers w).symm.trans hw

variable {concurrency : ℤ} {answer : Go (List BlockBundle)}

/-- **What a range returns**: the error that came first, or the end of the
caller's context, or what the checks make of a complete range. -/
theorem Reachable.returned_cases {s : State (workerCount concurrency (blockCount start stop))}
    (h : Reachable start stop concurrency s) (hreturned : s.main = .returned answer) :
    (∃ err, s.FailedFirst err ∧ answer = .error err) ∨
    (∃ err, s.ctx = some err ∧ (∀ c ∈ s.calls, ∃ b, c.result = .ok b) ∧
      answer = .error err.fault) ∨
    (s.ctx = none ∧ Complete start (blockCount start stop) s ∧
      answer = do
        validateFetchedBundles s.bundles start
        return s.bundles) := by
  rcases Relation.ReflTransGen.cases_tail h with rfl | ⟨s₀, hs₀, actor, hstep⟩
  · cases hreturned
  have hinv := Reachable.invariant hs₀
  have hrun := hinv.orderly.running_of_step hstep
  cases hstep with
  | receiveError hm herr =>
    cases hreturned
    exact Or.inl ⟨_, (hinv.errors hrun).first _ herr, rfl⟩
  | contextError hm hctx =>
    cases hreturned
    refine Or.inr (Or.inl ⟨_, hctx, fun c hc => ?_, rfl⟩)
    obtain ⟨-, b, hb, -⟩ := hinv.stored hm c hc
    exact ⟨b, hb⟩
  | validate hm hctx =>
    cases hreturned
    have hcomplete := hinv.isComplete hm hctx
    exact Or.inr (Or.inr ⟨hctx, ⟨hcomplete.fetched, hcomplete.stored⟩, rfl⟩)
  | waitedProducer | waitedWorkers | noError => cases hreturned
  | _ => exact absurd hreturned (hrun answer)

/-- In a complete range each height has one call, and its result is in
place. -/
theorem Complete.filter_calls {sent : ℕ} (h : Complete start n s) (hjobs : Jobs start n s sent)
    {i : ℕ} (hi : i < s.bundles.length) (hin : i < n) :
    s.calls.filter (fun c => c.job.index = i) =
      [⟨⟨i, start + UInt64.ofNat i⟩, .ok s.bundles[i], false⟩] := by
  obtain ⟨c, hc, rfl⟩ := h.fetched i hin
  obtain ⟨hearly, b, hresult, hstored⟩ := h.stored c hc
  have hnumber := hjobs.called c hc
  have hbundle : s.bundles[c.job.index] = b := by
    rw [List.getElem?_eq_getElem hi] at hstored
    exact Option.some.inj hstored
  have hself : c = ⟨⟨c.job.index, start + UInt64.ofNat c.job.index⟩,
      .ok s.bundles[c.job.index], false⟩ := by
    rw [hbundle, ← hearly, ← hresult, ← hnumber]
  have hmem : ∀ c', c' ∈ s.calls.filter (fun c' => c'.job.index = c.job.index) ↔ c' = c := by
    intro c'
    rw [List.mem_filter, decide_eq_true_iff]
    constructor
    · rintro ⟨hc', hindex⟩
      exact List.inj_on_of_nodup_map hjobs.nodup hc' hc hindex
    · rintro rfl
      exact ⟨hc, rfl⟩
  have hnodup : (s.calls.filter (fun c' => c'.job.index = c.job.index)).Nodup :=
    hjobs.nodup.of_map.filter _
  rw [← hself]
  exact List.perm_singleton.1 ((List.perm_ext_iff_of_nodup hnodup (List.nodup_singleton c)).2
    fun c' => by rw [hmem, List.mem_singleton])

/-- **Every schedule does what fetching one height after the other does.**
A range that is returned holds at each place the result of the one call
for its height, and its blocks are linked. Under a context that does not
end, it is returned exactly when all calls succeed and the checks pass; an
error is that of the checks, or of a call that failed before any worker
had cancelled. -/
theorem Reachable.every_schedule {s : State (workerCount concurrency (blockCount start stop))}
    (h : Reachable start stop concurrency s) (hreturned : s.main = .returned answer) :
    (∀ bundles, answer = .ok bundles →
      bundles.length = blockCount start stop ∧
      (∀ c ∈ s.calls, c.job.index < bundles.length) ∧
      (∀ (i : ℕ) (hi : i < bundles.length), s.calls.filter (fun c => c.job.index = i) =
        [⟨⟨i, start + UInt64.ofNat i⟩, .ok bundles[i], false⟩]) ∧
      bundles.IsChain BlockBundle.Extends) ∧
    (s.ctx = none →
      ((∃ bundles, answer = .ok bundles) ↔ (∀ c ∈ s.calls, ∃ b, c.result = .ok b) ∧
        validateFetchedBundles s.bundles start = .ok ()) ∧
      ∀ err, answer = .error err →
        s.FailedFirst err ∨ validateFetchedBundles s.bundles start = .error err) := by
  have hinv := h.invariant
  obtain ⟨sent, hjobs⟩ := hinv.jobs
  rcases h.returned_cases hreturned with ⟨err, hfirst, rfl⟩ | ⟨err, hctx, -, rfl⟩ |
    ⟨-, hcomplete, rfl⟩
  · refine ⟨nofun, fun _ => ⟨⟨nofun, ?_⟩, ?_⟩⟩
    · rintro ⟨hall, -⟩
      obtain ⟨c, hc, -, e, he, -⟩ := hfirst
      obtain ⟨b, hb⟩ := hall c hc
      cases he.symm.trans hb
    · rintro _ ⟨⟩
      exact Or.inl hfirst
  · refine ⟨nofun, fun hnone => ?_⟩
    cases hnone.symm.trans hctx
  · refine ⟨fun bundles hok => ?_, fun _ => ⟨⟨?_, ?_⟩, fun err herr => Or.inr ?_⟩⟩
    · obtain ⟨hvalid, rfl⟩ := validated_eq_ok_iff.1 hok
      have hlength := hinv.results.length
      have hchain := ((validateFetchedFrom_eq_ok_iff start s.bundles 0 none ()).1 hvalid).2
      refine ⟨hlength, fun c hc => ?_, fun i hi => hcomplete.filter_calls hjobs hi (by omega),
        hchain⟩
      rw [hlength]
      exact lt_of_lt_of_le ((hjobs.taken _).1 (Or.inl ⟨c, hc, rfl⟩)) hjobs.le
    · rintro ⟨bundles, hok⟩
      refine ⟨fun c hc => ?_, (validated_eq_ok_iff.1 hok).1⟩
      obtain ⟨-, b, hb, -⟩ := hcomplete.stored c hc
      exact ⟨b, hb⟩
    · rintro ⟨-, hvalid⟩
      exact ⟨s.bundles, validated_eq_ok_iff.2 ⟨hvalid, rfl⟩⟩
    · cases hvalid : validateFetchedBundles s.bundles start with
      | error err' =>
        rw [hvalid] at herr
        cases herr
        rfl
      | ok u =>
        rw [hvalid] at herr
        cases herr

/-- Two workers fetch one block each, the second of them first. -/
theorem exists_run_pair (start : UInt64) (b₀ b₁ : BlockBundle) :
    ∃ s : State 2, Relation.ReflTransGen (Next start 2) (.init 2 2) s ∧ s.ctx = none ∧
      s.main = .returned (do
        validateFetchedBundles [b₀, b₁] start
        return [b₀, b₁]) ∧
      s.calls = [⟨⟨1, start + UInt64.ofNat 1⟩, .ok b₁, false⟩,
        ⟨⟨0, start + UInt64.ofNat 0⟩, .ok b₀, false⟩] := by
  have hinit : Relation.ReflTransGen (Next start 2) (.init 2 2) (.init 2 2) := .refl
  have hfirst := hinit.tail ⟨_, .send (w := 0) rfl Nat.two_pos rfl⟩
  have hsecond := hfirst.tail ⟨_, .send (w := 1) rfl Nat.one_lt_two rfl⟩
  have hstored₁ := (hsecond.tail ⟨_, .fetch (w := 1) (.ok b₁) rfl⟩).tail ⟨_, .store (w := 1) rfl⟩
  have hstored₀ := (hstored₁.tail ⟨_, .fetch (w := 0) (.ok b₀) rfl⟩).tail ⟨_, .store (w := 0) rfl⟩
  have hexhausted := hstored₀.tail ⟨_, .exhaust rfl (Nat.lt_irrefl 2)⟩
  have hleft := (hexhausted.tail ⟨_, .close rfl⟩).tail ⟨_, .leave rfl⟩
  have hdrained := (hleft.tail ⟨_, .drain (w := 0) rfl rfl⟩).tail ⟨_, .drain (w := 1) rfl rfl⟩
  have hwaited := (hdrained.tail ⟨_, .waitedProducer rfl rfl⟩).tail
    ⟨_, .waitedWorkers rfl (Fin.forall_fin_two.2 ⟨rfl, rfl⟩)⟩
  have hreturned := (hwaited.tail ⟨_, .noError rfl rfl⟩).tail ⟨_, .validate rfl rfl⟩
  exact ⟨_, hreturned, rfl, rfl, rfl⟩

/-- The blocks 7 and 8, fetched by two workers. -/
theorem every_schedule_seven_eight :
    ∃ s : State (workerCount 2 (blockCount 7 8)),
      Reachable 7 8 2 s ∧ s.ctx = none ∧
      s.main = .returned (.ok ([7, 8].map (EthChain.bareBundle (fun n => .spelling n.toNat) 0))) ∧
      s.calls.filter (fun c => c.job.index = 1) =
        [⟨⟨1, 8⟩, .ok (EthChain.bareBundle (fun n => .spelling n.toNat) 0 8), false⟩] := by
  obtain ⟨s, hs, hctx, hmain, -⟩ :=
    exists_run_pair 7 (EthChain.bareBundle (fun n => .spelling n.toNat) 0 7)
      (EthChain.bareBundle (fun n => .spelling n.toNat) 0 8)
  have hreached : Reachable 7 8 2 s := hs
  have hreturned : s.main =
      .returned (.ok ([7, 8].map (EthChain.bareBundle (fun n => .spelling n.toNat) 0))) := hmain
  have hok := Reachable.every_schedule hreached hreturned
  exact ⟨s, hreached, hctx, hreturned, (hok.1 _ rfl).2.2.1 1 (by decide)⟩

/-! ## The range fetched height by height -/

/-- The calls of a run are answered by one environment. -/
def State.ServedBy (s : State k) (f : Fetcher) (env : Env) : Prop :=
  ∀ c ∈ s.calls, c.result = f.fetchBlock env c.job.blockNumber

/-- An environment with the answers of another at the heights that were
asked for, and a block at every other. -/
def elsewhereBare (env : Env) (asked : UInt64 → Bool) : Env :=
  let bare := (EthChain.bare maxUint64 fun n => .spelling n.toNat).node
  { env with
    node := { env.node with
      blockByNumber n := if asked n then env.node.blockByNumber n else bare.blockByNumber n
      logsByBlockHash n :=
        if asked n then env.node.logsByBlockHash n else bare.logsByBlockHash n } }

theorem fetchBlock_elsewhereBare_of_asked {f : Fetcher} {env : Env} {asked : UInt64 → Bool}
    {number : UInt64} (h : asked number = true) :
    f.fetchBlock (elsewhereBare env asked) number = f.fetchBlock env number :=
  fetchBlock_congr (if_pos h) (if_pos h) rfl

theorem fetchBlock_elsewhereBare {f : Fetcher} {env : Env} {asked : UInt64 → Bool}
    {number : UInt64} (h : ¬ asked number = true) :
    ∃ b, f.fetchBlock (elsewhereBare env asked) number = .ok b := by
  let bare : Env := { env with node := (EthChain.bare maxUint64 fun n => .spelling n.toNat).node }
  have hsame : f.fetchBlock (elsewhereBare env asked) number = f.fetchBlock bare number :=
    fetchBlock_congr (if_neg h) (if_neg h) rfl
  exact ⟨_, hsame.trans (EthChain.fetchBlock_bare f rfl (uint64_le_max number))⟩

/-- Only heights of the range are asked for. -/
theorem Jobs.mem_rangeNumbers {sent : ℕ} (h : Jobs start n s sent) {c : FetchCall}
    (hc : c ∈ s.calls) : c.job.blockNumber ∈ rangeNumbers start n := by
  have hlt := (h.taken c.job.index).1 (Or.inl ⟨c, hc, rfl⟩)
  exact List.mem_map.2 ⟨c.job.index, List.mem_range.2 (lt_of_lt_of_le hlt h.le),
    (h.called c hc).symm⟩

theorem Reachable.mem_rangeNumbers {s : State (workerCount concurrency (blockCount start stop))}
    (h : Reachable start stop concurrency s) {number : UInt64}
    (hmem : number ∈ s.calls.map fun c => c.job.blockNumber) :
    number ∈ rangeNumbers start (blockCount start stop) := by
  obtain ⟨c, hc, rfl⟩ := List.mem_map.1 hmem
  obtain ⟨sent, hjobs⟩ := h.invariant.jobs
  exact hjobs.mem_rangeNumbers hc

/-- In a complete range the bundles are the results of its heights. -/
theorem Complete.map_fetchBlock {f : Fetcher} {env : Env} {sent : ℕ} (h : Complete start n s)
    (hjobs : Jobs start n s sent) (hlength : s.bundles.length = n) (hserved : s.ServedBy f env) :
    (rangeNumbers start n).map (f.fetchBlock env) = s.bundles.map .ok := by
  refine List.ext_getElem (by simp [rangeNumbers, hlength]) fun i hi _ => ?_
  have hin : i < n := by simpa [rangeNumbers] using hi
  obtain ⟨c, hc, rfl⟩ := h.fetched i hin
  obtain ⟨-, b, hresult, hstored⟩ := h.stored c hc
  have hcall := hserved c hc
  rw [hresult, hjobs.called c hc] at hcall
  rw [List.getElem?_eq_getElem (by omega), Option.some.injEq] at hstored
  simp [rangeNumbers, ← hcall, hstored]

/-- **`FetchRange` refines the fetch of one height after the other.**
Whatever the schedule, what is returned is what `fetchRange` returns in an
environment with the same answers to the calls that were made. -/
theorem Reachable.refines_fetchRange
    {s : State (workerCount concurrency (blockCount start stop))} {f : Fetcher} {env : Env}
    (h : Reachable start stop concurrency s) (hreturned : s.main = .returned answer)
    (hserved : s.ServedBy f env) (hle : start ≤ stop) (hsmall : (stop - start).toNat < maxInt) :
    ∃ env', s.ServedBy f env' ∧ f.fetchRange env' start stop = answer := by
  have hinv := h.invariant
  obtain ⟨sent, hjobs⟩ := hinv.jobs
  rcases h.returned_cases hreturned with ⟨err, ⟨c, hc, -, e, he, rfl⟩, rfl⟩ |
    ⟨err, -, hall, rfl⟩ | ⟨-, hcomplete, rfl⟩
  · -- the height that failed is the first
    refine ⟨{ env with first := c.job.blockNumber }, hserved,
      fetchRange_of_first hle hsmall (hjobs.mem_rangeNumbers hc) ?_⟩
    have hfetch : f.fetchBlock { env with first := c.job.blockNumber } c.job.blockNumber =
      .error e := (hserved c hc).symm.trans he
    rw [Fetcher.failure, hfetch]
    rfl
  · -- the heights that were not asked for would have succeeded too
    let asked n := s.calls.any fun c => c.job.blockNumber == n
    let env' := { elsewhereBare env asked with rangeCtx := some err }
    have hasked : ∀ n, asked n = true ↔ ∃ c ∈ s.calls, c.job.blockNumber = n := by
      intro n
      simp [asked]
    have hserved' : s.ServedBy f env' := fun c hc => (hserved c hc).trans
      (fetchBlock_elsewhereBare_of_asked ((hasked _).2 ⟨c, hc, rfl⟩)).symm
    have hfetched : ∀ n, ∃ b, f.fetchBlock env' n = .ok b := by
      intro n
      by_cases hn : asked n = true
      · obtain ⟨c, hc, rfl⟩ := (hasked n).1 hn
        obtain ⟨b, hb⟩ := hall c hc
        exact ⟨b, (hserved' c hc).symm.trans hb⟩
      · exact fetchBlock_elsewhereBare hn
    exact ⟨env', hserved', fetchRange_of_map_fetchBlock hle hsmall
      (map_fetchBlock_eq fun n _ => hfetched n)⟩
  · exact ⟨{ env with rangeCtx := none }, hserved, fetchRange_of_map_fetchBlock hle hsmall
      (hcomplete.map_fetchBlock hjobs hinv.results.length hserved)⟩

/-- Two workers fetch the blocks 7 and 8 of a chain as one loop does. -/
theorem refines_fetchRange_seven_eight :
    ∃ env, Fetcher.fetchRange ⟨some 1⟩ env 7 8 =
      .ok ([7, 8].map (EthChain.bareBundle (fun n => .spelling n.toNat) 0)) := by
  obtain ⟨s, hs, -, hmain, hcalls⟩ :=
    exists_run_pair 7 (EthChain.bareBundle (fun n => .spelling n.toNat) 0 7)
      (EthChain.bareBundle (fun n => .spelling n.toNat) 0 8)
  have hreached : Reachable 7 8 2 s := hs
  let c := EthChain.bare 9 fun n => .spelling n.toNat
  have hfetched : ∀ n, n ≤ 9 → Fetcher.fetchBlock ⟨some 1⟩ c.env n =
      .ok (EthChain.bareBundle (fun n => .spelling n.toNat) 0 n) :=
    fun n hn => EthChain.fetchBlock_bare _ rfl hn
  have hserved : s.ServedBy ⟨some 1⟩ c.env := by
    intro call hcall
    rw [hcalls] at hcall
    rcases List.mem_pair.1 hcall with rfl | rfl
    · exact (hfetched 8 (by decide)).symm
    · exact (hfetched 7 (by decide)).symm
  obtain ⟨env, -, hrun⟩ := hreached.refines_fetchRange hmain hserved (by decide) (by decide)
  exact ⟨env, hrun⟩

end Ranger

end EthIndexer
