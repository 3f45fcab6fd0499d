import EthIndexer.Indexer.Runner
/-!
# The poll loop

`run` returns when its first cycle fails, when a wait fails by itself, or
when the context has ended, and for nothing else: a later cycle that fails
is followed by the next one, even if its error is permanent.

A cycle is followed by a look at the context if it failed, and then by
what the loop does next (`CycleThen`). The initial cycle and those of the
poll loop differ only in this, so each property of a trace is proved once
for a cycle and its continuation, and once for a wait that fails;
`poll_induction` gives it for the loop.
-/

namespace EthIndexer

namespace Runner

open Session

variable {r : Runner} {rounds : ℕ} {trace : List Event} {answer : Go Unit}

/-! ## The traces of the loop -/

/-- **A cycle of `run` and what follows it.** -/
inductive CycleThen (r : Runner) (onError : Fault → List Event → Go Unit → Prop)
    (next : List Event → Go Unit → Prop) : List Event → Go Unit → Prop
  | panic {trace : List Event} {text : String}
      (h : r.syncWithRetry.Traces trace (.error (.panic text))) :
      CycleThen r onError next trace (.error (.panic text))
  | done {trace : List Event} {err : Fault} (cause : ContextError)
      (h : r.syncWithRetry.Traces trace (.error err)) (herr : err.IsError) :
      CycleThen r onError next (trace ++ [⟨.ctxErr, some cause⟩]) (.error cause.fault)
  | failed {trace rest : List Event} {err : Fault} {answer : Go Unit}
      (h : r.syncWithRetry.Traces trace (.error err)) (herr : err.IsError)
      (hrest : onError err rest answer) :
      CycleThen r onError next (trace ++ ⟨.ctxErr, none⟩ :: rest) answer
  | succeeded {trace rest : List Event} {result : SyncResult} {answer : Go Unit}
      (h : r.syncWithRetry.Traces trace (.ok result)) (hrest : next rest answer) :
      CycleThen r onError next (trace ++ rest) answer

/-- **A wait for the next cycle that fails.** -/
inductive WaitFails (r : Runner) : List Event → Go Unit → Prop
  | panic (text : String) :
      WaitFails r [⟨.wait r.pollInterval, .error (.panic text)⟩] (.error (.panic text))
  | done {failure : Fault} (cause : ContextError) (hfailure : failure.IsError) :
      WaitFails r [⟨.wait r.pollInterval, .error failure⟩, ⟨.ctxErr, some cause⟩]
        (.error cause.fault)
  | failed {failure : Fault} (hfailure : failure.IsError) :
      WaitFails r [⟨.wait r.pollInterval, .error failure⟩, ⟨.ctxErr, none⟩]
        (.error (failure.wrap "wait for next synchronization"))

/-- A cycle is a synchronization with its retries, whose error is kept. -/
theorem traces_cycle {x : Go (Go SyncResult)} :
    r.cycle.Traces trace x ↔ ∃ outcome, r.syncWithRetry.Traces trace outcome ∧
      x = returned outcome := by
  rw [cycle, traces_bind]
  simp only [traces_attempt, traces_lift]
  constructor
  · rintro (⟨_, ⟨_, hok, -⟩, -⟩ | ⟨_, t₁, _, rfl, ⟨outcome, hok, h⟩, rfl, rfl⟩)
    · cases hok
    · cases hok
      rw [List.append_nil]
      exact ⟨_, h, rfl⟩
  · rintro ⟨outcome, h, rfl⟩
    exact Or.inr ⟨outcome, trace, [], (List.append_nil _).symm, ⟨outcome, rfl, h⟩, rfl, rfl⟩

/-- The continuation of a cycle, as `poll` and `run` have it. -/
theorem cycleThen_of_traces {k : Go SyncResult → Loop Unit} {onError : Fault → Loop Unit}
    {next : Loop Unit} (herror : ∀ err, k (.error err) = unlessDone (onError err))
    (hok : ∀ result, k (.ok result) = next) (h : (r.cycle >>= k).Traces trace answer) :
    CycleThen r (fun err => (onError err).Traces) next.Traces trace answer := by
  rcases traces_bind.1 h with ⟨_, hcycle, rfl⟩ | ⟨_, t₁, t₂, rfl, hcycle, hk⟩
  · obtain ⟨outcome, houtcome, hpanic⟩ := traces_cycle.1 hcycle
    obtain ⟨text, rfl, rfl⟩ := returned_eq_error_iff.1 hpanic.symm
    exact .panic houtcome
  · obtain ⟨outcome, houtcome, hreturned⟩ := traces_cycle.1 hcycle
    obtain ⟨rfl, herr⟩ := returned_eq_ok_iff.1 hreturned.symm
    cases outcome with
    | ok result => exact .succeeded houtcome (hok result ▸ hk)
    | error err =>
      rw [herror] at hk
      rcases traces_unlessDone.1 hk with ⟨cause, rfl, rfl⟩ | ⟨rest, rfl, hrest⟩
      · exact .done cause houtcome (herr err rfl)
      · exact .failed houtcome (herr err rfl) hrest

/-- **One round of the poll loop.** -/
theorem traces_poll_succ (h : (r.poll (rounds + 1)).Traces trace answer) :
    WaitFails r trace answer ∨ ∃ rest, trace = ⟨.wait r.pollInterval, .ok ()⟩ :: rest ∧
      CycleThen r (fun _ => (r.poll rounds).Traces) (r.poll rounds).Traces rest answer := by
  rw [poll] at h
  obtain ⟨outcome, rest, rfl, ⟨_, hpanic, rfl, rfl⟩ | ⟨_, hreturned, hwait⟩⟩ :=
    traces_request_bind.1 h
  · obtain ⟨text, rfl, rfl⟩ := returned_eq_error_iff.1 hpanic
    exact Or.inl (.panic text)
  obtain ⟨rfl, hfailure⟩ := returned_eq_ok_iff.1 hreturned
  cases outcome with
  | error failure =>
    rcases traces_unlessDone.1 hwait with ⟨cause, rfl, rfl⟩ | ⟨rest, rfl, rfl, rfl⟩
    · exact Or.inl (.done cause (hfailure failure rfl))
    · exact Or.inl (.failed (hfailure failure rfl))
  | ok u => exact Or.inr ⟨rest, rfl, cycleThen_of_traces (fun _ => rfl) (fun _ => rfl) hwait⟩

/-- What comes after a cycle, more loosely. -/
theorem CycleThen.mono {onError onError' : Fault → List Event → Go Unit → Prop}
    {next next' : List Event → Go Unit → Prop} (hcycle : CycleThen r onError next trace answer)
    (herror : ∀ err rest, onError err rest answer → onError' err rest answer)
    (hnext : ∀ rest, next rest answer → next' rest answer) :
    CycleThen r onError' next' trace answer := by
  cases hcycle with
  | panic htraces => exact .panic htraces
  | done cause htraces herr => exact .done cause htraces herr
  | failed htraces herr hrest => exact .failed htraces herr (herror _ _ hrest)
  | succeeded htraces hrest => exact .succeeded htraces (hnext _ hrest)

/-- **What holds of every run of the poll loop**: it holds at the end, of a
wait that fails, and of a round if it holds of the rounds after it. -/
theorem poll_induction {P : ℕ → List Event → Go Unit → Prop} (hend : P 0 [] (.ok ()))
    (hwait : ∀ {n trace answer}, WaitFails r trace answer → P (n + 1) trace answer)
    (hround : ∀ {n trace answer}, CycleThen r (fun _ => P n) (P n) trace answer →
      P (n + 1) (⟨.wait r.pollInterval, .ok ()⟩ :: trace) answer)
    (h : (r.poll rounds).Traces trace answer) : P rounds trace answer := by
  induction rounds generalizing trace with
  | zero =>
    obtain ⟨rfl, rfl⟩ := h
    exact hend
  | succ rounds ih =>
    rcases traces_poll_succ h with hfails | ⟨rest, rfl, hcycle⟩
    · exact hwait hfails
    · exact hround (hcycle.mono (fun _ _ => ih) (fun _ => ih))

/-- **A run is a first cycle and then the polling.** -/
theorem traces_run (h : r.validateRunConfig = .ok ())
    (hrun : (r.run rounds).Traces trace answer) :
    CycleThen r
      (fun err => (lift (.error (err.wrap "initial synchronization")) : Loop Unit).Traces)
      (r.poll rounds).Traces trace answer := by
  rw [run, h] at hrun
  exact cycleThen_of_traces (fun _ => rfl) (fun _ => rfl) hrun

/-! ## Failures are survived -/

/-- The context has not ended, no wait fails by itself, and nothing
panics; a synchronization may fail. -/
def Calm : Event → Prop
  | ⟨.sync, .error (.panic _)⟩ => False
  | ⟨.wait _, .error _⟩ => False
  | ⟨.ctxErr, some _⟩ => False
  | _ => True

/-- Where no call panics, the last attempt does not. -/
theorem Ends.noPanic {retry : ℕ} {answer : Go SyncResult} (h : Ends r retry trace answer)
    (hcalm : ∀ e ∈ trace, Calm e) : answer.NoPanic := by
  cases h with
  | success => exact Go.failsAs_ok _
  | @permanent err herr =>
    rintro _ ⟨⟩
    cases err with
    | error causes text => trivial
    | panic text => cases herr
  | @exhausted err herr =>
    rintro _ ⟨⟩
    cases err with
    | error causes text => trivial
    | panic text => exact herr.elim
  | panic | done | waitPanic | waitDone | waitFailed => simp [Calm] at hcalm

theorem RetryTrace.noPanic {retry : ℕ} {answer : Go SyncResult}
    (h : RetryTrace r retry trace answer) (hcalm : ∀ e ∈ trace, Calm e) : answer.NoPanic := by
  induction h with
  | ends h => exact h.noPanic hcalm
  | again _ _ _ ih => exact ih fun e he => hcalm e (List.mem_append_right _ he)

/-- **After its first cycle the loop survives every failure.** -/
theorem poll_eq_ok (h : r.validateRunConfig = .ok ())
    (hpoll : (r.poll rounds).Traces trace answer) : (∀ e ∈ trace, Calm e) → answer = .ok () := by
  refine poll_induction (P := fun _ trace answer => (∀ e ∈ trace, Calm e) → answer = .ok ())
    (fun _ => rfl) (fun hwait hcalm => ?_) (fun hcycle hcalm => ?_) hpoll
  · cases hwait <;> simp [Calm] at hcalm
  · replace hcalm := (List.forall_mem_cons.1 hcalm).2
    cases hcycle with
    | panic htraces => exact ((retryTrace_of_validated h htraces).noPanic hcalm _ rfl).elim
    | done => exact absurd (hcalm _ (List.mem_append_right _ List.mem_cons_self)) id
    | failed _ _ hrest =>
      exact hrest fun e he => hcalm e (List.mem_append_right _ (List.mem_cons_of_mem _ he))
    | succeeded _ hrest => exact hrest fun e he => hcalm e (List.mem_append_right _ he)

/-! ## Cycles and waits -/

/-- A cycle of `run`: its calls and how it ended, and the context as the
loop sees it if the cycle failed. -/
structure Cycle where
  trace : List Event
  answer : Go SyncResult
  ctx : Context

/-- The calls of a cycle, with the look at the context after a failure. -/
def Cycle.events (c : Cycle) : List Event :=
  match c.answer with
  | .error (.error _ _) => c.trace ++ [⟨.ctxErr, c.ctx⟩]
  | _ => c.trace

/-- A cycle's events are its trace, and a look at the context at most. -/
theorem Cycle.exists_events_eq (c : Cycle) : ∃ look, c.events = c.trace ++ look := by
  unfold events
  split
  · exact ⟨_, rfl⟩
  · exact ⟨[], (List.append_nil _).symm⟩

/-- The cycle is a `syncWithRetry` from its start. -/
structure Cycle.Of (r : Runner) (c : Cycle) : Prop where
  traces : r.syncWithRetry.Traces c.trace c.answer
  policy : RetryPolicy r c.trace c.answer

/-- **A trace splits after its first cycle.** -/
theorem CycleThen.split (h : r.validateRunConfig = .ok ())
    {onError : Fault → List Event → Go Unit → Prop} {next : List Event → Go Unit → Prop}
    (hcycle : CycleThen r onError next trace answer) :
    ∃ (c : Cycle) (rest : List Event), c.Of r ∧ trace = c.events ++ rest ∧
      ((rest = [] ∧ ∃ err, answer = .error err) ∨ (∃ err, onError err rest answer) ∨
        next rest answer) := by
  have hof : ∀ {trace answer} (ctx : Context), r.syncWithRetry.Traces trace answer →
      Cycle.Of r ⟨trace, answer, ctx⟩ := fun _ htraces => ⟨htraces, retryPolicy_of_traces h htraces⟩
  have hevents : ∀ {trace : List Event} {err : Fault} (ctx : Context), err.IsError →
      Cycle.events ⟨trace, .error err, ctx⟩ = trace ++ [⟨.ctxErr, ctx⟩] := by
    rintro trace (_ | _) ctx herr
    · rfl
    · exact herr.elim
  cases hcycle with
  | panic htraces =>
    exact ⟨_, [], hof none htraces, (List.append_nil _).symm, Or.inl ⟨rfl, _, rfl⟩⟩
  | done cause htraces herr =>
    exact ⟨_, [], hof (some cause) htraces, by rw [hevents _ herr, List.append_nil],
      Or.inl ⟨rfl, _, rfl⟩⟩
  | @failed _ rest _ _ htraces herr hrest =>
    exact ⟨_, rest, hof none htraces, by rw [hevents _ herr, List.append_assoc]; rfl,
      Or.inr (Or.inl ⟨_, hrest⟩)⟩
  | @succeeded _ rest _ _ htraces hrest =>
    exact ⟨_, rest, hof none htraces, rfl, Or.inr (Or.inr hrest)⟩

/-- One wait of the poll interval before each cycle, and at the end perhaps
a wait that fails. -/
structure Polled (r : Runner) (rounds : ℕ) (trace : List Event) (answer : Go Unit)
    (cycles : List Cycle) (rest : List Event) : Prop where
  eq_append : trace = cycles.flatMap (fun c => ⟨.wait r.pollInterval, .ok ()⟩ :: c.events) ++ rest
  of : ∀ c ∈ cycles, c.Of r
  rest_cases : rest = [] ∨ WaitFails r rest answer
  running : answer = .ok () → cycles.length = rounds ∧ rest = []

theorem Polled.cons {cycles : List Cycle} {rest : List Event} {c : Cycle}
    (hpolled : Polled r rounds trace answer cycles rest) (hc : c.Of r) :
    Polled r (rounds + 1) (⟨.wait r.pollInterval, .ok ()⟩ :: (c.events ++ trace)) answer
      (c :: cycles) rest where
  eq_append := by
    rw [hpolled.eq_append, List.flatMap_cons]
    simp
  of := List.forall_mem_cons.2 ⟨hc, hpolled.of⟩
  rest_cases := hpolled.rest_cases
  running hok := ⟨congrArg Nat.succ (hpolled.running hok).1, (hpolled.running hok).2⟩

/-- **Polling is a wait and a cycle, again and again.** -/
theorem exists_polled (h : r.validateRunConfig = .ok ())
    (hpoll : (r.poll rounds).Traces trace answer) :
    ∃ cycles rest, Polled r rounds trace answer cycles rest := by
  refine poll_induction
    (P := fun rounds trace answer => ∃ cycles rest, Polled r rounds trace answer cycles rest)
    ?_ (fun hwait => ?_) (fun {n trace answer} hcycle => ?_) hpoll
  · exact ⟨[], [], rfl, List.forall_mem_nil _, Or.inl rfl, fun _ => ⟨rfl, rfl⟩⟩
  · exact ⟨[], _, rfl, List.forall_mem_nil _, Or.inr hwait, by rintro rfl; cases hwait⟩
  · obtain ⟨c, rest, hc, rfl, hrest⟩ := hcycle.split h
    rcases hrest with ⟨rfl, err, rfl⟩ | ⟨-, cycles, rest', hpolled⟩ | ⟨cycles, rest', hpolled⟩
    · exact ⟨[c], [], by simp, by simpa using hc, Or.inl rfl, by rintro ⟨⟩⟩
    · exact ⟨c :: cycles, rest', hpolled.cons hc⟩
    · exact ⟨c :: cycles, rest', hpolled.cons hc⟩

/-! ## The end of the context -/

/-- A synchronization or a wait that fails. -/
def Failed : Event → Prop
  | ⟨.sync, .error err⟩ => err.IsError
  | ⟨.wait _, .error err⟩ => err.IsError
  | _ => False

/-- The loop looks at the context after each failure. -/
def Looked (t : List Event) : Prop :=
  ∀ i e, t[i]? = some e → Failed e → ∃ ctx : Context, t[i + 1]? = some ⟨.ctxErr, ctx⟩

theorem looked_nil : Looked [] := fun i e hget => by
  rw [List.getElem?_nil] at hget
  cases hget

theorem Looked.cons {e : Event} {t : List Event} (he : ¬ Failed e) (h : Looked t) :
    Looked (e :: t)
  | 0, _, hget, hfailed => absurd hfailed (Option.some.inj hget ▸ he)
  | i + 1, e', hget, hfailed => h i e' hget hfailed

theorem Looked.cons_ctxErr (e : Event) {ctx : Context} {t : List Event} (h : Looked t) :
    Looked (e :: ⟨.ctxErr, ctx⟩ :: t)
  | 0, _, _, _ => ⟨ctx, rfl⟩
  | i + 1, e', hget, hfailed => h.cons id i e' hget hfailed

theorem Looked.append {t₁ t₂ : List Event} (h₁ : Looked t₁) (h₂ : Looked t₂) :
    Looked (t₁ ++ t₂) := by
  intro i e he hfailed
  rcases Nat.lt_or_ge i t₁.length with hi | hi
  · rw [List.getElem?_append_left hi] at he
    obtain ⟨ctx, hctx⟩ := h₁ i e he hfailed
    exact ⟨ctx, List.getElem?_append_left (List.getElem?_eq_some_iff.1 hctx).1 ▸ hctx⟩
  · rw [List.getElem?_append_right hi] at he
    obtain ⟨ctx, hctx⟩ := h₂ _ e he hfailed
    refine ⟨ctx, ?_⟩
    rw [List.getElem?_append_right (by omega), Nat.sub_add_comm hi, hctx]

/-- After a failed attempt the loop looks at the context. -/
theorem Ends.looked {retry : ℕ} {answer : Go SyncResult} (h : Ends r retry trace answer) :
    Looked trace := by
  cases h with
  | success | panic => exact looked_nil.cons id
  | done | permanent | exhausted => exact looked_nil.cons_ctxErr _
  | waitPanic => exact (looked_nil.cons id).cons_ctxErr _
  | waitDone | waitFailed => exact (looked_nil.cons_ctxErr _).cons_ctxErr _

theorem RetryTrace.looked {retry : ℕ} {answer : Go SyncResult}
    (h : RetryTrace r retry trace answer) : Looked trace := by
  induction h with
  | ends h => exact h.looked
  | again _ _ _ ih => exact (ih.cons id).cons_ctxErr _

theorem WaitFails.looked (h : WaitFails r trace answer) : Looked trace := by
  cases h with
  | panic => exact looked_nil.cons id
  | done | failed => exact looked_nil.cons_ctxErr _

/-- The loop ends when it has seen that the context has ended, after
looking again. -/
def EndsWhenDone (trace : List Event) (answer : Go Unit) : Prop :=
  ∀ pre cause post, trace = pre ++ ⟨.ctxErr, some cause⟩ :: post →
    (∀ ctx : Context, ⟨.ctxErr, ctx⟩ ∈ post → ctx = some cause) →
      (∀ e ∈ post, e.1 = .ctxErr) ∧ answer = .error cause.fault

theorem endsWhenDone_nil : EndsWhenDone [] answer := by
  intro pre cause post htrace
  simp at htrace

theorem WaitFails.endsWhenDone (h : WaitFails r trace answer) : EndsWhenDone trace answer := by
  intro pre cause post htrace _
  have hmem : (⟨.ctxErr, some cause⟩ : Event) ∈ trace := by simp [htrace]
  cases h with
  | panic | failed => simp at hmem
  | done =>
    obtain ⟨hlast, rfl⟩ := split_last htrace (by simp)
    cases hlast
    exact ⟨List.forall_mem_nil _, rfl⟩

theorem CycleThen.looked (h : r.validateRunConfig = .ok ())
    (hcycle : CycleThen r (fun _ rest _ => Looked rest) (fun rest _ => Looked rest) trace answer) :
    Looked trace := by
  cases hcycle with
  | panic htraces => exact (retryTrace_of_validated h htraces).looked
  | done _ htraces => exact (retryTrace_of_validated h htraces).looked.append (looked_nil.cons id)
  | failed htraces _ hrest =>
    exact (retryTrace_of_validated h htraces).looked.append (hrest.cons id)
  | succeeded htraces hrest => exact (retryTrace_of_validated h htraces).looked.append hrest

/-- A context that is seen to have ended within the cycle is looked at once
more, and one that is seen to have ended after it is not. -/
theorem CycleThen.endsWhenDone (h : r.validateRunConfig = .ok ())
    (hcycle : CycleThen r (fun _ => EndsWhenDone) EndsWhenDone trace answer) :
    EndsWhenDone trace answer := by
  intro pre cause post htrace hpost
  cases hcycle with
  | panic htraces =>
    have hanswer := ((retryPolicy_of_traces h htraces).done _ _ _ htrace).2
    cases cause <;> cases hanswer
  | done cause' htraces =>
    rcases append_split htrace with ⟨post', hcycle, rfl⟩ | ⟨pre', hlook⟩
    · obtain ⟨rfl, -⟩ := (retryPolicy_of_traces h htraces).done _ _ _ hcycle
      cases hpost _ List.mem_cons_self
      exact ⟨by simp, rfl⟩
    · obtain ⟨hlast, rfl⟩ := split_last hlook (by simp)
      cases hlast
      exact ⟨List.forall_mem_nil _, rfl⟩
  | failed htraces _ hrest =>
    rcases append_split htrace with ⟨post', hcycle, rfl⟩ | ⟨pre', hlook⟩
    · obtain ⟨rfl, -⟩ := (retryPolicy_of_traces h htraces).done _ _ _ hcycle
      cases hpost _ List.mem_cons_self
    · obtain ⟨pre'', hsplit⟩ := cons_split hlook (by simp)
      exact hrest _ _ _ hsplit hpost
  | succeeded htraces hrest =>
    rcases append_split htrace with ⟨post', hcycle, rfl⟩ | ⟨pre', hsplit⟩
    · cases ((retryPolicy_of_traces h htraces).done _ _ _ hcycle).2
    · exact hrest _ _ _ hsplit hpost

/-- **After every failure the loop looks at the context.** -/
theorem run_looked (h : r.validateRunConfig = .ok ())
    (hrun : (r.run rounds).Traces trace answer) : Looked trace := by
  have hpoll : ∀ {trace}, (r.poll rounds).Traces trace answer → Looked trace :=
    poll_induction (P := fun _ trace _ => Looked trace) looked_nil WaitFails.looked
      fun hcycle => (hcycle.looked h).cons id
  exact ((traces_run h hrun).mono (fun _ _ hrest => hrest.1 ▸ looked_nil) fun _ => hpoll).looked h

/-- **When the loop has seen that the context is done, the run ends.** -/
theorem run_endsWhenDone (h : r.validateRunConfig = .ok ())
    (hrun : (r.run rounds).Traces trace answer) : EndsWhenDone trace answer := by
  have hpoll : ∀ {trace}, (r.poll rounds).Traces trace answer → EndsWhenDone trace answer := by
    refine poll_induction (P := fun _ => EndsWhenDone) endsWhenDone_nil WaitFails.endsWhenDone ?_
    intro _ trace answer hcycle pre cause post htrace
    obtain ⟨pre', hsplit⟩ := cons_split htrace (by simp)
    exact hcycle.endsWhenDone h _ _ _ hsplit
  exact ((traces_run h hrun).mono (fun _ _ hrest => hrest.1 ▸ endsWhenDone_nil)
    fun _ => hpoll).endsWhenDone h

/-! ## The policy of the loop -/

/-- **What `run` may do** in a world, with this trace and this answer. -/
structure PollPolicy (r : Runner) (w : World) (rounds : ℕ) (trace : List Event) (answer : Go Unit) :
    Prop where
  /-- Left alone it returns only what its first cycle fails with, -/
  returns : (∀ e ∈ trace, Calm e) → ∀ err, answer = .error err →
    ∃ cause, (r.syncWithRetry.recorded w.answer).1 = .error cause ∧
      err = cause.wrap "initial synchronization"
  /-- and after a first cycle that succeeds it does not return. -/
  survives : (∀ e ∈ trace, Calm e) → ∀ result,
    (r.syncWithRetry.recorded w.answer).1 = .ok result → answer = .ok ()
  /-- It goes through cycles, each from its start, with one wait in
  between. -/
  cycles : ∃ (first : Cycle) (polled : List Event) (later : List Cycle) (rest : List Event),
    r.syncWithRetry.recorded w.answer = (first.answer, first.trace) ∧ first.Of r ∧
      trace = first.events ++ polled ∧ Polled r rounds polled answer later rest
  /-- A failure after the end of the context is the last call but for the
  looks at the context. -/
  stops : ∀ pre e post, trace = pre ++ e :: post → Failed e →
    ∀ time cause, time ≤ pre.length + 1 → w.ctx time = some cause →
      (∀ e' ∈ post, e'.1 = .ctxErr) ∧ answer = .error cause.fault

section Policy

variable {w : World}

/-- The first cycle is the one the world gives. -/
theorem recorded_of_append {t₁ t₂ : List Event} {outcome : Go SyncResult}
    (h : r.syncWithRetry.Traces t₁ outcome) (hanswered : AnsweredFrom w.answer 0 (t₁ ++ t₂)) :
    r.syncWithRetry.recorded w.answer = (outcome, t₁) :=
  recorded_eq_iff.2 ⟨h, (answeredFrom_append.1 hanswered).1⟩

/-- Left alone, `run` ends as its first cycle does. -/
theorem run_of_calm (h : r.validateRunConfig = .ok ()) (hrun : (r.run rounds).Traces trace answer)
    (hanswered : AnsweredFrom w.answer 0 trace) (hcalm : ∀ e ∈ trace, Calm e) :
    (∃ result, (r.syncWithRetry.recorded w.answer).1 = .ok result ∧ answer = .ok ()) ∨
      ∃ err, (r.syncWithRetry.recorded w.answer).1 = .error err ∧
        answer = .error (err.wrap "initial synchronization") := by
  cases traces_run h hrun with
  | panic htraces => exact ((retryTrace_of_validated h htraces).noPanic hcalm _ rfl).elim
  | done => exact absurd (hcalm _ (List.mem_append_right _ List.mem_cons_self)) id
  | failed htraces _ hrest =>
    rw [recorded_of_append htraces hanswered]
    exact Or.inr ⟨_, rfl, hrest.2⟩
  | succeeded htraces hpoll =>
    rw [recorded_of_append htraces hanswered]
    exact Or.inl ⟨_, rfl, poll_eq_ok h hpoll fun e he => hcalm e (List.mem_append_right _ he)⟩

/-- The cycles of a run, the first of them as the surroundings answer
it. -/
theorem run_cycles (h : r.validateRunConfig = .ok ()) (hrun : (r.run rounds).Traces trace answer)
    (hanswered : AnsweredFrom w.answer 0 trace) :
    ∃ (first : Cycle) (polled : List Event) (later : List Cycle) (rest : List Event),
      r.syncWithRetry.recorded w.answer = (first.answer, first.trace) ∧ first.Of r ∧
        trace = first.events ++ polled ∧ Polled r rounds polled answer later rest := by
  obtain ⟨first, polled, hfirst, rfl, hrest⟩ := (traces_run h hrun).split h
  have hrecorded : r.syncWithRetry.recorded w.answer = (first.answer, first.trace) := by
    obtain ⟨look, hlook⟩ := first.exists_events_eq
    rw [hlook, List.append_assoc] at hanswered
    exact recorded_of_append hfirst.traces hanswered
  have hnone : ∀ err, Polled r rounds [] (.error err) [] [] := fun _ =>
    ⟨rfl, List.forall_mem_nil _, Or.inl rfl, by rintro ⟨⟩⟩
  rcases hrest with ⟨rfl, err, rfl⟩ | ⟨err, rfl, rfl⟩ | hpoll
  · exact ⟨first, [], [], [], hrecorded, hfirst, rfl, hnone _⟩
  · exact ⟨first, [], [], [], hrecorded, hfirst, rfl, hnone _⟩
  · obtain ⟨later, rest, hpolled⟩ := exists_polled h hpoll
    exact ⟨first, polled, later, rest, hrecorded, hfirst, rfl, hpolled⟩

/-- A failure at a time when the context has ended. -/
theorem run_stops (h : r.validateRunConfig = .ok ()) (hrun : (r.run rounds).Traces trace answer)
    (hanswered : AnsweredFrom w.answer 0 trace) {pre post : List Event} {e : Event}
    (htrace : trace = pre ++ e :: post) (hfailed : Failed e) {time : ℕ} {cause : ContextError}
    (htime : time ≤ pre.length + 1) (hcause : w.ctx time = some cause) :
    (∀ e' ∈ post, e'.1 = .ctxErr) ∧ answer = .error cause.fault := by
  have hctx : ∀ ctx : Context, ⟨.ctxErr, ctx⟩ ∈ post → ctx = some cause := by
    intro ctx hmem
    rw [htrace, answeredFrom_append] at hanswered
    obtain ⟨i, hi⟩ := List.mem_iff_getElem?.1 hmem
    exact (answeredFrom_iff.1 hanswered.2.2 i _ hi).trans (w.sticky (by omega) hcause)
  obtain ⟨ctx, hlook⟩ := run_looked h hrun pre.length e (by simp [htrace]) hfailed
  obtain ⟨post', rfl⟩ : ∃ post', post = ⟨.ctxErr, ctx⟩ :: post' := by
    cases post with
    | nil => simp [htrace] at hlook
    | cons e' post => exact ⟨post, by simpa [htrace] using hlook⟩
  obtain rfl := hctx ctx List.mem_cons_self
  rw [List.append_cons] at htrace
  obtain ⟨hpost, hanswer⟩ := run_endsWhenDone h hrun _ _ _ htrace
    fun ctx hmem => hctx ctx (List.mem_cons_of_mem _ hmem)
  exact ⟨List.forall_mem_cons.2 ⟨rfl, hpost⟩, hanswer⟩

/-- **The poll loop survives every later failure**, for any number of
rounds and in any world. -/
theorem run_policy (h : r.validateRunConfig = .ok ()) (w : World) (rounds : ℕ) :
    PollPolicy r w rounds ((r.run rounds).recorded w.answer).2
      ((r.run rounds).recorded w.answer).1 := by
  obtain ⟨hrun, hanswered⟩ := recorded_eq_iff.1
    (rfl : (r.run rounds).recorded w.answer = (_, _))
  constructor
  case returns =>
    intro hcalm err herr
    rcases run_of_calm h hrun hanswered hcalm with ⟨_, _, hok⟩ | ⟨cause, hcause, hanswer⟩
    · cases herr.symm.trans hok
    · cases herr.symm.trans hanswer
      exact ⟨cause, hcause, rfl⟩
  case survives =>
    intro hcalm result hresult
    rcases run_of_calm h hrun hanswered hcalm with ⟨_, _, hok⟩ | ⟨cause, hcause, -⟩
    · exact hok
    · cases hresult.symm.trans hcause
  case cycles => exact run_cycles h hrun hanswered
  case stops =>
    intro pre e post htrace hfailed time cause htime hcause
    exact run_stops h hrun hanswered htrace hfailed htime hcause

/-- A world in which the second cycle meets an error that is permanent,
and the context is canceled at a time. -/
def permanentThenCanceled (time : ℕ) : World where
  sync t :=
    if t = 2 then .error (.because .inconsistentData "block hash is null")
    else (flakyUntil 0).sync t
  wait t := if t < time then .ok () else .error ContextError.canceled.fault
  ctx t := if t < time then none else some .canceled
  sticky := by
    intro i j err hle hi
    split at hi
    · cases hi
    · rw [if_neg (by omega), hi]

/-- The second cycle meets the permanent error and is followed by a third
one; the wait after that is canceled. -/
theorem run_policy_canceled :
    let run := (fourRetries.run 5).recorded (permanentThenCanceled 6).answer
    run.2.map Sigma.fst = [.sync, .wait 1000000000, .sync, .ctxErr, .ctxErr, .wait 1000000000,
      .sync, .wait 1000000000, .ctxErr] ∧ run.1 = .error ContextError.canceled.fault ∧
        PollPolicy fourRetries (permanentThenCanceled 6) 5 run.2 run.1 :=
  ⟨by decide, by decide, run_policy (by decide) (permanentThenCanceled 6) 5⟩

end Policy

end Runner

end EthIndexer
