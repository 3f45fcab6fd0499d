import EthIndexer.Indexer.Failures
import EthIndexer.Indexer.Model.Runner
import Mathlib.Logic.Function.Iterate
/-!
# The retry policy

A cycle goes through rounds that fail and are waited for, and then it ends
in one of a few ways (`Ends`). `RetryTrace` is the set of traces this
leaves, and every trace of `syncWithRetry` is one of them
(`retryTrace_of_traces`); what the policy promises is then read off the
rounds and the ends, without another look at the loop.

A wait is the one before doubled, or the maximum. Neither the doubling nor
the comparison that guards it leaves the range of a duration, so the waits
are those of the integers.
-/

namespace EthIndexer

namespace Runner

open Session

variable {r : Runner} {retry : ℕ} {trace : List Event} {answer : Go SyncResult}

/-! ## The waits -/

/-- **The check of the runner's configuration is exact.** -/
theorem validateRunConfig_eq_ok_iff {u : Unit} :
    r.validateRunConfig = .ok u ↔ r.validateSyncOnceConfig = .ok () ∧ 0 < r.pollInterval ∧
      0 ≤ r.retryAttempts ∧ 0 < r.retryMinBackoff ∧ 0 < r.retryMaxBackoff ∧
        r.retryMinBackoff ≤ r.retryMaxBackoff := by
  simp only [validateRunConfig, Go.seq_eq_ok_iff, Go.failIf_eq_ok_iff, Int64.not_le, not_lt,
    Int64.not_lt, gt_iff_lt]

/-- No step of the doubling overflows. -/
theorem toInt_nextRetryBackoff {current maximum : Duration} (hpos : 0 < current.toInt)
    (hle : current.toInt ≤ maximum.toInt) :
    (nextRetryBackoff current maximum).toInt = min (current.toInt * 2) maximum.toInt := by
  have hmax := maximum.toInt_lt
  have hsub : (maximum - current).toInt = maximum.toInt - current.toInt := by
    rw [Int64.toInt_sub]
    exact Int.bmod_eq_of_le (by omega) (by omega)
  unfold nextRetryBackoff
  simp only [ge_iff_le, gt_iff_lt, Int64.le_iff_toInt_le, Int64.lt_iff_toInt_lt, hsub]
  split
  · omega
  · have hdouble : (current * 2).toInt = current.toInt * 2 := by
      rw [Int64.toInt_mul]
      exact Int.bmod_eq_of_le (by change _ ≤ _ * 2; omega) (by change _ * 2 < _; omega)
    omega

/-- The wait that follows the retry with this number. -/
def backoff (r : Runner) (retry : ℕ) : Duration :=
  (fun current => nextRetryBackoff current r.retryMaxBackoff)^[retry] r.retryMinBackoff

/-- The next backoff comes from the one before. -/
theorem backoff_succ (r : Runner) (retry : ℕ) :
    r.backoff (retry + 1) = nextRetryBackoff (r.backoff retry) r.retryMaxBackoff :=
  Function.iterate_succ_apply' ..

/-- **The waits double up to the maximum.** -/
theorem toInt_backoff (h : r.validateRunConfig = .ok ()) (retry : ℕ) :
    (r.backoff retry).toInt =
      min (r.retryMinBackoff.toInt * 2 ^ retry) r.retryMaxBackoff.toInt := by
  obtain ⟨-, -, -, hmin, -, hle⟩ := validateRunConfig_eq_ok_iff.1 h
  have hmin' : 0 < r.retryMinBackoff.toInt := Int64.lt_iff_toInt_lt.1 hmin
  have hle' := Int64.le_iff_toInt_le.1 hle
  induction retry with
  | zero =>
    change r.retryMinBackoff.toInt = _
    omega
  | succ retry ih =>
    have hpow : 0 < r.retryMinBackoff.toInt * 2 ^ retry :=
      Int.mul_pos hmin' (Int.pow_pos (by decide))
    rw [backoff_succ, toInt_nextRetryBackoff (by omega) (by omega), ih, Int.pow_succ,
      ← Int.mul_assoc]
    omega

/-! ## The traces of a cycle -/

/-- **How a cycle ends**, at the retry with this number. -/
inductive Ends (r : Runner) (retry : ℕ) : List Event → Go SyncResult → Prop
  | success (result : SyncResult) : Ends r retry [⟨.sync, .ok result⟩] (.ok result)
  | panic (text : String) :
      Ends r retry [⟨.sync, .error (.panic text)⟩] (.error (.panic text))
  | done {err : Fault} (cause : ContextError) (herr : err.IsError) :
      Ends r retry [⟨.sync, .error err⟩, ⟨.ctxErr, some cause⟩] (.error cause.fault)
  | permanent {err : Fault} (herr : isPermanentSyncError err = true) :
      Ends r retry [⟨.sync, .error err⟩, ⟨.ctxErr, none⟩] (.error err)
  | exhausted {err : Fault} (herr : Transient err) (hretry : r.retryAttempts ≤ retry) :
      Ends r retry [⟨.sync, .error err⟩, ⟨.ctxErr, none⟩]
        (.error (retriesExhausted (retry + 1) err))
  | waitPanic {err : Fault} (text : String) (herr : Transient err)
      (hretry : retry < r.retryAttempts) :
      Ends r retry
        [⟨.sync, .error err⟩, ⟨.ctxErr, none⟩, ⟨.wait (r.backoff retry), .error (.panic text)⟩]
        (.error (.panic text))
  | waitDone {err failure : Fault} (cause : ContextError) (herr : Transient err)
      (hretry : retry < r.retryAttempts) (hfailure : failure.IsError) :
      Ends r retry
        [⟨.sync, .error err⟩, ⟨.ctxErr, none⟩, ⟨.wait (r.backoff retry), .error failure⟩,
          ⟨.ctxErr, some cause⟩]
        (.error cause.fault)
  | waitFailed {err failure : Fault} (herr : Transient err) (hretry : retry < r.retryAttempts)
      (hfailure : failure.IsError) :
      Ends r retry
        [⟨.sync, .error err⟩, ⟨.ctxErr, none⟩, ⟨.wait (r.backoff retry), .error failure⟩,
          ⟨.ctxErr, none⟩]
        (.error (failure.wrap "wait before synchronization retry"))

/-- **The traces of a cycle** from a retry on: a synchronization fails and
is waited for, again and again, until the cycle ends. -/
inductive RetryTrace (r : Runner) : ℕ → List Event → Go SyncResult → Prop
  | ends {retry : ℕ} {trace : List Event} {answer : Go SyncResult}
      (h : Ends r retry trace answer) : RetryTrace r retry trace answer
  | again {retry : ℕ} {err : Fault} {trace : List Event} {answer : Go SyncResult}
      (herr : Transient err) (hretry : retry < r.retryAttempts)
      (h : RetryTrace r (retry + 1) trace answer) :
      RetryTrace r retry
        ([⟨.sync, .error err⟩, ⟨.ctxErr, none⟩, ⟨.wait (r.backoff retry), .ok ()⟩] ++ trace) answer

/-- The loop looks at the context, and goes on if it is not done. -/
theorem traces_unlessDone {α : Type} {next : Loop α} {trace : List Event} {x : Go α} :
    (unlessDone next).Traces trace x ↔
      (∃ cause : ContextError, trace = [⟨.ctxErr, some cause⟩] ∧ x = .error cause.fault) ∨
        ∃ rest, trace = ⟨.ctxErr, none⟩ :: rest ∧ next.Traces rest x := by
  rw [unlessDone, traces_request_bind]
  constructor
  · rintro ⟨ctx, rest, rfl, ⟨_, hfail, -⟩ | ⟨_, hok, h⟩⟩
    · cases hfail
    · cases hok
      cases ctx with
      | none => exact Or.inr ⟨rest, rfl, h⟩
      | some cause =>
        obtain ⟨rfl, rfl⟩ := h
        exact Or.inl ⟨cause, rfl, rfl⟩
  · rintro (⟨cause, rfl, rfl⟩ | ⟨rest, rfl, h⟩)
    · exact ⟨some cause, [], rfl, Or.inr ⟨_, rfl, rfl, rfl⟩⟩
    · exact ⟨none, rest, rfl, Or.inr ⟨_, rfl, h⟩⟩

/-- An error is returned as a value; a panic is not. -/
theorem returned_eq_ok_iff {α : Type} {x y : Go α} :
    returned x = .ok y ↔ x = y ∧ x.NoPanic := by
  rcases x with (_ | text) | a
  · simp [returned, Go.FailsAs, Fault.IsError]
  · simp [returned, Go.FailsAs, Fault.IsError]
  · simp [returned]

theorem returned_eq_error_iff {α : Type} {x : Go α} {err : Fault} :
    returned x = .error err ↔ ∃ text, x = .error (.panic text) ∧ err = .panic text := by
  rcases x with (_ | text) | a
  · simp [returned]
  · simp [returned, eq_comm]
  · simp [returned]

theorem not_permanent_of_transient {err : Fault} (h : Transient err) :
    ¬ isPermanentSyncError err = true := by
  cases err with
  | error causes text => exact Bool.not_eq_true _ ▸ (show isPermanentSyncError _ = false from h)
  | panic text => exact h.elim

/-- An error the runner does not give up on is retried. -/
theorem transient_of_isError {err : Fault} (herr : err.IsError)
    (hpermanent : ¬ isPermanentSyncError err = true) : Transient err := by
  cases err with
  | error causes text => exact Bool.eq_false_of_not_eq_true hpermanent
  | panic text => exact herr.elim

/-- **One round of the loop**: it ends the cycle, or it fails, is waited
for, and the loop goes on. -/
theorem traces_attemptSync {next : Loop SyncResult}
    (hround : (r.attemptSync retry (r.backoff retry) next).Traces trace answer) :
    Ends r retry trace answer ∨ ∃ err rest, Transient err ∧ retry < r.retryAttempts ∧
      trace = [⟨.sync, .error err⟩, ⟨.ctxErr, none⟩, ⟨.wait (r.backoff retry), .ok ()⟩] ++ rest ∧
        next.Traces rest answer := by
  unfold attemptSync at hround
  obtain ⟨outcome, rest, rfl, ⟨_, hpanic, rfl, rfl⟩ | ⟨_, hreturned, hsync⟩⟩ :=
    traces_request_bind.1 hround
  · obtain ⟨text, rfl, rfl⟩ := returned_eq_error_iff.1 hpanic
    exact Or.inl (.panic text)
  obtain ⟨rfl, herr⟩ := returned_eq_ok_iff.1 hreturned
  cases outcome with
  | ok result =>
    obtain ⟨rfl, rfl⟩ := hsync
    exact Or.inl (.success result)
  | error err =>
    replace herr := herr err rfl
    rcases traces_unlessDone.1 hsync with ⟨cause, rfl, rfl⟩ | ⟨rest, rfl, h⟩
    · exact Or.inl (.done cause herr)
    split at h
    · rename_i hpermanent
      obtain ⟨rfl, rfl⟩ := h
      exact Or.inl (.permanent hpermanent)
    rename_i hpermanent
    have htransient := transient_of_isError herr hpermanent
    split at h
    · rename_i hretry
      obtain ⟨rfl, rfl⟩ := h
      exact Or.inl (.exhausted htransient hretry)
    rename_i hretry
    replace hretry := not_le.1 hretry
    obtain ⟨outcome, rest, rfl, ⟨_, hpanic, rfl, rfl⟩ | ⟨_, hreturned, hwait⟩⟩ :=
      traces_request_bind.1 h
    · obtain ⟨text, rfl, rfl⟩ := returned_eq_error_iff.1 hpanic
      exact Or.inl (.waitPanic text htransient hretry)
    obtain ⟨rfl, hfailure⟩ := returned_eq_ok_iff.1 hreturned
    cases outcome with
    | error failure =>
      replace hfailure := hfailure failure rfl
      rcases traces_unlessDone.1 hwait with ⟨cause, rfl, rfl⟩ | ⟨rest, rfl, rfl, rfl⟩
      · exact Or.inl (.waitDone cause htransient hretry hfailure)
      · exact Or.inl (.waitFailed htransient hretry hfailure)
    | ok u => exact Or.inr ⟨err, rest, htransient, hretry, rfl, hwait⟩

/-- **Every trace of the loop is a `RetryTrace`**: the fuel is never used
up, and the wait is the one of the retry. -/
theorem retryTrace_of_traces {fuel : ℕ} (hfuel : r.retryAttempts ≤ fuel + retry)
    (h : (r.syncWithRetryFrom fuel retry (r.backoff retry)).Traces trace answer) :
    RetryTrace r retry trace answer := by
  induction fuel generalizing retry trace with
  | zero =>
    rcases traces_attemptSync h with hends | ⟨err, rest, -, hretry, -⟩
    · exact .ends hends
    · omega
  | succ fuel ih =>
    rcases traces_attemptSync h with hends | ⟨err, rest, herr, hretry, rfl, hrest⟩
    · exact .ends hends
    · rw [← backoff_succ] at hrest
      exact .again herr hretry (ih (by omega) hrest)

/-! ## The policy -/

/-- The outcomes of the synchronizations, in order. -/
def syncs : List Event → List (Go SyncResult) :=
  List.filterMap fun
    | ⟨.sync, outcome⟩ => some outcome
    | _ => none

/-- The synchronizations and the waits, without the looks at the context. -/
def calls : List Event → List Event := List.filter fun e => e.1 ≠ .ctxErr

/-- The call failed with an error that wraps the sentinel. -/
def Carries (s : Sentinel) : Event → Prop
  | ⟨.sync, .error err⟩ => err.Is s
  | ⟨.wait _, .error err⟩ => err.Is s
  | _ => False

/-- Why a cycle stops that has had `retry` failures before. -/
inductive Stopped (r : Runner) (retry : ℕ) (trace : List Event) (answer : Go SyncResult) : Prop
  | success {result : SyncResult} (h : ⟨.sync, .ok result⟩ ∈ trace)
  | permanent {err : Fault} (h : ⟨.sync, .error err⟩ ∈ trace)
      (herr : isPermanentSyncError err = true)
  | done {cause : ContextError} (h : ⟨.ctxErr, some cause⟩ ∈ trace)
  | exhausted {err : Fault} (h : ⟨.sync, .error err⟩ ∈ trace)
      (hcount : retry + (syncs trace).length = r.retryAttempts + 1)
      (hanswer : answer = .error (retriesExhausted (retry + (syncs trace).length) err))
  | waitFailed {duration : Duration} {failure : Fault}
      (h : ⟨.wait duration, .error failure⟩ ∈ trace)
  | panic {text : String} (h : ⟨.sync, .error (.panic text)⟩ ∈ trace)

/-- **What a cycle may do.** -/
structure RetryPolicy (r : Runner) (trace : List Event) (answer : Go SyncResult) : Prop where
  attempts : (syncs trace).length ≤ r.retryAttempts + 1
  /-- It stops right after the first success, -/
  success : ∀ pre result post, trace = pre ++ ⟨.sync, .ok result⟩ :: post →
    post = [] ∧ answer = .ok result
  /-- right after the first permanent error and the look at the context
  that comes first, -/
  permanent : ∀ pre err post, trace = pre ++ ⟨.sync, .error err⟩ :: post →
    isPermanentSyncError err = true →
      ∃ ctx : Context, post = [⟨.ctxErr, ctx⟩] ∧ answer = .error (ctx.elim err ContextError.fault)
  /-- and right after it sees that the context has ended. -/
  done : ∀ pre cause post, trace = pre ++ ⟨.ctxErr, some cause⟩ :: post →
    post = [] ∧ answer = .error cause.fault
  /-- It stops for nothing else but the number of retries, a wait that
  fails, or a panic. -/
  stops : Stopped r 0 trace answer
  /-- It reports exhausted retries after `retryAttempts + 1` failures that
  are worth a retry, unless a call brought that error along. -/
  exhausted : ∀ err, answer = .error err → err.Is .syncRetriesExhausted →
    ((syncs trace).length = r.retryAttempts + 1 ∧
      ∀ outcome ∈ syncs trace, ∃ err, outcome = .error err ∧ Transient err) ∨
    ∃ e ∈ trace, Carries .syncRetriesExhausted e
  /-- Synchronizations and waits take turns, -/
  alternates : ∀ k e, (calls trace)[2 * k]? = some e → e.1 = .sync
  /-- and the waits double up to the maximum. -/
  backoff : ∀ k e, (calls trace)[2 * k + 1]? = some e →
    ∃ duration : Duration, e.1 = .wait duration ∧
      duration.toInt = min (r.retryMinBackoff.toInt * 2 ^ k) r.retryMaxBackoff.toInt

/-- A call that leaves the cycle going. -/
def Harmless : Event → Prop
  | ⟨.sync, .error err⟩ => Transient err
  | ⟨.wait _, .ok ()⟩ => True
  | ⟨.ctxErr, none⟩ => True
  | _ => False

/-- What is not harmless is in the end of the trace. -/
theorem RetryTrace.split (h : RetryTrace r retry trace answer) {pre post : List Event} {e : Event}
    (htrace : trace = pre ++ e :: post) (he : ¬ Harmless e) :
    ∃ retry' pre', Ends r retry' (pre' ++ e :: post) answer := by
  induction h generalizing pre with
  | @ends retry trace answer h => exact ⟨retry, pre, htrace ▸ h⟩
  | @again retry err trace answer herr _ _ ih =>
    rcases append_split htrace with ⟨post', hround, -⟩ | ⟨pre', hsplit⟩
    · have hmem : e ∈ pre ++ e :: post' := List.mem_append_right _ List.mem_cons_self
      simp only [← hround, List.mem_cons, List.not_mem_nil, or_false] at hmem
      rcases hmem with rfl | rfl | rfl
      · exact absurd herr he
      · exact absurd trivial he
      · exact absurd trivial he
    · exact ih hsplit

section Ends

variable {pre post : List Event}

/-- What the cycle answers once it has this event. -/
def decision : Event → Option (Go SyncResult)
  | ⟨.sync, .ok result⟩ => some (.ok result)
  | ⟨.ctxErr, some cause⟩ => some (.error cause.fault)
  | _ => none

/-- An event that decides is the last one. -/
theorem Ends.eq_decision {e : Event} {answer' : Go SyncResult} (he : decision e = some answer')
    (h : Ends r retry (pre ++ e :: post) answer) : post = [] ∧ answer = answer' := by
  generalize htrace : pre ++ e :: post = trace at h
  have hnone : ∀ e' ∈ trace.dropLast, decision e' = none := by
    cases h <;> simp [decision]
  obtain ⟨hlast, hpost⟩ := split_last htrace.symm fun hmem => by
    rw [hnone e hmem] at he
    cases he
  refine ⟨hpost, ?_⟩
  cases h <;> cases hlast <;> cases he <;> rfl

/-- The context is looked at right after a permanent error. -/
theorem Ends.permanent_last {err : Fault} (herr : isPermanentSyncError err = true)
    (h : Ends r retry (pre ++ ⟨.sync, .error err⟩ :: post) answer) :
    ∃ ctx : Context, post = [⟨.ctxErr, ctx⟩] ∧
      answer = .error (ctx.elim err ContextError.fault) := by
  have hmem : (⟨.sync, .error err⟩ : Event) ∈ pre ++ ⟨.sync, .error err⟩ :: post := by simp
  have hpair : ∀ {err' : Fault} {ctx : Context},
      pre ++ ⟨.sync, .error err⟩ :: post = [⟨.sync, .error err'⟩, ⟨.ctxErr, ctx⟩] →
        err' = err ∧ post = [⟨.ctxErr, ctx⟩] := by
    intro err' ctx htrace
    cases pre with
    | nil =>
      cases htrace
      exact ⟨rfl, rfl⟩
    | cons e pre =>
      obtain ⟨-, htail⟩ := List.cons_eq_cons.1 htrace
      cases (split_last htail.symm (by simp)).1
  generalize htrace : pre ++ _ :: post = trace at h hmem hpair
  cases h with
  | done cause =>
    obtain ⟨-, hpost⟩ := hpair rfl
    exact ⟨some cause, hpost, rfl⟩
  | permanent =>
    obtain ⟨rfl, hpost⟩ := hpair rfl
    exact ⟨none, hpost, rfl⟩
  | success | panic => simp_all [isPermanentSyncError, Fault.Is, Fault.causes]
  | exhausted htransient | waitPanic _ htransient | waitDone _ htransient | waitFailed htransient =>
    obtain rfl : err = _ := by simpa using hmem
    exact absurd herr (not_permanent_of_transient htransient)

/-- The end of a cycle has one synchronization. -/
theorem Ends.length_syncs (h : Ends r retry trace answer) : (syncs trace).length = 1 := by
  cases h <;> rfl

/-- The calls at its end: the synchronization, and a wait at most. -/
theorem Ends.calls_cases (h : Ends r retry trace answer) : ∃ e : Event, e.1 = .sync ∧
    (calls trace = [e] ∨ ∃ e' : Event, e'.1 = .wait (r.backoff retry) ∧ calls trace = [e, e']) := by
  cases h with
  | waitPanic | waitDone | waitFailed => exact ⟨_, rfl, Or.inr ⟨_, rfl, rfl⟩⟩
  | _ => exact ⟨_, rfl, Or.inl rfl⟩

/-- Who reports exhausted retries. -/
theorem Ends.exhausted_cases (h : Ends r retry trace answer) {err : Fault}
    (hanswer : answer = .error err) (herr : err.Is .syncRetriesExhausted) :
    (r.retryAttempts ≤ retry ∧
      ∀ outcome ∈ syncs trace, ∃ err, outcome = .error err ∧ Transient err) ∨
    ∃ e ∈ trace, Carries .syncRetriesExhausted e := by
  cases h with
  | success => cases hanswer
  | panic | waitPanic =>
    cases hanswer
    cases herr
  | done | waitDone =>
    cases hanswer
    rw [Fault.Is, ContextError.causes_fault] at herr
    cases herr
  | permanent =>
    cases hanswer
    exact Or.inr ⟨_, List.mem_cons_self, herr⟩
  | @exhausted err htransient hretry =>
    refine Or.inl ⟨hretry, fun outcome houtcome => ?_⟩
    obtain rfl := List.mem_singleton.1 houtcome
    exact ⟨err, rfl, htransient⟩
  | @waitFailed err failure =>
    cases hanswer
    rw [Fault.Is, Fault.causes_wrap] at herr
    exact Or.inr ⟨⟨.wait (r.backoff retry), .error failure⟩, by simp, herr⟩

end Ends

section Trace

/-- A round that is retried has one synchronization. -/
theorem length_syncs_round (err : Fault) (duration : Duration) (trace : List Event) :
    (syncs ([⟨.sync, .error err⟩, ⟨.ctxErr, none⟩, ⟨.wait duration, .ok ()⟩] ++ trace)).length =
      (syncs trace).length + 1 := rfl

/-- **The attempts of a cycle are bounded.** -/
theorem RetryTrace.length_syncs_le (h : RetryTrace r retry trace answer)
    (hretry : retry ≤ r.retryAttempts) : (syncs trace).length + retry ≤ r.retryAttempts + 1 := by
  induction h with
  | ends h =>
    rw [h.length_syncs]
    omega
  | @again retry err trace answer _ hlt _ ih =>
    have := ih (by omega)
    rw [length_syncs_round]
    omega

/-- **Synchronizations and waits alternate**, and the waits are the
backoffs in order. -/
theorem RetryTrace.calls_getElem? (h : RetryTrace r retry trace answer) (k : ℕ) (e : Event) :
    ((calls trace)[2 * k]? = some e → e.1 = .sync) ∧
      ((calls trace)[2 * k + 1]? = some e → e.1 = .wait (r.backoff (retry + k))) := by
  induction h generalizing k with
  | @ends retry trace answer h =>
    obtain ⟨first, hfirst, hcalls⟩ := h.calls_cases
    cases k with
    | zero =>
      rcases hcalls with hcalls | ⟨second, hsecond, hcalls⟩
      · rw [hcalls]
        exact ⟨by rintro ⟨⟩; exact hfirst, nofun⟩
      · rw [hcalls]
        exact ⟨by rintro ⟨⟩; exact hfirst, by rintro ⟨⟩; exact hsecond⟩
    | succ k =>
      have hlength : (calls trace).length ≤ 2 := by
        rcases hcalls with hcalls | ⟨second, -, hcalls⟩ <;> simp [hcalls]
      rw [List.getElem?_eq_none (by omega), List.getElem?_eq_none (by omega)]
      exact ⟨nofun, nofun⟩
  | @again retry err trace answer _ _ _ ih =>
    cases k with
    | zero => exact ⟨by rintro ⟨⟩; rfl, by rintro ⟨⟩; rfl⟩
    | succ k =>
      obtain ⟨hsync, hwait⟩ := ih k
      refine ⟨hsync, fun h => ?_⟩
      rw [hwait h, Nat.add_assoc, Nat.add_comm 1]

/-- When the retries are exhausted, all of them were made. -/
theorem RetryTrace.exhausted_cases (h : RetryTrace r retry trace answer)
    (hretry : retry ≤ r.retryAttempts) {err : Fault}
    (hanswer : answer = .error err) (herr : err.Is .syncRetriesExhausted) :
    ((syncs trace).length + retry = r.retryAttempts + 1 ∧
      ∀ outcome ∈ syncs trace, ∃ err, outcome = .error err ∧ Transient err) ∨
    ∃ e ∈ trace, Carries .syncRetriesExhausted e := by
  induction h with
  | ends h =>
    rw [h.length_syncs]
    refine (h.exhausted_cases hanswer herr).imp_left fun ⟨hle, hall⟩ => ⟨by omega, hall⟩
  | @again retry err' trace answer htransient hlt _ ih =>
    rcases ih (by omega) hanswer with ⟨hlength, hall⟩ | ⟨e, he, hcarries⟩
    · refine Or.inl ⟨?_, List.forall_mem_cons.2 ⟨⟨err', rfl, htransient⟩, hall⟩⟩
      rw [length_syncs_round]
      omega
    · exact Or.inr ⟨e, List.mem_append_right _ he, hcarries⟩

theorem RetryTrace.stops (h : RetryTrace r retry trace answer) (hretry : retry ≤ r.retryAttempts) :
    Stopped r retry trace answer := by
  induction h with
  | @ends retry trace answer h =>
    cases h with
    | success result => exact .success List.mem_cons_self
    | permanent herr => exact .permanent List.mem_cons_self herr
    | done cause => exact .done (List.mem_cons_of_mem _ List.mem_cons_self)
    | exhausted _ hle =>
      refine .exhausted List.mem_cons_self ?_ rfl
      change (retry : ℤ) + (1 : ℕ) = _
      omega
    | panic text => exact .panic List.mem_cons_self
    | waitPanic | waitDone | waitFailed =>
      exact .waitFailed (List.mem_cons_of_mem _ (List.mem_cons_of_mem _ List.mem_cons_self))
  | @again retry err trace answer _ hlt _ ih =>
    have hlength := length_syncs_round err (r.backoff retry) trace
    cases ih (by omega) with
    | success hmem => exact .success (List.mem_append_right _ hmem)
    | permanent hmem herr => exact .permanent (List.mem_append_right _ hmem) herr
    | done hmem => exact .done (List.mem_append_right _ hmem)
    | exhausted hmem hcount hanswer =>
      refine .exhausted (List.mem_append_right _ hmem) (by omega) ?_
      rw [hanswer, hlength, Nat.add_right_comm, Nat.add_assoc]
    | waitFailed hmem => exact .waitFailed (List.mem_append_right _ hmem)
    | panic hmem => exact .panic (List.mem_append_right _ hmem)

/-- The traces of a runner whose configuration was checked. -/
theorem retryTrace_of_validated (h : r.validateRunConfig = .ok ())
    (htraces : r.syncWithRetry.Traces trace answer) : RetryTrace r 0 trace answer := by
  obtain ⟨-, -, hattempts, -⟩ := validateRunConfig_eq_ok_iff.1 h
  exact retryTrace_of_traces (by omega) htraces

/-- **A cycle keeps the policy.** -/
theorem retryPolicy_of_traces (h : r.validateRunConfig = .ok ())
    (htraces : r.syncWithRetry.Traces trace answer) : RetryPolicy r trace answer := by
  obtain ⟨-, -, hattempts, -⟩ := validateRunConfig_eq_ok_iff.1 h
  have htrace := retryTrace_of_validated h htraces
  constructor
  case attempts => exact (by simpa using htrace.length_syncs_le hattempts)
  case success =>
    intro pre result post hsplit
    obtain ⟨_, _, hends⟩ := htrace.split hsplit id
    exact hends.eq_decision rfl
  case permanent =>
    intro pre err post hsplit herr
    obtain ⟨_, _, hends⟩ := htrace.split hsplit fun ht => not_permanent_of_transient ht herr
    exact hends.permanent_last herr
  case done =>
    intro pre cause post hsplit
    obtain ⟨_, _, hends⟩ := htrace.split hsplit id
    exact hends.eq_decision rfl
  case stops => exact htrace.stops hattempts
  case exhausted =>
    intro err hanswer herr
    simpa using htrace.exhausted_cases hattempts hanswer herr
  case alternates => exact fun k e => (htrace.calls_getElem? k e).1
  case backoff =>
    intro k e he
    rw [(htrace.calls_getElem? k e).2 he, Nat.zero_add]
    exact ⟨r.backoff k, rfl, toInt_backoff h k⟩

/-- **The retry policy.** Whatever the synchronizations and the waits come
to, and whenever the context ends. -/
theorem syncWithRetry_policy (h : r.validateRunConfig = .ok ()) (w : World) :
    RetryPolicy r (r.syncWithRetry.recorded w.answer).2 (r.syncWithRetry.recorded w.answer).1 :=
  retryPolicy_of_traces h (recorded_eq_iff.1 rfl).1

/-- Four retries, with waits between 10 and 25 milliseconds. -/
def fourRetries : Runner :=
  { Syncer.new { chainID := 1, blockWindow := 3, headMode := .latest, rpcConcurrency := 1 } with
    pollInterval := 1000000000
    retryAttempts := 4
    retryMinBackoff := 10000000
    retryMaxBackoff := 25000000 }

/-- A world in which every call before a time fails with a temporary
error. -/
def flakyUntil (time : ℕ) : World where
  sync t :=
    if t < time then .error (.error [] "temporary RPC failure")
    else .ok
      { head := ⟨7, .spelling 7⟩, storedTip := none, mode := .initialLoad, fromBlock := 5
        replaceFrom := 5, blockCount := 3, transactionCount := 0, eventCount := 0, syncedAt := 0
        reorg := none }
  wait _ := .ok ()
  ctx _ := none
  sticky _ h := nomatch h

/-- Four failures, and a success after the last retry. -/
theorem syncWithRetry_policy_flaky :
    let run := fourRetries.syncWithRetry.recorded (flakyUntil 12).answer
    (calls run.2).map Sigma.fst = [.sync, .wait 10000000, .sync, .wait 20000000, .sync,
      .wait 25000000, .sync, .wait 25000000, .sync] ∧ RetryPolicy fourRetries run.2 run.1 :=
  ⟨by decide, syncWithRetry_policy (by decide) (flakyUntil 12)⟩

end Trace

end Runner

end EthIndexer
