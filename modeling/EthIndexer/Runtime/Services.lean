import EthIndexer.Common.Steps
import EthIndexer.Runtime.Model.Services
/-!
# The services stop together

Whatever the order in which the goroutines of `runServices` move,
`Shutdown` is called once and only after the group's context has ended,
and `runServices` returns when all three goroutines have. It returns nil
only if the caller asked it to stop and every service then ended as it
should; an error it returns is that of the goroutine that reported first,
and is not an error of the shutdown unless the caller asked for it.

As soon as the caller's context or a service has ended, some goroutine can
move until the function returns, unless one of the calls `Run`,
`ListenAndServe` and `Shutdown` is awaited; and no run goes on for ever.
If the services and the shutdown end as they should, the function returns
nil.
-/

namespace EthIndexer

namespace Runtime

open Relation

variable {s s' : State}

/-- What a goroutine has returned to its group. -/
def Goroutine.result : Goroutine → Option Err
  | .finished _ result => result
  | _ => none

def Closer.result : Closer → Option Err
  | .finished _ result => result
  | _ => none

/-- The goroutine has looked at the group's context after its service
returned `err`, and made `result` of it. -/
def Goroutine.Looked (g : Goroutine) (err result : Option Err) : Prop :=
  g = .decided err result ∨ g = .finished err result

/-- A goroutine that has not ended has no result. -/
theorem Goroutine.result_eq_none {g : Goroutine}
    (h : ∀ err result, g ≠ .finished err result) : g.result = none := by
  cases g with
  | finished err result => exact absurd rfl (h err result)
  | _ => rfl

/-! ## Results -/

/-- The indexer ends well if it was stopped and says no more than that. -/
theorem indexerResult_eq_none_iff {groupCtx : Context} {err : Option Err} :
    indexerResult groupCtx err = none ↔
      ∃ cause, groupCtx = some cause ∧ (err = none ∨ Err.Is err (.context cause)) := by
  unfold indexerResult
  split
  · rename_i h
    obtain ⟨cause, hcause, herr⟩ := h
    exact ⟨fun _ => ⟨cause, hcause, herr⟩, fun _ => rfl⟩
  · rename_i h
    refine ⟨fun hresult => ?_, fun hclean => absurd hclean h⟩
    cases err <;> cases hresult

/-- The server ends well if it was stopped and is closed. -/
theorem serverResult_eq_none_iff {groupCtx : Context} {err : Option Err} :
    serverResult groupCtx err = none ↔ groupCtx ≠ none ∧ Err.Is err .serverClosed := by
  unfold serverResult
  split
  · rename_i h
    exact ⟨fun _ => h, fun _ => rfl⟩
  · rename_i h
    refine ⟨fun hresult => ?_, fun hclean => absurd hclean h⟩
    split at hresult
    · cases hresult
    · rename_i hother
      rw [Option.map_eq_none_iff] at hresult
      exact absurd (Or.inl hresult) hother

/-- No service may end before the group's context. -/
theorem result_ne_none_of_groupCtx_none (v : Service) (err : Option Err) :
    v.result none err ≠ none := by
  cases v with
  | indexer =>
    intro h
    obtain ⟨cause, hcause, -⟩ := indexerResult_eq_none_iff.1 h
    cases hcause
  | server => exact fun h => (serverResult_eq_none_iff.1 h).1 rfl

/-- The shutdown ends well even if the server has closed before it. -/
theorem shutdownResult_eq_none_iff {err : Option Err} :
    shutdownResult err = none ↔ err = none ∨ Err.Is err .serverClosed := by
  unfold shutdownResult
  split
  · rename_i h
    rw [Option.map_eq_none_iff]
    exact ⟨Or.inl, fun hclean => absurd (hclean.resolve_left h.1) h.2⟩
  · rename_i h
    rw [not_and_or, not_not, not_not] at h
    exact ⟨fun _ => h, fun _ => rfl⟩

/-! ## What every step keeps -/

/-- The context a goroutine looked at: the group's, before or after its
end. -/
def SeenBy (s : State) (groupCtx : Context) : Prop := groupCtx = none ∨ groupCtx = s.groupCtx

/-- All goroutines have ended without an error so far. -/
def Clean (s : State) : Prop := (∀ v, (s.service v).result = none) ∧ s.closer.result = none

/-- A goroutine has ended with `e`; if it is the third, the caller has
asked for the shutdown. -/
def Blames (s : State) (e : Err) : Prop :=
  (∃ v, (s.service v).result = some e) ∨ s.closer.result = some e ∧ s.ctx ≠ none

/-- What holds at every step, whatever error is kept. -/
structure Base (s : State) : Prop where
  /-- Without an error, the group's context ends with the caller's. -/
  group : s.err = none → s.groupCtx = none ∨ s.groupCtx = s.ctx
  failed : s.err ≠ none → s.groupCtx ≠ none
  service : ∀ v err result, (s.service v).Looked err result →
    ∃ groupCtx, SeenBy s groupCtx ∧ result = v.result groupCtx err
  closer : ∀ err result, s.closer = .finished err result → result = shutdownResult err
  waiting : s.closer = .waiting → s.shutdowns = 0
  called : s.closer ≠ .waiting → s.shutdowns = 1 ∧ s.groupCtx ≠ none
  answered : ∀ a, s.answer = some a → a = s.err ∧
    (∀ v, ∃ err result, s.service v = .finished err result) ∧
    ∃ err result, s.closer = .finished err result

/-- **The invariant.** -/
structure Inv (s : State) : Prop extends Base s where
  clean : s.err = none → Clean s
  first : ∀ e, s.err = some e → Blames s e

theorem inv_init : Inv .init where
  group _ := Or.inl rfl
  failed h := absurd rfl h
  service v err result h := by rcases h with h | h <;> cases h
  closer err result h := by cases h
  waiting _ := rfl
  called h := absurd rfl h
  answered a h := by cases h
  clean _ := ⟨fun _ => rfl, rfl⟩
  first e h := by cases h

/-- The group keeps the error, or has one, or there is none. -/
theorem report_cases (s : State) (result : Option Err) :
    (s.report result = s ∧ (result = none ∨ s.err ≠ none)) ∨
      ∃ e, result = some e ∧ s.err = none ∧
        s.report result = { s with err := some e, groupCtx := s.groupCtx.or (some .canceled) } := by
  cases result with
  | none => exact Or.inl ⟨rfl, Or.inl rfl⟩
  | some e =>
    unfold State.report
    cases herr : s.err with
    | none => exact Or.inr ⟨e, rfl, rfl, rfl⟩
    | some e' => exact Or.inl ⟨rfl, Or.inr (Option.some_ne_none _)⟩

theorem or_canceled_ne_none (ctx : Context) : ctx.or (some .canceled) ≠ none := by
  cases ctx <;> exact Option.some_ne_none _

/-- What a goroutine saw is what the context still is, or it saw none. -/
theorem SeenBy.or {groupCtx : Context} (h : SeenBy s groupCtx) :
    groupCtx = none ∨ groupCtx = s.groupCtx.or (some .canceled) := by
  rcases h with hnone | heq
  · exact Or.inl hnone
  · cases hs : s.groupCtx with
    | none => exact Or.inl (heq.trans hs)
    | some cause => exact Or.inr (heq.trans hs)

/-- A goroutine returns to its group. -/
theorem Base.report {result : Option Err} (h : Base s) (hanswer : s.answer = none)
    (hclean : s.err = none → result = none → Clean s)
    (hfirst : ∀ e, s.err = some e → Blames s e)
    (hnew : ∀ e, s.err = none → result = some e → Blames s e) : Inv (s.report result) := by
  rcases report_cases s result with ⟨heq, hkept⟩ | ⟨e, hresult, herr, heq⟩
  · rw [heq]
    exact ⟨h, fun herr => hclean herr (hkept.resolve_right fun hne => hne herr), hfirst⟩
  · rw [heq]
    refine ⟨⟨(fun hnone => by cases hnone), fun _ => or_canceled_ne_none _, fun v err result hf => ?_,
      h.closer, h.waiting, fun hcalled => ⟨(h.called hcalled).1, or_canceled_ne_none _⟩,
      fun a ha => ?_⟩, (fun hnone => by cases hnone), fun e' he' => ?_⟩
    · obtain ⟨groupCtx, hseen, hresult⟩ := h.service v err result hf
      exact ⟨groupCtx, hseen.or, hresult⟩
    · cases ha.symm.trans hanswer
    · cases he'
      exact hnew e herr hresult

/-- Before all goroutines have ended, `runServices` has not returned. -/
theorem Base.answer_of_service (h : Base s) {v : Service}
    (hv : ∀ err result, s.service v ≠ .finished err result) : s.answer = none := by
  cases ha : s.answer with
  | none => rfl
  | some a =>
    obtain ⟨err, result, hfinished⟩ := (h.answered a ha).2.1 v
    exact absurd hfinished (hv err result)

/-- There is no answer before the shutdown has ended. -/
theorem Base.answer_of_closer (h : Base s)
    (hcloser : ∀ err result, s.closer ≠ .finished err result) : s.answer = none := by
  cases ha : s.answer with
  | none => rfl
  | some a =>
    obtain ⟨err, result, hfinished⟩ := (h.answered a ha).2.2
    exact absurd hfinished (hcloser err result)

/-! ## One step -/

theorem Inv.stop (h : Inv s) (cause : ContextError) (hctx : s.ctx = none) :
    Inv { s with ctx := some cause } where
  toBase := { h.toBase with
    group := fun herr => Or.inl ((h.group herr).elim id fun heq => heq.trans hctx) }
  clean := h.clean
  first e he := (h.first e he).imp_right fun hcloser => ⟨hcloser.1, Option.some_ne_none _⟩

theorem Inv.propagate (h : Inv s) {cause : ContextError} (hctx : s.ctx = some cause)
    (hgroup : s.groupCtx = none) : Inv { s with groupCtx := some cause } where
  toBase := { h.toBase with
    group := fun _ => Or.inr hctx.symm
    failed := fun _ => Option.some_ne_none _
    service := fun v err result hfinished => by
      obtain ⟨groupCtx, hseen, hresult⟩ := h.service v err result hfinished
      exact ⟨groupCtx, Or.inl (hseen.elim id fun heq => heq.trans hgroup), hresult⟩
    called := fun hcalled => ⟨(h.called hcalled).1, Option.some_ne_none _⟩ }
  clean := h.clean
  first := h.first

/-- What is blamed is not a service that has returned nothing yet. -/
theorem Blames.update {e : Err} {v : Service} (h : Blames s e) (hv : (s.service v).result = none)
    (g : Goroutine) : Blames { s with service := Function.update s.service v g } e := by
  rcases h with ⟨v', hv'⟩ | hcloser
  · have hne : v' ≠ v := by
      rintro rfl
      cases hv.symm.trans hv'
    refine Or.inl ⟨v', ?_⟩
    rw [← hv']
    exact congrArg Goroutine.result (Function.update_of_ne hne ..)
  · exact Or.inr hcloser

/-- A goroutine without an error leaves the group without one. -/
theorem Clean.update {v : Service} (h : Clean s) {g : Goroutine} (hg : g.result = none) :
    Clean { s with service := Function.update s.service v g } := by
  refine ⟨fun v' => ?_, h.2⟩
  by_cases hv : v' = v
  · subst hv
    rw [← hg]
    exact congrArg Goroutine.result (Function.update_self ..)
  · rw [← h.1 v']
    exact congrArg Goroutine.result (Function.update_of_ne hv ..)

/-- The goroutine of a service moves on. -/
theorem Base.update (h : Base s) {v : Service} {g : Goroutine} (hanswer : s.answer = none)
    (hg : ∀ err result, g.Looked err result →
      ∃ groupCtx, SeenBy s groupCtx ∧ result = v.result groupCtx err) :
    Base { s with service := Function.update s.service v g } :=
  { h with
    service := fun v' err result hv' => by
      dsimp only at hv'
      by_cases hv : v' = v
      · subst hv
        rw [Function.update_self] at hv'
        exact hg err result hv'
      · rw [Function.update_of_ne hv] at hv'
        exact h.service v' err result hv'
    answered := fun a ha => by cases ha.symm.trans hanswer }

/-- So it does without an answer to its group. -/
theorem Inv.update (h : Inv s) {v : Service} {g : Goroutine}
    (hv : ∀ err result, s.service v ≠ .finished err result) (hg : g.result = none)
    (hlooked : ∀ err result, g.Looked err result →
      ∃ groupCtx, SeenBy s groupCtx ∧ result = v.result groupCtx err) :
    Inv { s with service := Function.update s.service v g } :=
  ⟨h.toBase.update (h.answer_of_service hv) hlooked, fun herr => (h.clean herr).update hg,
    fun e he => (h.first e he).update (Goroutine.result_eq_none hv) _⟩

theorem Inv.returns (h : Inv s) {v : Service} (err : Option Err) (hv : s.service v = .running) :
    Inv { s with service := Function.update s.service v (.returned err) } :=
  h.update (fun _ _ hf => by cases hv.symm.trans hf) rfl
    fun _ _ hg => by rcases hg with hg | hg <;> cases hg

/-- A service looks at the context, and decides what to make of its
error. -/
theorem Inv.decides (h : Inv s) {v : Service} {err : Option Err}
    (hv : s.service v = .returned err) :
    Inv { s with
      service := Function.update s.service v (.decided err (v.result s.groupCtx err)) } := by
  refine h.update (fun _ _ hf => by cases hv.symm.trans hf) rfl fun _ _ hg => ?_
  rcases hg with hg | hg
  · cases hg
    exact ⟨s.groupCtx, Or.inr rfl, rfl⟩
  · cases hg

/-- A service ends, and the first error cancels the group. -/
theorem Inv.ends (h : Inv s) {v : Service} {err result : Option Err}
    (hv : s.service v = .decided err result) :
    Inv ({ s with service := Function.update s.service v (.finished err result) }.report
      result) := by
  have hnot : ∀ err result, s.service v ≠ .finished err result :=
    fun _ _ hf => by cases hv.symm.trans hf
  have hanswer := h.answer_of_service hnot
  refine Base.report (h.toBase.update hanswer fun _ _ hg => ?_) hanswer
    (fun herr hresult => (h.clean herr).update hresult)
    (fun e he => (h.first e he).update (Goroutine.result_eq_none hnot) _)
    fun e _ hresult => Or.inl ⟨v, ?_⟩
  · rcases hg with hg | hg
    · cases hg
    · cases hg
      exact h.service v err result (Or.inl hv)
  · dsimp only
    rw [Function.update_self]
    exact hresult

/-- The shutdown begins, for the first time. -/
theorem Inv.shutdown (h : Inv s) (hcloser : s.closer = .waiting) (hgroup : s.groupCtx ≠ none) :
    Inv { s with closer := .shuttingDown, shutdowns := s.shutdowns + 1 } where
  toBase := { h.toBase with
    closer := fun _ _ hf => by cases hf
    waiting := fun hf => by cases hf
    called := fun _ => ⟨by rw [h.waiting hcloser], hgroup⟩
    answered := fun a ha => by
      cases ha.symm.trans (h.answer_of_closer fun _ _ hf => by cases hcloser.symm.trans hf) }
  clean herr := ⟨(h.clean herr).1, rfl⟩
  first e he := (h.first e he).imp_right fun hresult => by
    rw [hcloser] at hresult
    cases hresult.1

theorem Inv.shutdownReturns (h : Inv s) (err : Option Err) (hcloser : s.closer = .shuttingDown) :
    Inv { s with closer := .returned err } where
  toBase := { h.toBase with
    closer := fun _ _ hf => by cases hf
    waiting := fun hf => by cases hf
    called := fun _ => h.called fun hf => by cases hcloser.symm.trans hf
    answered := fun a ha => by
      cases ha.symm.trans (h.answer_of_closer fun _ _ hf => by cases hcloser.symm.trans hf) }
  clean herr := ⟨(h.clean herr).1, rfl⟩
  first e he := (h.first e he).imp_right fun hresult => by
    rw [hcloser] at hresult
    cases hresult.1

theorem Inv.closes (h : Inv s) {err : Option Err} (hcloser : s.closer = .returned err) :
    Inv ({ s with closer := .finished err (shutdownResult err) }.report (shutdownResult err)) := by
  have hanswer : s.answer = none :=
    h.answer_of_closer fun _ _ hf => by cases hcloser.symm.trans hf
  obtain ⟨hcalled, hgroup⟩ := h.called fun hf => by cases hcloser.symm.trans hf
  refine Base.report ?_ hanswer (fun herr hresult => ⟨(h.clean herr).1, hresult⟩) (fun e he => ?_)
    fun e herr hresult => Or.inr ⟨hresult, ?_⟩
  · exact { h.toBase with
      closer := fun _ _ hf => by cases hf; rfl
      waiting := fun hf => by cases hf
      called := fun _ => ⟨hcalled, hgroup⟩
      answered := fun a ha => by cases ha.symm.trans hanswer }
  · refine (h.first e he).imp_right fun hresult => ?_
    rw [hcloser] at hresult
    cases hresult.1
  · -- nobody has failed, so the group's context has ended with the caller's
    rcases h.group herr with hnone | heq
    · exact absurd hnone hgroup
    · exact fun hctx => hgroup (heq.trans hctx)

/-- `Wait` returns what the group has, and cancels it. -/
theorem Inv.wait (h : Inv s) (hservices : ∀ v, ∃ err result, s.service v = .finished err result)
    (hcloser : ∃ err result, s.closer = .finished err result) :
    Inv { s with groupCtx := s.groupCtx.or (some .canceled), answer := some s.err } := by
  have hgroup : s.groupCtx.or (some .canceled) = s.groupCtx := by
    obtain ⟨err, result, hfinished⟩ := hcloser
    have hne := (h.called fun hf => by cases hfinished.symm.trans hf).2
    cases hs : s.groupCtx with
    | none => exact absurd hs hne
    | some cause => rfl
  rw [hgroup]
  exact ⟨{ h.toBase with
    answered := fun a ha => ⟨(Option.some.inj ha).symm, hservices, hcloser⟩ }, h.clean, h.first⟩

/-- **The step lemma.** -/
theorem Inv.step (h : Inv s) (hstep : Step s s') : Inv s' := by
  cases hstep with
  | stop cause hctx => exact h.stop cause hctx
  | propagate hctx hgroup => exact h.propagate hctx hgroup
  | returns v err hv => exact h.returns err hv
  | decides v hv => exact h.decides hv
  | ends v hv => exact h.ends hv
  | shutdown hcloser hgroup => exact h.shutdown hcloser hgroup
  | shutdownReturns err hcloser => exact h.shutdownReturns err hcloser
  | closes hcloser => exact h.closes hcloser
  | wait hservices hcloser _ => exact h.wait hservices hcloser

/-- **The invariant of every run.** -/
theorem Reachable.inv (h : Reachable s) : Inv s := Steps.invariant h inv_init Inv.step

/-! ## What `runServices` returns -/

/-- **How `runServices` ends.** All three goroutines have ended and the
server was shut down, once. The function returns an error if one of the
goroutines did, and then an error of theirs; one of the shutdown only if
the caller had asked to stop. It returns nil only if the caller's context
ended, `Run` returned nil or that context's error, the server was closed,
and the shutdown succeeded. -/
structure Outcome (s : State) (answer : Option Err) : Prop where
  finished : ∃ err₁ err₂ err₃ result₁ result₂ result₃,
    s.service .indexer = .finished err₁ result₁ ∧ s.service .server = .finished err₂ result₂ ∧
    s.closer = .finished err₃ result₃ ∧
    (answer = none ↔ result₁ = none ∧ result₂ = none ∧ result₃ = none) ∧
    (∀ e, answer = some e → result₁ = some e ∨ result₂ = some e ∨
      result₃ = some e ∧ s.ctx ≠ none) ∧
    (answer = none → ∃ cause, s.ctx = some cause ∧
      (err₁ = none ∨ Err.Is err₁ (.context cause)) ∧ Err.Is err₂ .serverClosed ∧
      (err₃ = none ∨ Err.Is err₃ .serverClosed))
  shutdown : s.shutdowns = 1

/-- Without an error, a service has ended under the caller's context. -/
theorem Inv.ctx_of_result (h : Inv s) (herr : s.err = none) {v : Service} {err : Option Err}
    (hv : s.service v = .finished err none) (hcalled : s.closer ≠ .waiting) :
    ∃ cause, s.ctx = some cause ∧ v.result (some cause) err = none := by
  obtain ⟨groupCtx, hseen, hresult⟩ := h.service v err none (Or.inr hv)
  have hgroup : s.groupCtx = s.ctx := (h.group herr).resolve_left (h.called hcalled).2
  -- the goroutine has seen the end of the group's context
  have hne : groupCtx ≠ none := by
    rintro rfl
    exact result_ne_none_of_groupCtx_none v err hresult.symm
  obtain rfl : groupCtx = s.ctx := (hseen.resolve_left hne).trans hgroup
  obtain ⟨cause, hcause⟩ := Option.ne_none_iff_exists'.1 hne
  rw [hcause] at hresult
  exact ⟨cause, hcause, hresult.symm⟩

/-- What the invariant says once there is an answer. -/
theorem Inv.outcome (h : Inv s) {answer : Option Err} (hanswer : s.answer = some answer) :
    Outcome s answer := by
  obtain ⟨rfl, hservices, err₃, result₃, h₃⟩ := h.answered answer hanswer
  obtain ⟨err₁, result₁, h₁⟩ := hservices .indexer
  obtain ⟨err₂, result₂, h₂⟩ := hservices .server
  have hcalled : s.closer ≠ .waiting := fun hf => by cases h₃.symm.trans hf
  have hclean : s.err = none → result₁ = none ∧ result₂ = none ∧ result₃ = none := by
    intro herr
    obtain ⟨hv, hc⟩ := h.clean herr
    have hi := hv .indexer
    have hs := hv .server
    rw [h₁] at hi
    rw [h₂] at hs
    rw [h₃] at hc
    exact ⟨hi, hs, hc⟩
  have hfirst : ∀ e, s.err = some e → result₁ = some e ∨ result₂ = some e ∨
      result₃ = some e ∧ s.ctx ≠ none := by
    intro e he
    rcases h.first e he with ⟨v, hv⟩ | ⟨hc, hctx⟩
    · cases v with
      | indexer =>
        rw [h₁] at hv
        exact Or.inl hv
      | server =>
        rw [h₂] at hv
        exact Or.inr (Or.inl hv)
    · rw [h₃] at hc
      exact Or.inr (Or.inr ⟨hc, hctx⟩)
  refine ⟨⟨err₁, err₂, err₃, result₁, result₂, result₃, h₁, h₂, h₃, ⟨hclean, ?_⟩, hfirst, ?_⟩,
    (h.called hcalled).1⟩
  · rintro ⟨rfl, rfl, rfl⟩
    cases herr : s.err with
    | none => rfl
    | some e =>
      rcases hfirst e herr with hnone | hnone | ⟨hnone, -⟩ <;> cases hnone
  · intro herr
    obtain ⟨rfl, rfl, rfl⟩ := hclean herr
    obtain ⟨cause, hctx, hindexer⟩ := h.ctx_of_result herr h₁ hcalled
    obtain ⟨_, -, hserver⟩ := h.ctx_of_result herr h₂ hcalled
    obtain ⟨cause', hcause', hrun⟩ := indexerResult_eq_none_iff.1 hindexer
    cases hcause'
    exact ⟨cause, hctx, hrun, (serverResult_eq_none_iff.1 hserver).2,
      shutdownResult_eq_none_iff.1 (h.closer err₃ none h₃).symm⟩

/-- **The services end together.** In every interleaving, `Shutdown` is
called at most once and not before the group's context has ended; and when
`runServices` returns, it returns as `Outcome` says. -/
theorem Reachable.end_together (h : Reachable s) :
    s.shutdowns ≤ 1 ∧ (s.shutdowns = 1 → s.groupCtx ≠ none) ∧
      ∀ answer, s.answer = some answer → Outcome s answer := by
  have hinv := h.inv
  by_cases hwaiting : s.closer = .waiting
  · have hzero := hinv.waiting hwaiting
    refine ⟨by omega, fun hone => ?_, fun answer => hinv.outcome⟩
    omega
  · obtain ⟨hone, hgroup⟩ := hinv.called hwaiting
    exact ⟨by omega, fun _ => hgroup, fun answer => hinv.outcome⟩

/-! `Run` returns nil although nobody asked it to, and its goroutine has
made an error of that when the server finds that it cannot listen. -/

/-- What `ListenAndServe` returns. -/
def bindErr : Option Err := some (.new "listen tcp :8080: bind: address already in use")

theorem end_together_outrun :
    ∃ s, Reachable s ∧ (s.service .indexer).result = some (.new "indexer stopped unexpectedly") ∧
      s.answer = some (serverResult none bindErr) ∧ Outcome s (serverResult none bindErr) := by
  have hlooked : Reachable _ :=
    .tail (.tail .refl (.returns .indexer none rfl)) (.decides .indexer rfl)
  -- the server's error is reported first, although the indexer failed first
  have hbound : Reachable _ :=
    .tail (.tail (.tail hlooked (.returns .server bindErr rfl)) (.decides .server rfl))
      (.ends .server rfl)
  have hclosed : Reachable _ :=
    .tail (.tail (.tail (.tail hbound (.ends .indexer rfl))
      (.shutdown rfl fun h => by cases h)) (.shutdownReturns none rfl)) (.closes rfl)
  have hend : Reachable _ := .tail hclosed (.wait (fun v => ?_) ⟨none, none, rfl⟩ rfl)
  · exact ⟨_, hend, rfl, rfl, hend.end_together.2.2 _ rfl⟩
  · cases v with
    | indexer => exact ⟨none, _, rfl⟩
    | server => exact ⟨bindErr, _, rfl⟩

/-! ## The way to the end -/

/-- A step for which no call has to return and which nobody outside has to
bring about. -/
structure Own (s s' : State) : Prop where
  step : Step s s'
  ctx : s'.ctx = s.ctx
  service : ∀ v, s.service v = .running → s'.service v = .running
  closer : s.closer = .shuttingDown → s'.closer = .shuttingDown

/-- A call has not returned that has been told to: `Run` by the end of the
group's context, `ListenAndServe` by `Shutdown`, or `Shutdown` itself. -/
def Awaits (s : State) : Prop :=
  (s.groupCtx ≠ none ∧ s.service .indexer = .running) ∨
    (s.closer ≠ .waiting ∧ s.service .server = .running) ∨ s.closer = .shuttingDown

/-- The caller's context has ended, or a service has returned. -/
def Stopping (s : State) : Prop := s.ctx ≠ none ∨ ∃ v, s.service v ≠ .running

theorem service_report (s : State) (result : Option Err) :
    (s.report result).service = s.service := by
  rcases report_cases s result with ⟨heq, -⟩ | ⟨e, -, -, heq⟩ <;> rw [heq]

theorem closer_report (s : State) (result : Option Err) :
    (s.report result).closer = s.closer := by
  rcases report_cases s result with ⟨heq, -⟩ | ⟨e, -, -, heq⟩ <;> rw [heq]

theorem ctx_report (s : State) (result : Option Err) : (s.report result).ctx = s.ctx := by
  rcases report_cases s result with ⟨heq, -⟩ | ⟨e, -, -, heq⟩ <;> rw [heq]

/-- The goroutine of a service that has returned goes on by itself. -/
theorem exists_own_service {v : Service} (hv : ∀ err result, s.service v ≠ .finished err result)
    (hreturned : s.service v ≠ .running) : ∃ s', Own s s' := by
  have hothers : ∀ (g : Goroutine) (v' : Service), s.service v' = .running →
      Function.update s.service v g v' = .running := by
    intro g v' hrunning
    have hne : v' ≠ v := by
      rintro rfl
      exact hreturned hrunning
    exact (Function.update_of_ne hne ..).trans hrunning
  cases hat : s.service v with
  | running => exact absurd hat hreturned
  | returned err => exact ⟨_, .decides v hat, rfl, hothers _, id⟩
  | decided err result =>
    refine ⟨_, .ends v hat, ctx_report _ _, ?_, ?_⟩
    · rw [service_report]
      exact hothers _
    · rw [closer_report]
      exact id
  | finished err result => exact absurd hat (hv err result)

/-- Nobody ends without the group's context. -/
theorem Inv.groupCtx_of_finished (h : Inv s) {v : Service} {err result : Option Err}
    (hv : s.service v = .finished err result) : s.groupCtx ≠ none := by
  intro hgroup
  have herr : s.err = none := by
    by_contra hne
    exact h.failed hne hgroup
  have hresult := (h.clean herr).1 v
  rw [hv] at hresult
  cases hresult
  obtain ⟨groupCtx, hseen, hnone⟩ := h.service v err none (Or.inr hv)
  have hctx : groupCtx = none := hseen.elim id fun heq => heq.trans hgroup
  subst hctx
  exact result_ne_none_of_groupCtx_none v err hnone.symm

/-- Before `runServices` returns, somebody can move on or a call is
awaited. -/
theorem Inv.exists_own (h : Inv s) (hanswer : s.answer = none) (hstopping : Stopping s) :
    Awaits s ∨ ∃ s', Own s s' := by
  cases hcloser : s.closer with
  | shuttingDown => exact Or.inl (Or.inr (Or.inr hcloser))
  | returned err =>
    refine Or.inr ⟨_, .closes hcloser, ctx_report _ _, ?_, fun hat => ?_⟩
    · rw [service_report]
      exact fun _ => id
    · cases hcloser.symm.trans hat
  | waiting =>
    by_cases hgroup : s.groupCtx = none
    · -- the end has not reached the group yet
      rcases hstopping with hctx | ⟨v, hv⟩
      · obtain ⟨cause, hcause⟩ := Option.ne_none_iff_exists'.1 hctx
        exact Or.inr ⟨_, .propagate hcause hgroup, rfl, fun _ => id, id⟩
      · exact Or.inr (exists_own_service
          (fun err result hfinished => h.groupCtx_of_finished hfinished hgroup) hv)
    · refine Or.inr ⟨_, .shutdown hcloser hgroup, rfl, fun _ => id, fun hat => ?_⟩
      cases hcloser.symm.trans hat
  | finished err result =>
    have hcalled : s.closer ≠ .waiting := fun hf => by cases hcloser.symm.trans hf
    by_cases hall : ∀ v, ∃ err result, s.service v = .finished err result
    · exact Or.inr ⟨_, .wait hall ⟨err, result, hcloser⟩ hanswer, rfl, fun _ => id, id⟩
    · rw [not_forall] at hall
      obtain ⟨v, hv⟩ := hall
      by_cases hrunning : s.service v = .running
      · cases v with
        | indexer => exact Or.inl (Or.inl ⟨(h.called hcalled).2, hrunning⟩)
        | server => exact Or.inl (Or.inr (Or.inl ⟨hcalled, hrunning⟩))
      · exact Or.inr (exists_own_service (fun err result hf => hv ⟨err, result, hf⟩) hrunning)

theorem ctx_of_step (hstep : Step s s') (h : s.ctx ≠ none) : s'.ctx ≠ none := by
  cases hstep with
  | stop cause hctx => exact Option.some_ne_none _
  | ends v hv =>
    rw [ctx_report]
    exact h
  | closes hcloser =>
    rw [ctx_report]
    exact h
  | _ => exact h

/-- A service that has returned is not called again. -/
theorem service_of_step {v : Service} (hstep : Step s s') (h : s.service v ≠ .running) :
    s'.service v ≠ .running := by
  have hupdate : ∀ (v' : Service) (g : Goroutine), g ≠ .running →
      Function.update s.service v' g v ≠ .running := by
    intro v' g hg
    by_cases hv : v = v'
    · subst hv
      rw [Function.update_self]
      exact hg
    · rw [Function.update_of_ne hv]
      exact h
  cases hstep with
  | returns v' err hv => exact hupdate v' _ fun hg => by cases hg
  | decides v' hv => exact hupdate v' _ fun hg => by cases hg
  | ends v' hv =>
    rw [service_report]
    exact hupdate v' _ fun hg => by cases hg
  | closes hcloser =>
    rw [service_report]
    exact h
  | _ => exact h

/-- Once it is stopping, the group goes on to. -/
theorem Stopping.step (h : Stopping s) (hstep : Step s s') : Stopping s' :=
  h.imp (ctx_of_step hstep) fun hservice =>
    hservice.imp fun _ hv => service_of_step hstep hv

/-- How many steps a goroutine has left. -/
def Goroutine.weight : Goroutine → ℕ
  | .running => 3
  | .returned _ => 2
  | .decided _ _ => 1
  | .finished _ _ => 0

def Closer.weight : Closer → ℕ
  | .waiting => 3
  | .shuttingDown => 2
  | .returned _ => 1
  | .finished _ _ => 0

def State.weight (s : State) : ℕ :=
  (if s.ctx = none then 1 else 0) + (if s.groupCtx = none then 1 else 0) +
    (s.service .indexer).weight + (s.service .server).weight + s.closer.weight +
    if s.answer = none then 1 else 0

theorem weight_report_le (s : State) (result : Option Err) : (s.report result).weight ≤ s.weight := by
  rcases report_cases s result with ⟨heq, -⟩ | ⟨e, -, -, heq⟩
  · rw [heq]
  · rw [heq]
    simp only [State.weight, or_canceled_ne_none, if_false]
    omega

/-- A goroutine that goes on has less to do. -/
theorem weight_update_lt {v : Service} {g : Goroutine} (hg : g.weight < (s.service v).weight) :
    ({ s with service := Function.update s.service v g } : State).weight < s.weight := by
  simp only [State.weight]
  cases v with
  | indexer =>
    rw [Function.update_self, Function.update_of_ne (by decide)]
    omega
  | server =>
    rw [Function.update_self, Function.update_of_ne (by decide)]
    omega

/-- **Every step leaves less to do.** -/
theorem lowers_weight : Steps.Lowers Step State.weight := by
  intro s s' hstep
  cases hstep with
  | stop cause hctx => simp [State.weight, hctx]
  | propagate hctx hgroup => simp [State.weight, hgroup]
  | returns v err hv =>
    refine weight_update_lt ?_
    rw [hv]
    exact Nat.lt_succ_self 2
  | decides v hv =>
    refine weight_update_lt ?_
    rw [hv]
    exact Nat.lt_succ_self 1
  | ends v hv =>
    refine (weight_report_le _ _).trans_lt (weight_update_lt ?_)
    rw [hv]
    exact Nat.zero_lt_one
  | shutdown hcloser hgroup => simp [State.weight, hcloser, Closer.weight]
  | shutdownReturns err hcloser => simp [State.weight, hcloser, Closer.weight]
  | closes hcloser =>
    refine (weight_report_le _ _).trans_lt ?_
    simp [State.weight, hcloser, Closer.weight]
  | wait hservices hcloser hanswer =>
    simp only [State.weight, or_canceled_ne_none, hanswer, if_false, if_true,
      Option.some_ne_none]
    omega

theorem weight_le (s : State) : s.weight ≤ 12 := by
  have hgoroutine : ∀ g : Goroutine, g.weight ≤ 3 := by
    intro g
    cases g <;> simp [Goroutine.weight]
  have hcloser : ∀ c : Closer, c.weight ≤ 3 := by
    intro c
    cases c <;> simp [Closer.weight]
  have h₁ := hgoroutine (s.service .indexer)
  have h₂ := hgoroutine (s.service .server)
  have h₃ := hcloser s.closer
  simp only [State.weight]
  split <;> split <;> split <;> omega

/-- **The services come to their end.** Once the caller's context has
ended or a service has returned, no schedule goes on for ever; and wherever
one has come to without a return of `runServices`, some goroutine can move
on by itself, or a call is awaited that has been told to return. So the
function returns under every schedule in which these calls do. -/
theorem Reachable.come_to_end (h : Reachable s) (hstopping : Stopping s) :
    (∀ (n : ℕ) (run : ℕ → State), run 0 = s → (∀ i < n, Step (run i) (run (i + 1))) → n ≤ 12) ∧
      ∀ s', ReflTransGen Step s s' → s'.answer = none → Awaits s' ∨ ∃ s'', Own s' s'' := by
  refine ⟨fun n run hzero hrun => (lowers_weight.length_le hrun).trans (weight_le _),
    fun s' hrun hanswer => ?_⟩
  have hinv : Inv s' := Reachable.inv (ReflTransGen.trans h hrun)
  exact hinv.exists_own hanswer (Steps.invariant hrun hstopping Stopping.step)

/-- The server cannot listen: its goroutine goes on. -/
theorem come_to_end_unbound :
    ∃ s, Reachable s ∧ s.service .server = .returned bindErr ∧ ∃ s', Own s s' := by
  have hreturned : Reachable _ := .tail .refl (.returns .server bindErr rfl)
  refine ⟨_, hreturned, rfl, ((hreturned.come_to_end (Or.inr ⟨.server, fun h => ?_⟩)).2 _ .refl
    rfl).resolve_left ?_⟩
  · cases h
  · rintro (⟨hgroup, -⟩ | ⟨hcalled, -⟩ | hcloser)
    · exact hgroup rfl
    · exact hcalled rfl
    · cases hcloser

/-! ## A stop that succeeds -/

/-- A step in which nothing goes wrong. A service returns only when it is
told to, the indexer by the group's context and the server by `Shutdown`;
and what it returns, or the shutdown, is what its goroutine takes for a
proper end. -/
structure Proper (s s' : State) : Prop where
  step : Step s s'
  told : ∀ v err, s.service v = .running → s'.service v = .returned err →
    (v = .server → s.closer ≠ .waiting) ∧ v.result s.groupCtx err = none
  closed : ∀ err, s.closer = .shuttingDown → s'.closer = .returned err → shutdownResult err = none

/-- A step of the process itself is a proper one. -/
theorem Own.proper (h : Own s s') : Proper s s' where
  step := h.step
  told v err hrunning hreturned := by cases (h.service v hrunning).symm.trans hreturned
  closed err hat hreturned := by cases (h.closer hat).symm.trans hreturned

/-- What a service returns when it has been told to stop. -/
def Service.end : Service → Option Err
  | .indexer => none
  | .server => some ⟨[.serverClosed], "http: Server closed"⟩

/-- A service that is stopped and ends as it should has no error. -/
theorem result_end {groupCtx : Context} (h : groupCtx ≠ none) (v : Service) :
    v.result groupCtx v.end = none := by
  cases v with
  | indexer =>
    obtain ⟨cause, hcause⟩ := Option.ne_none_iff_exists'.1 h
    exact indexerResult_eq_none_iff.2 ⟨cause, hcause, Or.inl rfl⟩
  | server => exact serverResult_eq_none_iff.2 ⟨h, _, rfl, List.mem_singleton_self _⟩

/-- A service that is told to return can do so properly. -/
theorem proper_returns {v : Service} (hrunning : s.service v = .running)
    (hgroup : s.groupCtx ≠ none) (hserver : v = .server → s.closer ≠ .waiting) :
    Proper s { s with service := Function.update s.service v (.returned v.end) } where
  step := .returns v v.end hrunning
  told v' err hrunning' hreturned := by
    by_cases hne : v' = v
    · subst hne
      cases (Function.update_self ..).symm.trans hreturned
      exact ⟨hserver, result_end hgroup v'⟩
    · cases hrunning'.symm.trans ((Function.update_of_ne hne ..).symm.trans hreturned)
  closed err hat hreturned := by cases hat.symm.trans hreturned

/-- **Nothing hangs** on the way to the end: until there is an answer there
is a proper step. -/
theorem Inv.exists_proper (h : Inv s) (hanswer : s.answer = none) (hstopping : Stopping s) :
    ∃ s', Proper s s' := by
  rcases h.exists_own hanswer hstopping with (⟨hgroup, hrunning⟩ | ⟨hcalled, hrunning⟩ | hat) | ⟨s', hs'⟩
  · exact ⟨_, proper_returns hrunning hgroup fun hv => by cases hv⟩
  · exact ⟨_, proper_returns hrunning (h.called hcalled).2 fun _ => hcalled⟩
  · refine ⟨_, .shutdownReturns none hat, fun v err hrunning hreturned => ?_, ?_⟩
    · cases hrunning.symm.trans hreturned
    · rintro _ - ⟨⟩
      rfl
  · exact ⟨s', hs'.proper⟩

/-- Nothing has gone wrong, and nothing that is on its way will. -/
structure Smooth (s : State) : Prop where
  err : s.err = none
  pending : ∀ v err, s.service v = .returned err → v.result s.groupCtx err = none
  decided : ∀ v err result, s.service v = .decided err result → result = none
  closing : ∀ err, s.closer = .returned err → shutdownResult err = none
  answer : ∀ a, s.answer = some a → a = none

theorem smooth_init : Smooth .init := by
  constructor
  case err => rfl
  all_goals
    intros
    contradiction

/-- The goroutine of a service moves on without an error. -/
theorem Smooth.update (h : Smooth s) {v : Service} {g : Goroutine}
    (hreturned : ∀ err, g = .returned err → v.result s.groupCtx err = none)
    (hdecided : ∀ err result, g = .decided err result → result = none) :
    Smooth { s with service := Function.update s.service v g } := by
  refine ⟨h.err, fun v' err hv' => ?_, fun v' err result hv' => ?_, h.closing, h.answer⟩
  all_goals by_cases hne : v' = v
  · subst hne
    exact hreturned err ((Function.update_self ..).symm.trans hv')
  · exact h.pending v' err ((Function.update_of_ne hne ..).symm.trans hv')
  · subst hne
    exact hdecided err result ((Function.update_self ..).symm.trans hv')
  · exact h.decided v' err result ((Function.update_of_ne hne ..).symm.trans hv')

theorem Smooth.step (h : Smooth s) (hproper : Proper s s') : Smooth s' := by
  cases hproper.step with
  | stop cause hctx => exact ⟨h.err, h.pending, h.decided, h.closing, h.answer⟩
  | propagate hctx hgroup =>
    refine ⟨h.err, fun v err hv => ?_, h.decided, h.closing, h.answer⟩
    have hresult := h.pending v err hv
    rw [hgroup] at hresult
    exact absurd hresult (result_ne_none_of_groupCtx_none v err)
  | returns v err hv =>
    refine h.update (fun err' herr' => ?_) fun err' result' hf => by cases hf
    cases herr'
    exact (hproper.told v err hv (Function.update_self ..)).2
  | @decides v err hv =>
    refine h.update (fun err' hf => by cases hf) fun err' result' hdecided => ?_
    cases hdecided
    exact h.pending v err hv
  | @ends v err result hv =>
    obtain rfl := h.decided v err result hv
    exact h.update (fun err' hf => by cases hf) fun err' result' hf => by cases hf
  | shutdown _ _ => exact ⟨h.err, h.pending, h.decided, (fun _ hf => by cases hf), h.answer⟩
  | shutdownReturns err hat =>
    refine ⟨h.err, h.pending, h.decided, fun err' herr' => ?_, h.answer⟩
    cases herr'
    exact hproper.closed err hat rfl
  | closes hat =>
    rw [h.closing _ hat]
    exact ⟨h.err, h.pending, h.decided, (fun _ hf => by cases hf), h.answer⟩
  | wait hservices _ _ =>
    refine ⟨h.err, fun v err hv => ?_, h.decided, h.closing, fun a ha => ?_⟩
    · obtain ⟨_, _, hfinished⟩ := hservices v
      cases hfinished.symm.trans hv
    · cases ha
      exact h.err

theorem reachable_of_proper (h : ReflTransGen Proper .init s) : Reachable s :=
  ReflTransGen.mono (fun _ _ => Proper.step) _ _ h

/-- From a state whose caller has asked to stop, proper steps lead to the
end. -/
theorem exists_answer (h : ReflTransGen Proper .init s) (hctx : s.ctx ≠ none) :
    ∃ s' a, ReflTransGen Proper s s' ∧ s'.answer = some a := by
  induction hn : s.weight using Nat.strong_induction_on generalizing s with
  | h n ih =>
    subst hn
    cases hanswer : s.answer with
    | some a => exact ⟨s, a, .refl, hanswer⟩
    | none =>
      obtain ⟨next, hnext⟩ := (reachable_of_proper h).inv.exists_proper hanswer (Or.inl hctx)
      obtain ⟨s', a, hrun, ha⟩ := ih next.weight (lowers_weight hnext.step) (h.tail hnext)
        (ctx_of_step hnext.step hctx) rfl
      exact ⟨s', a, .head hnext hrun, ha⟩

/-- **A stop that succeeds.** If every step is proper, `runServices`
returns nothing before the caller's context has ended, and then nil; and
it can always be brought to return. -/
theorem graceful_stop (h : ReflTransGen Proper .init s) :
    (∀ answer, s.answer = some answer → s.ctx ≠ none ∧ answer = none) ∧
      (s.ctx ≠ none → ∃ s', ReflTransGen Proper s s' ∧ s'.answer = some none) := by
  have hsmooth : ∀ {s : State}, ReflTransGen Proper .init s → Smooth s := fun hrun =>
    Steps.invariant hrun smooth_init Smooth.step
  refine ⟨fun answer hanswer => ?_, fun hctx => ?_⟩
  · have hnone := (hsmooth h).answer answer hanswer
    subst hnone
    obtain ⟨_, _, _, _, _, _, -, -, -, -, -, hend⟩ :=
      ((reachable_of_proper h).inv.outcome hanswer).finished
    obtain ⟨cause, hcause, -⟩ := hend rfl
    rw [hcause]
    exact ⟨Option.some_ne_none _, rfl⟩
  · obtain ⟨s', a, hrun, ha⟩ := exists_answer h hctx
    have hnone := (hsmooth (h.trans hrun)).answer a ha
    subst hnone
    exact ⟨s', hrun, ha⟩

theorem graceful_stop_interrupted :
    ∃ s', ReflTransGen Proper { State.init with ctx := some .canceled } s' ∧
      s'.answer = some none :=
  (graceful_stop (.single ⟨.stop .canceled rfl, (fun _ _ _ hf => by cases hf),
    fun _ hf => by cases hf⟩)).2 (Option.some_ne_none _)

end Runtime

end EthIndexer
