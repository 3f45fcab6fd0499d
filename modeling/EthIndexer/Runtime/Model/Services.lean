import EthIndexer.Domain
import Mathlib.Logic.Function.Basic
import Mathlib.Logic.Relation
/-!
# The services of the process

`runServices` as the goroutines of its group. One runs the indexer, one
serves HTTP, and the third waits for the end of the group's context and
shuts the server down; the main goroutine waits for the three. The first
of them that returns an error ends the group's context, and so does the
end of the caller's context.

A state is where each goroutine stands and what they share, and `Step` is
one step of one of them. What `Run`, `ListenAndServe` and `Shutdown`
return is left to the step, and so are the moments at which they return
and at which the caller's context ends. A goroutine looks at the group's
context in one step and returns to the group in another, so that the
others can move in between.

The group itself is not of this repository. `State.report` and the step
`wait` are what the documentation of `errgroup` says: the first error that
a goroutine returns ends the group's context, and `Wait` returns it once
all goroutines have returned.
-/

namespace EthIndexer

namespace Runtime

/-- The errors that `errors.Is` is asked for. -/
inductive Known
  | context (err : ContextError)
  /-- `http.ErrServerClosed`. -/
  | serverClosed
  deriving DecidableEq

/-- An error: what it wraps of the known ones, and its text. -/
structure Err where
  wraps : List Known
  text : String
  deriving DecidableEq

namespace Err

/-- `errors.New`. -/
def new (text : String) : Err := ⟨[], text⟩

/-- `fmt.Errorf("...: %w", err)`. -/
def wrap (context : String) (err : Err) : Err := ⟨err.wraps, context ++ ": " ++ err.text⟩

/-- `errors.Is`. A nil error is no other. -/
def Is (err : Option Err) (known : Known) : Prop := ∃ e ∈ err, known ∈ e.wraps

instance (err : Option Err) (known : Known) : Decidable (Is err known) :=
  inferInstanceAs (Decidable (∃ e ∈ err, known ∈ e.wraps))

end Err

/-! ## What a goroutine returns -/

/-- The first goroutine, after `indexer.Run`. -/
def indexerResult (groupCtx : Context) (err : Option Err) : Option Err :=
  if ∃ cause ∈ groupCtx, err = none ∨ Err.Is err (.context cause) then none
  else match err with
    | none => some (.new "indexer stopped unexpectedly")
    | some err => some (err.wrap "run indexer")

/-- The second goroutine, after `httpServer.ListenAndServe`. -/
def serverResult (groupCtx : Context) (err : Option Err) : Option Err :=
  if groupCtx ≠ none ∧ Err.Is err .serverClosed then none
  else if err = none ∨ Err.Is err .serverClosed then
    some (.new "HTTP server stopped unexpectedly")
  else err.map (Err.wrap "serve HTTP")

/-- The third goroutine, after `httpServer.Shutdown`. -/
def shutdownResult (err : Option Err) : Option Err :=
  if err ≠ none ∧ ¬ Err.Is err .serverClosed then err.map (Err.wrap "shut down HTTP server")
  else none

/-! ## Where a goroutine stands -/

/-- The goroutines with a service to run. -/
inductive Service
  | indexer
  | server
  deriving DecidableEq

/-- What its goroutine makes of the end of a service. -/
def Service.result : Service → Context → Option Err → Option Err
  | .indexer => indexerResult
  | .server => serverResult

/-- The goroutine of a service: in the service's call; after it, with what
the call has returned; after its look at the group's context, with what it
is about to return itself; and at its end. -/
inductive Goroutine
  | running
  | returned (err : Option Err)
  | decided (err result : Option Err)
  | finished (err result : Option Err)
  deriving DecidableEq

/-- The goroutine that shuts the server down. -/
inductive Closer
  /-- At `<-groupCtx.Done()`. -/
  | waiting
  /-- In `httpServer.Shutdown`. -/
  | shuttingDown
  | returned (err : Option Err)
  | finished (err result : Option Err)
  deriving DecidableEq

structure State where
  /-- The caller's context. -/
  ctx : Context
  groupCtx : Context
  service : Service → Goroutine
  closer : Closer
  /-- The group's error. -/
  err : Option Err
  /-- How often `Shutdown` has been called. Nothing reads it. -/
  shutdowns : ℕ
  /-- What `runServices` has returned. -/
  answer : Option (Option Err)

/-- A goroutine returns to its group: the first error is kept, and ends
the group's context. -/
def State.report (s : State) : Option Err → State
  | none => s
  | some e =>
    match s.err with
    | some _ => s
    | none => { s with err := some e, groupCtx := s.groupCtx.or (some .canceled) }

/-! ## Steps -/

/-- **One step.** -/
inductive Step : State → State → Prop
  /-- The caller's context ends. -/
  | stop {s : State} (cause : ContextError) (h : s.ctx = none) : Step s { s with ctx := some cause }
  /-- Its end reaches the group's context. -/
  | propagate {s : State} {cause : ContextError} (h : s.ctx = some cause)
      (hgroup : s.groupCtx = none) : Step s { s with groupCtx := some cause }
  /-- `Run` or `ListenAndServe` returns. -/
  | returns {s : State} (v : Service) (err : Option Err) (h : s.service v = .running) :
      Step s { s with service := Function.update s.service v (.returned err) }
  /-- Its goroutine looks at the group's context. -/
  | decides {s : State} (v : Service) {err : Option Err} (h : s.service v = .returned err) :
      Step s { s with
        service := Function.update s.service v (.decided err (v.result s.groupCtx err)) }
  | ends {s : State} (v : Service) {err result : Option Err}
      (h : s.service v = .decided err result) :
      Step s ({ s with service := Function.update s.service v (.finished err result) }.report
        result)
  | shutdown {s : State} (h : s.closer = .waiting) (hgroup : s.groupCtx ≠ none) :
      Step s { s with closer := .shuttingDown, shutdowns := s.shutdowns + 1 }
  | shutdownReturns {s : State} (err : Option Err) (h : s.closer = .shuttingDown) :
      Step s { s with closer := .returned err }
  | closes {s : State} {err : Option Err} (h : s.closer = .returned err) :
      Step s ({ s with closer := .finished err (shutdownResult err) }.report (shutdownResult err))
  /-- `group.Wait()` returns. -/
  | wait {s : State} (hservices : ∀ v, ∃ err result, s.service v = .finished err result)
      (hcloser : ∃ err result, s.closer = .finished err result) (hanswer : s.answer = none) :
      Step s { s with groupCtx := s.groupCtx.or (some .canceled), answer := some s.err }

/-- The group is started. -/
def State.init : State where
  ctx := none
  groupCtx := none
  service _ := .running
  closer := .waiting
  err := none
  shutdowns := 0
  answer := none

/-- What any interleaving comes to. -/
def Reachable (s : State) : Prop := Relation.ReflTransGen Step .init s

end Runtime

end EthIndexer
