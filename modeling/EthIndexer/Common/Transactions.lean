import EthIndexer.Common.Trace
/-!
# Transactions on a shared database

Clients send a database one command at a time, and their commands
interleave freely. A repeatable read transaction sees the contents its
first query found. A read committed transaction sees, at each statement,
what is committed by then, under its own changes; where another client
has committed since its own first change, nothing is said about what it
sees. One lock is shared by all clients and is held to the end of the
transaction that took it.

A call is orderly (`Orderly`) when it is one query, or one repeatable
read transaction of queries, or one read committed transaction that takes
the lock before anything else.
-/

namespace EthIndexer

/-- What a database does with contents: a query reads them, an update
makes new ones. -/
structure Database (Q : Type) (A : Q → Type) (U E σ : Type) where
  select : (q : Q) → σ → Except E (A q)
  execute : U → σ → Except E σ

namespace Database

inductive Isolation
  | readCommitted
  | repeatableRead
  deriving DecidableEq

/-- A command of a client. A command that the database does not carry out
has the error it is answered with; of a commit it is said, in addition,
whether it took place in spite of the error. -/
inductive Command (Q U E : Type)
  | begin (isolation : Isolation) (fault : Option E)
  | lock (fault : Option E)
  | query (q : Q)
  | execute (u : U)
  | commit (fault : Option (E × Bool))
  | rollback

/-- The answer to a command. -/
abbrev Reply {Q : Type} (A : Q → Type) (U E : Type) : Command Q U E → Type
  | .begin _ _ => Except E Unit
  | .lock _ => Except E Unit
  | .query q => Except E (A q)
  | .execute _ => Except E Unit
  | .commit _ => Except E Unit
  | .rollback => Unit

/-- The answer of a command that reads nothing. -/
def outcome {E : Type} : Option E → Except E Unit
  | none => .ok ()
  | some e => .error e

/-- Whether a commit took place. -/
def Applied {E : Type} : Option (E × Bool) → Bool
  | none => true
  | some (_, applied) => applied

variable {Q : Type} {A : Q → Type} {U E ε α σ : Type}

/-! ## One client alone -/

/-- A database with one client: its contents, and what the client's open
transaction has made of them. -/
structure Solo (σ : Type) where
  contents : σ
  view : Option σ

/-- What the client sees. -/
def Solo.seen (s : Solo σ) : σ := s.view.getD s.contents

@[simp] theorem Solo.seen_some (s t : σ) : (Solo.mk s (some t)).seen = t := rfl

/-- The client writes: into its transaction, or at once if it has none. -/
def Solo.write (s : Solo σ) (t : σ) : Solo σ :=
  match s.view with
  | none => { s with contents := t }
  | some _ => { s with view := some t }

variable (db : Database Q A U E σ)

/-- Answer a command of the only client. -/
def solo : (c : Command Q U E) → Solo σ → Reply A U E c × Solo σ
  | .begin _ none, s => (.ok (), { s with view := some s.contents })
  | .begin _ (some e), s => (.error e, s)
  | .lock fault, s => (outcome fault, s)
  | .query q, s => (db.select q s.seen, s)
  | .execute u, s =>
    match db.execute u s.seen with
    | .error e => (.error e, s)
    | .ok t => (.ok (), s.write t)
  | .commit fault, s =>
    (outcome (fault.map Prod.fst), ⟨if Applied fault then s.seen else s.contents, none⟩)
  | .rollback, s => ((), ⟨s.contents, none⟩)

/-- A call, as a program of commands. -/
abbrev Program (A : Q → Type) (U E ε α : Type) := Session (Command Q U E) (Reply A U E) ε α

/-! ## Orderly calls -/

/-- How far a call has come. -/
inductive Phase
  | start
  | reading
  | opened
  | locked
  | failed
  | done

/-- **An orderly call.** It is one query, or a transaction of queries
under repeatable read, or a transaction under read committed that takes
the lock first. After an error, a transaction is rolled back and nothing
else. -/
def Orderly : Phase → Program A U E ε α → Prop
  | .start, .ret _ => True
  | .start, .call (.query _) k => ∀ x, Orderly .done (k x)
  | .start, .call (.begin .repeatableRead _) k =>
    Orderly .reading (k (.ok ())) ∧ ∀ e, Orderly .done (k (.error e))
  | .start, .call (.begin .readCommitted _) k =>
    Orderly .opened (k (.ok ())) ∧ ∀ e, Orderly .done (k (.error e))
  | .reading, .call (.query _) k =>
    (∀ a, Orderly .reading (k (.ok a))) ∧ ∀ e, Orderly .failed (k (.error e))
  | .reading, .call (.commit _) k => ∀ x, Orderly .done (k x)
  | .reading, .call .rollback k => Orderly .done (k ())
  | .opened, .call (.lock _) k =>
    Orderly .locked (k (.ok ())) ∧ ∀ e, Orderly .failed (k (.error e))
  | .locked, .call (.query _) k =>
    (∀ a, Orderly .locked (k (.ok a))) ∧ ∀ e, Orderly .failed (k (.error e))
  | .locked, .call (.execute _) k =>
    Orderly .locked (k (.ok ())) ∧ ∀ e, Orderly .failed (k (.error e))
  | .locked, .call (.commit _) k => ∀ x, Orderly .done (k x)
  | .locked, .call .rollback k => Orderly .done (k ())
  | .failed, .call .rollback k => Orderly .done (k ())
  | .done, .ret _ => True
  | _, _ => False

theorem Orderly.eq_ret {p : Program A U E ε α} (h : Orderly .done p) : ∃ x, p = .ret x := by
  cases p with
  | ret x => exact ⟨x, rfl⟩
  | call c k => cases c <;> exact h.elim

/-- What follows the last command does not matter. -/
theorem Orderly.bind_ret {β : Type} {phase : Phase} {p : Program A U E ε α}
    {f : α → Program A U E ε β} (h : Orderly phase p) (hf : ∀ a, ∃ x, f a = .ret x) :
    Orderly phase (p >>= f) := by
  induction p generalizing phase with
  | ret x =>
    obtain ⟨y, hy⟩ : ∃ y, (Session.ret x : Program A U E ε α) >>= f = .ret y := by
      cases x with
      | error e => exact ⟨.error e, rfl⟩
      | ok a => exact hf a
    rw [hy]
    cases phase with
    | start => trivial
    | done => trivial
    | reading | opened | locked | failed => exact h.elim
  | call cmd k ih =>
    cases cmd with
    | begin isolation fault =>
      cases phase with
      | start => cases isolation <;> exact ⟨ih _ h.1, fun e => ih _ (h.2 e)⟩
      | reading | opened | locked | failed | done => exact h.elim
    | lock fault =>
      cases phase with
      | opened => exact ⟨ih _ h.1, fun e => ih _ (h.2 e)⟩
      | start | reading | locked | failed | done => exact h.elim
    | query q =>
      cases phase with
      | start => exact fun x => ih x (h x)
      | reading | locked => exact ⟨fun a => ih _ (h.1 a), fun e => ih _ (h.2 e)⟩
      | opened | failed | done => exact h.elim
    | execute u =>
      cases phase with
      | locked => exact ⟨ih _ h.1, fun e => ih _ (h.2 e)⟩
      | start | reading | opened | failed | done => exact h.elim
    | commit fault =>
      cases phase with
      | reading | locked => exact fun x => ih x (h x)
      | start | opened | failed | done => exact h.elim
    | rollback =>
      cases phase with
      | reading | locked | failed => exact ih _ h
      | start | opened | done => exact h.elim

/-! ## Transactions as a client writes them -/

/-- Send a command, and give its error a context. -/
def send (cmd : Command Q U E) (reply : Reply A U E cmd → Except ε α) : Program A U E ε α :=
  Session.request cmd reply

/-- One query is orderly, whatever is made of its answer. -/
theorem orderly_query {β : Type} {q : Q} {reply : Except E (A q) → Except ε α}
    {f : α → Program A U E ε β} (hf : ∀ a, ∃ x, f a = .ret x) :
    Orderly .start (send (.query q) reply >>= f) :=
  Orderly.bind_ret (fun _ => trivial) hf

/-- How a transaction ends: what has failed is rolled back, what has
succeeded is committed. -/
def conclude (commit : Option (E × Bool)) (onCommit : E → ε) :
    Except ε α → Program A U E ε α
  | .error e => .call .rollback fun _ => .ret (.error e)
  | .ok a => .call (.commit commit) fun x => .ret ((x.mapError onCommit).map fun _ => a)

/-- **A transaction**: begin, the statements, and the end. -/
def transaction (isolation : Isolation) (begin : Option E) (onBegin : E → ε)
    (body : Program A U E ε α) (commit : Option (E × Bool)) (onCommit : E → ε) :
    Program A U E ε α := do
  send (.begin isolation begin) (Except.mapError onBegin)
  let result ← body.attempt
  conclude commit onCommit result

/-- Statements that read, and write if they may, and that end with the
first error. -/
def Body (writes : Prop) : Program A U E ε α → Prop
  | .ret _ => True
  | .call (.query _) k =>
    (∀ a, Body writes (k (.ok a))) ∧ ∀ e, ∃ e', k (.error e) = .ret (.error e')
  | .call (.execute _) k =>
    writes ∧ Body writes (k (.ok ())) ∧ ∀ e, ∃ e', k (.error e) = .ret (.error e')
  | _ => False

section Body

variable {β : Type} {writes : Prop}

theorem Body.bind {p : Program A U E ε α} {f : α → Program A U E ε β} (hp : Body writes p)
    (hf : ∀ a, Body writes (f a)) : Body writes (p >>= f) := by
  induction p with
  | ret x =>
    cases x with
    | error e => trivial
    | ok a => exact hf a
  | call cmd k ih =>
    cases cmd with
    | query q =>
      refine ⟨fun a => ih _ (hp.1 a), fun e => ?_⟩
      obtain ⟨e', he'⟩ := hp.2 e
      exact ⟨e', congrArg (Session.bind · f) he'⟩
    | execute u =>
      refine ⟨hp.1, ih _ hp.2.1, fun e => ?_⟩
      obtain ⟨e', he'⟩ := hp.2.2 e
      exact ⟨e', congrArg (Session.bind · f) he'⟩
    | begin => exact hp.elim
    | lock => exact hp.elim
    | commit => exact hp.elim
    | rollback => exact hp.elim

theorem body_lift (x : Except ε α) : Body writes (.lift x : Program A U E ε α) := trivial

theorem body_query (q : Q) (f : E → ε) :
    Body writes (send (.query q) (Except.mapError f) : Program A U E ε (A q)) :=
  ⟨fun _ => trivial, fun e => ⟨f e, rfl⟩⟩

theorem body_execute (u : U) (f : E → ε) (hwrites : writes) :
    Body writes (send (.execute u) (Except.mapError f) : Program A U E ε Unit) :=
  ⟨hwrites, trivial, fun e => ⟨f e, rfl⟩⟩

theorem orderly_conclude_failed (commit : Option (E × Bool)) (onCommit : E → ε) (e : ε) :
    Orderly .failed (conclude commit onCommit (.error e) : Program A U E ε α) := trivial

/-- The statements and the end of a transaction. -/
theorem Body.orderly {p : Program A U E ε α} (hp : Body writes p) {phase : Phase}
    (hphase : phase = .locked ∨ phase = .reading ∧ ¬ writes) (commit : Option (E × Bool))
    (onCommit : E → ε) : Orderly phase (p.attempt >>= conclude commit onCommit) := by
  induction p with
  | ret x =>
    cases x with
    | error e => rcases hphase with rfl | ⟨rfl, -⟩ <;> trivial
    | ok a => rcases hphase with rfl | ⟨rfl, -⟩ <;> exact fun _ => trivial
  | call cmd k ih =>
    -- after an error there is nothing left but to roll back
    have hfailed : ∀ x, (∃ e', k x = .ret (.error e')) →
        Orderly .failed ((k x).attempt >>= conclude commit onCommit) := by
      rintro x ⟨e', he'⟩
      rw [he']
      exact orderly_conclude_failed commit onCommit e'
    cases cmd with
    | query q =>
      have hnext := And.intro (fun a => ih _ (hp.1 a)) fun e => hfailed _ (hp.2 e)
      rcases hphase with rfl | ⟨rfl, -⟩ <;> exact hnext
    | execute u =>
      rcases hphase with rfl | ⟨rfl, hreads⟩
      · exact ⟨ih _ hp.2.1, fun e => hfailed _ (hp.2.2 e)⟩
      · exact absurd hp.1 hreads
    | begin => exact hp.elim
    | lock => exact hp.elim
    | commit => exact hp.elim
    | rollback => exact hp.elim

/-- A repeatable read transaction of queries is orderly. -/
theorem Body.orderly_transaction {p : Program A U E ε α} (hp : Body False p) (begin : Option E)
    (onBegin : E → ε) (commit : Option (E × Bool)) (onCommit : E → ε) :
    Orderly .start (transaction .repeatableRead begin onBegin p commit onCommit) :=
  ⟨hp.orderly (Or.inr ⟨rfl, id⟩) commit onCommit, fun _ => trivial⟩

/-- So is a read committed transaction that takes the lock first. -/
theorem orderly_transaction_lock {p : Unit → Program A U E ε α} (hp : ∀ u, Body True (p u))
    (begin : Option E) (onBegin : E → ε) (lock : Option E) (onLock : E → ε)
    (commit : Option (E × Bool)) (onCommit : E → ε) :
    Orderly .start (transaction .readCommitted begin onBegin
      (send (.lock lock) (Except.mapError onLock) >>= p) commit onCommit) :=
  ⟨⟨(hp ()).orderly (Or.inl rfl) commit onCommit, fun _ => trivial⟩, fun _ => trivial⟩

end Body

section Alone

variable {db : Database Q A U E σ} {isolation : Isolation} {begin : Option E} {onBegin : E → ε}
  {body : Program A U E ε α} {commit : Option (E × Bool)} {onCommit : E → ε} {s t : σ}

/-- A transaction alone, whose statements fail. -/
theorem run_transaction_of_error {e : ε}
    (hbody : body.run db.solo ⟨s, some s⟩ = (.error e, ⟨s, some t⟩)) :
    (transaction isolation none onBegin body commit onCommit).run db.solo ⟨s, none⟩ =
      (.error e, ⟨s, none⟩) := by
  change (body.attempt >>= conclude commit onCommit).run db.solo ⟨s, some s⟩ = _
  rw [Session.run_bind, Session.run_attempt, hbody]
  rfl

/-- A transaction alone, whose statements succeed. -/
theorem run_transaction_of_ok {a : α}
    (hbody : body.run db.solo ⟨s, some s⟩ = (.ok a, ⟨s, some t⟩)) :
    (transaction isolation none onBegin body commit onCommit).run db.solo ⟨s, none⟩ =
      (((outcome (commit.map Prod.fst)).mapError onCommit).map fun _ => a,
        ⟨if Applied commit then t else s, none⟩) := by
  change (body.attempt >>= conclude commit onCommit).run db.solo ⟨s, some s⟩ = _
  rw [Session.run_bind, Session.run_attempt, hbody]
  rfl

end Alone

/-! ## Many clients -/

/-- An open transaction. -/
inductive Tx (σ : Type)
  /-- Repeatable read, with the contents its first query found. -/
  | reading (snapshot : Option σ)
  /-- Read committed. Once it has changed something: how many calls had
  committed then, and the contents with its changes. -/
  | writing (written : Option (ℕ × σ))

def Tx.opening : Isolation → Tx σ
  | .readCommitted => .writing none
  | .repeatableRead => .reading none

/-- A transaction that has seen `s`. -/
def Tx.read (s : σ) : Tx σ → Tx σ
  | .reading _ => .reading (some s)
  | .writing written => .writing written

/-- A client: the call it makes, what is left of it, and how many calls
had committed when it began. -/
structure Client {Q : Type} (A : Q → Type) (U E ε α σ M : Type) where
  call : M
  rest : Program A U E ε α
  since : ℕ
  tx : Option (Tx σ)

/-- What the clients share. The log has the calls that committed a
change, oldest first. -/
structure Shared (ι σ M : Type) where
  contents : σ
  log : List (ι × M)
  holder : Option ι

variable {ι M : Type}

/-- What a transaction sees. -/
inductive Sees (d : Shared ι σ M) : Tx σ → σ → Prop
  | snapshot {s : σ} : Sees d (.reading (some s)) s
  | fresh : Sees d (.reading none) d.contents
  | committed : Sees d (.writing none) d.contents
  | own {s : σ} : Sees d (.writing (some (d.log.length, s))) s
  /-- Others have committed since: it may see anything. -/
  | mixed {n : ℕ} {s s' : σ} (h : n ≠ d.log.length) : Sees d (.writing (some (n, s))) s'

namespace Shared

/-- The transaction of client `i` ends, and its lock with it. -/
def release [DecidableEq ι] (d : Shared ι σ M) (i : ι) : Shared ι σ M :=
  { d with holder := if d.holder = some i then none else d.holder }

/-- The changes of client `i` are committed. -/
def publish (d : Shared ι σ M) (i : ι) (m : M) (s : σ) : Tx σ → Shared ι σ M
  | .writing (some _) => { d with contents := s, log := d.log ++ [(i, m)] }
  | _ => d

end Shared

/-- The database and its clients. -/
structure State {Q : Type} (ι : Type) (A : Q → Type) (U E ε α σ M : Type)
    extends Shared ι σ M where
  client : ι → Client A U E ε α σ M

/-- Client `i` goes on, and leaves this behind. -/
def State.move [DecidableEq ι] (d : State ι A U E ε α σ M) (i : ι) (shared : Shared ι σ M)
    (rest : Program A U E ε α) (tx : Option (Tx σ)) : State ι A U E ε α σ M :=
  ⟨shared, Function.update d.client i { d.client i with rest := rest, tx := tx }⟩

/-- **A command of client `i` is answered.** -/
inductive Serve [DecidableEq ι] (i : ι) (d : State ι A U E ε α σ M) : State ι A U E ε α σ M → Prop
  | begin {isolation : Isolation} {k : Except E Unit → Program A U E ε α}
      (hrest : (d.client i).rest = .call (.begin isolation none) k)
      (htx : (d.client i).tx = none) :
      Serve i d (d.move i d.toShared (k (.ok ())) (some (.opening isolation)))
  | beginFails {isolation : Isolation} {e : E} {k : Except E Unit → Program A U E ε α}
      (hrest : (d.client i).rest = .call (.begin isolation (some e)) k)
      (htx : (d.client i).tx = none) :
      Serve i d (d.move i d.toShared (k (.error e)) none)
  | lock {k : Except E Unit → Program A U E ε α} {written : Option (ℕ × σ)}
      (hrest : (d.client i).rest = .call (.lock none) k)
      (htx : (d.client i).tx = some (.writing written))
      (hfree : d.holder = none ∨ d.holder = some i) :
      Serve i d (d.move i { d.toShared with holder := some i } (k (.ok ()))
        (some (.writing written)))
  | lockFails {e : E} {k : Except E Unit → Program A U E ε α} {t : Tx σ}
      (hrest : (d.client i).rest = .call (.lock (some e)) k) (htx : (d.client i).tx = some t) :
      Serve i d (d.move i d.toShared (k (.error e)) (some t))
  | query {q : Q} {k : Except E (A q) → Program A U E ε α} {t : Tx σ} {s : σ}
      (hrest : (d.client i).rest = .call (.query q) k) (htx : (d.client i).tx = some t)
      (hsees : Sees d.toShared t s) :
      Serve i d (d.move i d.toShared (k (db.select q s)) (some (t.read s)))
  | queryAlone {q : Q} {k : Except E (A q) → Program A U E ε α}
      (hrest : (d.client i).rest = .call (.query q) k) (htx : (d.client i).tx = none) :
      Serve i d (d.move i d.toShared (k (db.select q d.contents)) none)
  | execute {u : U} {k : Except E Unit → Program A U E ε α} {written : Option (ℕ × σ)}
      {s s' : σ} (hrest : (d.client i).rest = .call (.execute u) k)
      (htx : (d.client i).tx = some (.writing written))
      (hsees : Sees d.toShared (.writing written) s) (hu : db.execute u s = .ok s') :
      Serve i d (d.move i d.toShared (k (.ok ())) (some (.writing (some (d.log.length, s')))))
  | executeFails {u : U} {k : Except E Unit → Program A U E ε α} {written : Option (ℕ × σ)}
      {s : σ} {e : E} (hrest : (d.client i).rest = .call (.execute u) k)
      (htx : (d.client i).tx = some (.writing written))
      (hsees : Sees d.toShared (.writing written) s) (hu : db.execute u s = .error e) :
      Serve i d (d.move i d.toShared (k (.error e)) (some (.writing written)))
  | commit {fault : Option (E × Bool)} {k : Except E Unit → Program A U E ε α} {t : Tx σ} {s : σ}
      (hrest : (d.client i).rest = .call (.commit fault) k) (htx : (d.client i).tx = some t)
      (hsees : Sees d.toShared t s) (happlied : Applied fault = true) :
      Serve i d (d.move i ((d.toShared.publish i (d.client i).call s t).release i)
        (k (outcome (fault.map Prod.fst))) none)
  | commitFails {fault : Option (E × Bool)} {k : Except E Unit → Program A U E ε α} {t : Tx σ}
      (hrest : (d.client i).rest = .call (.commit fault) k) (htx : (d.client i).tx = some t)
      (happlied : Applied fault = false) :
      Serve i d (d.move i (d.toShared.release i) (k (outcome (fault.map Prod.fst))) none)
  | rollback {k : Unit → Program A U E ε α} {t : Tx σ}
      (hrest : (d.client i).rest = .call .rollback k) (htx : (d.client i).tx = some t) :
      Serve i d (d.move i (d.toShared.release i) (k ()) none)

section Runs

variable (program : M → Program A U E ε α)

/-- Client `i` makes the call `m`. If it has left a call in the middle,
its transaction ends with its connection. -/
def State.start [DecidableEq ι] (d : State ι A U E ε α σ M) (i : ι) (m : M) :
    State ι A U E ε α σ M :=
  ⟨d.toShared.release i, Function.update d.client i ⟨m, program m, d.log.length, none⟩⟩

/-- **The states a run comes to** from contents `s₀`. Every client has a
first call to make. It may make another when it has finished, and it may
die at any time and come back with another. -/
inductive Reachable [DecidableEq ι] (s₀ : σ) : State ι A U E ε α σ M → Prop
  | init (first : ι → M) :
      Reachable s₀ ⟨⟨s₀, [], none⟩, fun i => ⟨first i, program (first i), 0, none⟩⟩
  | start {d : State ι A U E ε α σ M} (h : Reachable s₀ d) (i : ι) (m : M) :
      Reachable s₀ (d.start program i m)
  | serve {d d' : State ι A U E ε α σ M} (h : Reachable s₀ d) (i : ι)
      (hserve : Serve db i d d') : Reachable s₀ d'

/-- A call alone on contents `s`: what it answers, and the contents it
leaves. -/
def alone (m : M) (s : σ) : Except ε α × Solo σ := (program m).run db.solo ⟨s, none⟩

/-- The contents that calls leave one after the other. -/
def serial (s₀ : σ) (log : List (ι × M)) : σ :=
  log.foldl (fun s c => (db.alone program c.2 s).2.contents) s₀

/-- The contents after the first `v` calls of the log. -/
def version (s₀ : σ) (log : List (ι × M)) (v : ℕ) : σ := db.serial program s₀ (log.take v)

/-- **The answer of a call.** It is what the call answers alone on
contents that were committed between its beginning and now; and unless it
left them as they were, its change is the next one in the log. -/
def Answered (s₀ : σ) (d : Shared ι σ M) (i : ι) (c : Client A U E ε α σ M) (x : Except ε α) :
    Prop :=
  ∃ v s', c.since ≤ v ∧ v ≤ d.log.length ∧
    db.alone program c.call (db.version program s₀ d.log v) = (x, ⟨s', none⟩) ∧
    (s' = db.version program s₀ d.log v ∨ d.log[v]? = some (i, c.call))

end Runs

end Database

end EthIndexer
