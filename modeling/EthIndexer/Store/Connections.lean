import EthIndexer.Common.Serializable
import EthIndexer.Store.Model.Connections
import EthIndexer.Store.ReadBack
/-!
# Interleaved connections

The methods of the store, statement by statement, against the same methods
as one step on the tables. A method alone on the database does what the
one step does (`Call.alone_eq`), and every method is orderly
(`Call.orderly_program`); so the connections of any number of processes,
with their statements interleaved in any way, are serializable, and the
one step is what the rest of the development may take a method for.
-/

namespace EthIndexer

namespace Postgres

open Database

/-! ## A method alone -/

/-- Statements that read: inside a transaction or not, they return `g` of
what they see. -/
def Reads {α : Type} (p : Connection α) (g : Tables → Go α) : Prop :=
  ∀ s : Solo Tables, p.run database.solo s = (g s.seen, s)

/-- Statements of a transaction that write: they make `g` of what they
see. Where they fail, the transaction has made something of it that
nobody will see. -/
def Writes (p : Connection Unit) (g : Tables → Go Tables) : Prop :=
  ∀ T W, (∃ W', g W = .ok W' ∧ p.run database.solo ⟨T, some W⟩ = (.ok (), ⟨T, some W'⟩)) ∨
    ∃ err W', g W = .error err ∧ p.run database.solo ⟨T, some W⟩ = (.error err, ⟨T, some W'⟩)

section Composition

variable {α β : Type} {p : Connection α} {g : Tables → Go α}

theorem reads_lift (x : Go α) : Reads (.lift x) fun _ => x := fun _ => rfl

/-- Two reads in sequence see the same tables. -/
theorem Reads.bind {f : α → Connection β} {h : α → Tables → Go β} (hp : Reads p g)
    (hf : ∀ a, Reads (f a) (h a)) : Reads (p >>= f) fun T => g T >>= fun a => h a T := by
  intro s
  rw [Session.run_bind, hp]
  dsimp only
  cases g s.seen with
  | error err => rfl
  | ok a => exact hf a s

/-- A program that writes, by what it computes. -/
theorem Writes.congr {p : Connection Unit} {g g' : Tables → Go Tables} (hp : Writes p g)
    (h : ∀ T, g T = g' T) : Writes p g' := by
  intro T W
  rw [← h]
  exact hp T W

theorem Reads.bind_writes {f : α → Connection Unit} {h : α → Tables → Go Tables}
    (hp : Reads p g) (hf : ∀ a, Writes (f a) (h a)) :
    Writes (p >>= f) fun T => g T >>= fun a => h a T := by
  intro T W
  rw [Session.run_bind, hp]
  dsimp only [Solo.seen_some]
  cases g W with
  | error err => exact Or.inr ⟨err, W, rfl, rfl⟩
  | ok a => exact hf a T W

theorem writes_pure : Writes (.ret (.ok ())) fun T => .ok T := fun _ W => Or.inl ⟨W, rfl, rfl⟩

/-- Two writes in sequence: the second goes on from what the first left. -/
theorem Writes.bind {p q : Connection Unit} {g h : Tables → Go Tables} (hp : Writes p g)
    (hq : Writes q h) : Writes (p >>= fun _ => q) fun T => g T >>= h := by
  intro T W
  rw [Session.run_bind]
  dsimp only
  rcases hp T W with ⟨W', hg, hrun⟩ | ⟨err, W', hg, hrun⟩
  · rw [hrun, hg]
    exact hq T W'
  · rw [hrun, hg]
    exact Or.inr ⟨err, W', rfl, rfl⟩

/-- A statement that reads at the end of one that writes. -/
theorem Writes.bind_reads {p : Connection Unit} {g : Tables → Go Tables} {q : Connection α}
    {f : α → Connection Unit} {r : Tables → Go α} {h : α → Tables → Go Tables}
    (hp : Writes p g) (hq : Reads q r) (hf : ∀ a, Writes (f a) (h a)) :
    Writes (p >>= fun _ => q >>= f) fun T => g T >>= fun T => r T >>= fun a => h a T :=
  hp.bind (hq.bind_writes hf)

end Composition

variable {env : PostgresEnv}

theorem reads_query (c : PostgresCall) (q : Select) (context : String) :
    Reads (Connection.query env c q context) fun T =>
      env.call c context >>= fun _ => .ok (q.run T) := by
  intro s
  rw [Connection.query, send, Session.run_request, solo]
  dsimp only [database, failure, PostgresEnv.call]
  cases env.fault c <;> rfl

/-- A statement writes, if the database takes it. -/
theorem writes_execute (c : PostgresCall) (u : Change) (context : String) :
    Writes (Connection.execute env c u context) fun T =>
      env.call c context >>= fun _ => (u.run T).wrap context := by
  intro T W
  rw [Connection.execute, send, Session.run_request, solo]
  dsimp only [database, failure, PostgresEnv.call, Solo.seen_some]
  cases env.fault c with
  | some text => exact Or.inr ⟨_, W, rfl, rfl⟩
  | none =>
    dsimp only [Option.map_none]
    cases u.run W with
    | error err => exact Or.inr ⟨_, W, rfl, rfl⟩
    | ok W' => exact Or.inl ⟨W', rfl, rfl⟩

/-- A query, and what follows its rows. -/
theorem run_query_bind {α : Type} {c : PostgresCall} {q : Select} {context : String}
    {f : Rows q → Connection α} {s : Solo Tables} {x : Go α}
    (h : (f (q.run s.seen)).run database.solo s = (x, s)) :
    (Connection.query env c q context >>= f).run database.solo s =
      (env.call c context >>= fun _ => x, s) := by
  rw [Session.run_bind, reads_query]
  dsimp only
  cases env.call c context with
  | error err => rfl
  | ok _ => exact h

/-! ## The update alone -/

variable (env)

/-- The check of the chain, statement by statement. -/
theorem reads_rejectDifferentChain (chainID : UInt64) :
    Reads (Connection.rejectDifferentChain env chainID) (rejectDifferentChain env chainID) := by
  intro s
  rw [Connection.rejectDifferentChain, rejectDifferentChain]
  cases postgresInt64 chainID with
  | error err => rfl
  | ok id =>
    refine run_query_bind ?_
    dsimp only [Select.run]
    cases s.seen.syncState.find? fun r => r.chainID ≠ id <;> rfl

theorem reads_validateRetainedParent (u : CanonicalUpdate) :
    Reads (Connection.validateRetainedParent env u) (validateRetainedParent env u) := by
  intro s
  rw [Connection.validateRetainedParent, validateRetainedParent]
  cases u.blocks with
  | nil => rfl
  | cons first rest =>
    dsimp only
    by_cases heq : u.replaceFrom = u.retainFrom
    · rw [if_pos heq, if_pos heq]
      rfl
    · rw [if_neg heq, if_neg heq]
      cases postgresInt64 (u.replaceFrom - 1) with
      | error err => rfl
      | ok previous =>
        refine run_query_bind ?_
        dsimp only [Select.run]
        cases s.seen.selectBlock previous with
        | none => rfl
        | some row =>
          dsimp only [Option.map_some]
          cases decodeHash row.hash <;> rfl

theorem writes_sendCanonicalBatch (i : ℕ) (batch : List Statement) :
    Writes (Connection.sendCanonicalBatch env i batch) (sendCanonicalBatch env i batch) := by
  intro T W
  rw [Connection.sendCanonicalBatch, sendCanonicalBatch]
  by_cases hempty : batch.length = 0
  · rw [if_pos hempty, if_pos hempty]
    exact writes_pure T W
  · rw [if_neg hempty, if_neg hempty]
    exact writes_execute (.batch i) (.batch batch) "insert canonical bundles" T W

theorem writes_sendQueued (queue : List (Go Statement)) (i : ℕ) (batch : List Statement) :
    Writes (Connection.sendQueued env i batch queue) (sendQueued env i batch queue) := by
  induction queue generalizing i batch with
  | nil => exact writes_sendCanonicalBatch env i batch
  | cons queued rest ih =>
    intro T W
    rw [Connection.sendQueued, sendQueued]
    cases queued with
    | error err => exact Or.inr ⟨err, W, rfl, rfl⟩
    | ok statement =>
      dsimp only [Session.lift]
      rw [Session.ret_ok_bind, Go.ok_bind]
      by_cases hfull : (batch ++ [statement]).length ≥ canonicalBatchQueryLimit
      · rw [if_pos hfull, if_pos hfull]
        exact (writes_sendCanonicalBatch env i _).bind (ih (i + 1) []) T W
      · rw [if_neg hfull, if_neg hfull]
        exact ih i _ T W

theorem reads_canonicalTipInTransaction :
    Reads (Connection.canonicalTipInTransaction env) (canonicalTipInTransaction env) :=
  fun _ => run_query_bind rfl

theorem writes_writeSyncState (u : CanonicalUpdate) (tip : Option ChainTip) :
    Writes (Connection.writeSyncState env u tip) (writeSyncState env u tip) := by
  intro T W
  rw [Connection.writeSyncState, writeSyncState]
  cases tip.mapM fun tip => postgresInt64 tip.number with
  | error err => exact Or.inr ⟨err, W, rfl, rfl⟩
  | ok number =>
    cases postgresInt64 u.chainID with
    | error err => exact Or.inr ⟨err, W, rfl, rfl⟩
    | ok chainID => exact writes_execute .state (.upsertSyncState _) _ T W

/-- What an update makes of the tables once it has the lock. -/
def replaced (env : PostgresEnv) (u : CanonicalUpdate) (T : Tables) : Go Tables := do
  rejectDifferentChain env u.chainID T
  let replaceFrom ← postgresInt64 u.replaceFrom
  let retainFrom ← postgresInt64 u.retainFrom
  env.call .delete "delete replaced canonical range"
  let T := T.deleteCanonicalRange replaceFrom retainFrom
  validateRetainedParent env u T
  let T ← insertCanonicalBundles env u.blocks T
  let tip ← canonicalTipInTransaction env T
  writeSyncState env u tip T

/-- An update is what stands before its transaction, the transaction's
body, and the commit. -/
theorem commitUpdate_eq (ord : RangeOrder UInt64 BlockBundle) (u : CanonicalUpdate) (T : Tables) :
    commitUpdate env ord u T = (validatePostgresUpdate ord u >>= fun _ =>
      env.call .begin "begin canonical update" >>= fun _ =>
      env.call .lock "acquire canonical writer lock" >>= fun _ =>
      replaced env u T >>= fun T' =>
      env.call .commit "commit canonical update" >>= fun _ => .ok T') := by
  simp only [commitUpdate, replaced, bind_assoc]
  rfl

/-- **The body of an update** replaces the range. -/
theorem writes_replaceCanonicalRange (u : CanonicalUpdate) :
    Writes (Connection.replaceCanonicalRange env u) (replaced env u) := by
  refine (reads_rejectDifferentChain env u.chainID).bind_writes fun _ =>
    (reads_lift _).bind_writes fun replaceFrom => (reads_lift _).bind_writes fun retainFrom => ?_
  have hrest := (reads_validateRetainedParent env u).bind_writes fun _ =>
    (writes_sendQueued env (u.blocks.flatMap queueBundle) 0 []).bind_reads
      (reads_canonicalTipInTransaction env) fun tip => writes_writeSyncState env u tip
  refine ((writes_execute .delete (.deleteCanonicalRange replaceFrom retainFrom) _).bind
    hrest).congr fun T => ?_
  rw [bind_assoc]
  rfl

/-! ## Transactions alone -/

section Transactions

variable {isolation : Isolation} {beginContext commitContext : String}

/-- A transaction of queries. -/
theorem run_transaction_of_reads {α : Type} {body : Connection α} {g : Tables → Go α}
    (hbody : Reads body g) (lost : Bool) (T : Tables) :
    (Connection.transaction env isolation beginContext body commitContext lost).run database.solo
        ⟨T, none⟩ =
      (env.call .begin beginContext >>= fun _ => g T >>= fun a =>
        env.call .commit commitContext >>= fun _ => .ok a, ⟨T, none⟩) := by
  have hrun := hbody ⟨T, some T⟩
  rw [Solo.seen_some] at hrun
  rw [Connection.transaction]
  dsimp only [failure, PostgresEnv.call]
  cases env.fault .begin with
  | some text => rfl
  | none =>
    dsimp only [Option.map_none]
    cases hg : g T with
    | error err =>
      rw [hg] at hrun
      rw [run_transaction_of_error hrun]
      rfl
    | ok a =>
      rw [hg] at hrun
      rw [run_transaction_of_ok hrun]
      cases env.fault .commit with
      | none => rfl
      | some text => cases lost <;> rfl

/-- A transaction that writes: where it fails before the commit, it
leaves the tables alone. -/
theorem run_transaction_of_writes {body : Connection Unit} {g : Tables → Go Tables}
    (hbody : Writes body g) (lost : Bool) (T : Tables) :
    (Connection.transaction env isolation beginContext body commitContext lost).run database.solo
        ⟨T, none⟩ =
      match env.call .begin beginContext >>= fun _ => g T with
      | .error err => (.error err, ⟨T, none⟩)
      | .ok T' => (env.call .commit commitContext,
          ⟨if env.fault .commit = none ∨ lost = true then T' else T, none⟩) := by
  rw [Connection.transaction]
  dsimp only [failure, PostgresEnv.call]
  cases env.fault .begin with
  | some text => rfl
  | none =>
    dsimp only [Option.map_none]
    rcases hbody T T with ⟨T', hg, hrun⟩ | ⟨err, T', hg, hrun⟩
    · rw [hg, run_transaction_of_ok hrun]
      cases env.fault .commit with
      | none => rfl
      | some text => cases lost <;> rfl
    · rw [hg, run_transaction_of_error hrun]
      rfl

end Transactions

/-- Sending a batch does not look at the commit. -/
theorem sendQueued_committing (queue : List (Go Statement)) (i : ℕ) (batch : List Statement)
    (T : Tables) : sendQueued (committing env) i batch queue T = sendQueued env i batch queue T := by
  induction queue generalizing i batch T with
  | nil => rfl
  | cons queued rest ih =>
    simp only [sendQueued, ih]
    rfl

/-- Whether the commit fails is seen at the commit only. -/
theorem replaced_committing (u : CanonicalUpdate) (T : Tables) :
    replaced (committing env) u T = replaced env u T := by
  simp only [replaced, insertCanonicalBundles, sendQueued_committing]
  rfl

/-- **A commit that takes place in any case** changes what the update does
only where the commit fails: what it would have left is left. -/
theorem committing_cases (ord : RangeOrder UInt64 BlockBundle) (u : CanonicalUpdate) (T : Tables) :
    applyCanonicalUpdate (committing env) ord u T = applyCanonicalUpdate env ord u T ∨
      ∃ text T', env.fault .commit = some text ∧
        (applyCanonicalUpdate env ord u T).1 =
          .error (.error [] ("commit canonical update: " ++ text)) ∧
        applyCanonicalUpdate (committing env) ord u T = (.ok (), T') := by
  have hbegin : (committing env).fault .begin = env.fault .begin := rfl
  have hlock : (committing env).fault .lock = env.fault .lock := rfl
  have hcommit : (committing env).fault .commit = none := rfl
  simp only [applyCanonicalUpdate, commitUpdate_eq, replaced_committing, PostgresEnv.call, hbegin,
    hlock, hcommit]
  cases validatePostgresUpdate ord u with
  | error err => exact Or.inl rfl
  | ok _ =>
  cases env.fault .begin with
  | some text => exact Or.inl rfl
  | none =>
  cases env.fault .lock with
  | some text => exact Or.inl rfl
  | none =>
  cases replaced env u T with
  | error err => exact Or.inl rfl
  | ok T' =>
  cases env.fault .commit with
  | none => exact Or.inl rfl
  | some text => exact Or.inr ⟨text, T', rfl, rfl, rfl⟩

/-- The body with the advisory lock in front. -/
theorem writes_lock (u : CanonicalUpdate) :
    Writes
      (send (.lock (failure env .lock)) (Go.wrap "acquire canonical writer lock") >>= fun _ =>
        Connection.replaceCanonicalRange env u)
      fun T => env.call .lock "acquire canonical writer lock" >>= fun _ => replaced env u T := by
  refine Reads.bind_writes (fun s => ?_) fun _ => writes_replaceCanonicalRange env u
  rw [send, Session.run_request, solo, failure, PostgresEnv.call]
  cases env.fault .lock <;> rfl

/-- **An update over a connection is one step on the tables**, and where
its commit is lost the step of an update whose commit succeeds. -/
theorem run_applyCanonicalUpdate (ord : RangeOrder UInt64 BlockBundle) (u : CanonicalUpdate)
    (lost : Bool) (T : Tables) :
    (Connection.applyCanonicalUpdate env ord u lost).run database.solo ⟨T, none⟩ =
      ((applyCanonicalUpdate env ord u T).1,
        ⟨(applyCanonicalUpdate (if lost then committing env else env) ord u T).2, none⟩) := by
  rw [Connection.applyCanonicalUpdate]
  simp only [applyCanonicalUpdate, commitUpdate_eq]
  cases validatePostgresUpdate ord u with
  | error err => rfl
  | ok _ =>
    rw [Session.lift, Session.ret_ok_bind, run_transaction_of_writes env (writes_lock env u)]
    simp only [Go.ok_bind, PostgresEnv.call]
    have hbegin : (if lost then committing env else env).fault .begin = env.fault .begin := by
      cases lost <;> rfl
    have hlock : (if lost then committing env else env).fault .lock = env.fault .lock := by
      cases lost <;> rfl
    have hreplaced : replaced (if lost then committing env else env) u T = replaced env u T := by
      cases lost
      · rfl
      · exact replaced_committing env u T
    have hcommit : (if lost then committing env else env).fault .commit =
        if lost then none else env.fault .commit := by
      cases lost <;> rfl
    rw [hbegin, hlock, hreplaced]
    cases env.fault .begin with
    | some text => rfl
    | none =>
      cases env.fault .lock with
      | some text => rfl
      | none =>
        simp only [Go.ok_bind]
        cases replaced env u T with
        | error err => rfl
        | ok T' =>
          -- a commit that fails is looked at only where it is not lost
          rw [hcommit]
          cases env.fault .commit <;> cases lost <;> rfl

/-! ## The queries alone -/

theorem reads_canonicalTip : Reads (Connection.canonicalTip env) (canonicalTip env) :=
  fun _ => run_query_bind rfl

theorem reads_canonicalHash (number : UInt64) :
    Reads (Connection.canonicalHash env number) fun T => canonicalHash env T number := by
  intro s
  dsimp only
  rw [Connection.canonicalHash, canonicalHash]
  by_cases hlarge : number > maxInt64
  · rw [if_pos hlarge, if_pos hlarge]
    rfl
  · rw [if_neg hlarge, if_neg hlarge]
    cases postgresInt64 number with
    | error err => rfl
    | ok n =>
      refine run_query_bind ?_
      dsimp only [Select.run]
      cases s.seen.selectBlock n <;> rfl

theorem reads_blockByNumber (number : UInt64) :
    Reads (Connection.blockByNumber env number) fun T => blockByNumber env T number := by
  intro s
  dsimp only
  rw [Connection.blockByNumber, blockByNumber]
  by_cases hlarge : number > maxInt64
  · rw [if_pos hlarge, if_pos hlarge]
    rfl
  · rw [if_neg hlarge, if_neg hlarge]
    cases postgresInt64 number with
    | error err => rfl
    | ok n =>
      refine run_query_bind ?_
      dsimp only [Select.run]
      cases s.seen.selectBlock n <;> rfl

theorem reads_queryEventsForTransaction (hash : Hash) :
    Reads (Connection.queryEventsForTransaction env hash) fun T =>
      queryEventsForTransaction env T hash :=
  fun _ => run_query_bind rfl

/-- The lookup of a transaction, inside its database transaction. -/
def lookup (env : PostgresEnv) (hash : Hash) (T : Tables) : Go TransactionResult := do
  env.call .query s!"query transaction {hash.hex}"
  match T.selectTransaction hash.1 with
  | none => .error (.ofSentinel .notFound)
  | some (row, blockHash) =>
    let transaction ← (row.decode env.wire blockHash).wrap s!"decode transaction {hash.hex}"
    let events ← queryEventsForTransaction env T hash
    return { transaction := transaction, events := events }

/-- The lookup of a transaction between its begin and its commit. -/
theorem transactionByHash_eq (hash : Hash) (T : Tables) :
    transactionByHash env T hash = (env.call .begin "begin transaction lookup" >>= fun _ =>
      lookup env hash T >>= fun result =>
      env.call .commit "commit transaction lookup" >>= fun _ => .ok result) := by
  rw [transactionByHash, lookup]
  refine bind_congr fun _ => ?_
  rw [bind_assoc]
  refine bind_congr fun _ => ?_
  cases T.selectTransaction hash.1 with
  | none => rfl
  | some found =>
    simp only [bind_assoc]
    rfl

/-- **A lookup over a connection** answers from one state of the tables,
and leaves it. -/
theorem run_transactionByHash (hash : Hash) (T : Tables) :
    (Connection.transactionByHash env hash).run database.solo ⟨T, none⟩ =
      (transactionByHash env T hash, ⟨T, none⟩) := by
  rw [transactionByHash_eq, Connection.transactionByHash]
  refine run_transaction_of_reads env (g := lookup env hash) (fun s => ?_) false T
  refine run_query_bind ?_
  dsimp only [Select.run]
  cases s.seen.selectTransaction hash.1 with
  | none => rfl
  | some found =>
    obtain ⟨row, blockHash⟩ := found
    exact ((reads_lift _).bind fun transaction =>
      (reads_queryEventsForTransaction env hash).bind fun events => reads_lift _) s

theorem reads_canonicalCursorExists (cursor : EventCursor) :
    Reads (Connection.canonicalCursorExists env cursor) fun T =>
      canonicalCursorExists env T cursor := by
  intro s
  dsimp only
  rw [Connection.canonicalCursorExists, canonicalCursorExists]
  by_cases hlarge : cursor.blockNumber > maxInt64
  · rw [if_pos hlarge, if_pos hlarge]
    rfl
  · rw [if_neg hlarge, if_neg hlarge]
    cases postgresInt64 cursor.blockNumber with
    | error err => rfl
    | ok n => exact reads_query .cursor (.cursorExists n cursor.blockHash.1) _ s

theorem reads_queryAddressEventPage (q : EventQuery) :
    Reads (Connection.queryAddressEventPage env q) fun T => queryAddressEventPage env T q := by
  intro s
  dsimp only
  rw [Connection.queryAddressEventPage, queryAddressEventPage]
  by_cases hzero : q.limit = 0
  · rw [if_pos hzero, if_pos hzero]
    rfl
  · rw [if_neg hzero, if_neg hzero]
    cases postgresInt64 (q.limit.toUInt64 + 1) with
    | error err => rfl
    | ok queryLimit =>
      cases positionArguments q.before with
      | error err => rfl
      | ok before =>
        refine run_query_bind ?_
        dsimp only [Select.run]
        cases scanPostgresEvents (s.seen.selectEventsByAddress q.address.1 before queryLimit) with
        | error err => rfl
        | ok events =>
          rw [Go.wrap_ok, Go.ok_bind]
          change (Except.ok (Connection.pageOf q events), s) = _
          rw [Connection.pageOf]
          by_cases hfits : events.length ≤ q.limit.toNat
          · rw [if_pos hfits, if_pos hfits]
            rfl
          · rw [if_neg hfits, if_neg hfits]
            rfl

/-- **A page over a connection** comes from the state its cursor was
checked in. -/
theorem run_eventsByAddress (ctx : Context) (q : EventQuery) (T : Tables) :
    (Connection.eventsByAddress env ctx q).run database.solo ⟨T, none⟩ =
      (eventsByAddress env T ctx q, ⟨T, none⟩) := by
  cases ctx with
  | some err => rfl
  | none =>
    unfold Connection.eventsByAddress eventsByAddress
    dsimp only
    by_cases hlimit : q.limit > maxEventPageSize
    · rw [if_pos hlimit, if_pos hlimit]
      rfl
    · rw [if_neg hlimit, if_neg hlimit]
      cases q.before with
      | none => exact reads_queryAddressEventPage env q ⟨T, none⟩
      | some cursor =>
        have hbody := (reads_canonicalCursorExists env cursor).bind fun valid =>
          (reads_lift (Go.failIf (valid = false) (.ofSentinel .staleCursor))).bind fun _ =>
            reads_queryAddressEventPage env q
        dsimp only
        rw [run_transaction_of_reads env hbody]
        simp only [bind_assoc]
        rfl

variable {env}

/-- What is returned under another name. -/
theorem run_bind_return {α : Type} {p : Connection α} {x : Go α} {T : Tables} {s : Solo Tables}
    (h : p.run database.solo ⟨T, none⟩ = (x, s)) (f : α → Answer) :
    (p >>= fun a => (return f a : Connection Answer)).run database.solo ⟨T, none⟩ =
      (x.map f, s) := by
  rw [Session.run_bind, h]
  cases x <;> rfl

/-- **A method alone** is the one step. -/
theorem Call.alone_eq (c : Call) (T : Tables) :
    database.alone Call.program c T = ((c.atomic T).1, ⟨(c.atomic T).2, none⟩) := by
  obtain ⟨method, env⟩ := c
  cases method with
  | canonicalTip => exact run_bind_return (reads_canonicalTip env ⟨T, none⟩) _
  | canonicalHash number => exact run_bind_return (reads_canonicalHash env number ⟨T, none⟩) _
  | blockByNumber number => exact run_bind_return (reads_blockByNumber env number ⟨T, none⟩) _
  | transactionByHash hash => exact run_bind_return (run_transactionByHash env hash T) _
  | eventsByAddress ctx query => exact run_bind_return (run_eventsByAddress env ctx query T) _
  | applyCanonicalUpdate ord update lost =>
    exact run_bind_return (run_applyCanonicalUpdate env ord update lost T) _

/-! ## The methods are orderly -/

section Orderly

variable (env)

theorem orderly_lift_bind {α β : Type} {x : Go α} {f : α → Connection β}
    (h : ∀ a, Orderly .start (f a)) : Orderly .start ((.lift x : Connection α) >>= f) := by
  cases x with
  | error err => trivial
  | ok a => exact h a

theorem orderly_canonicalTip : Orderly .start (Connection.canonicalTip env) :=
  orderly_query fun _ => ⟨_, rfl⟩

theorem orderly_canonicalHash (number : UInt64) :
    Orderly .start (Connection.canonicalHash env number) := by
  rw [Connection.canonicalHash]
  split
  · trivial
  · refine orderly_lift_bind fun n => orderly_query fun hash => ?_
    cases hash <;> exact ⟨_, rfl⟩

theorem orderly_blockByNumber (number : UInt64) :
    Orderly .start (Connection.blockByNumber env number) := by
  rw [Connection.blockByNumber]
  split
  · trivial
  · refine orderly_lift_bind fun n => orderly_query fun row => ?_
    cases row <;> exact ⟨_, rfl⟩

variable {writes : Prop}

theorem body_query (c : PostgresCall) (q : Select) (context : String) :
    Body writes (Connection.query env c q context) := Database.body_query _ _

theorem body_execute (c : PostgresCall) (u : Change) (context : String) :
    Body True (Connection.execute env c u context) := Database.body_execute _ _ trivial

theorem orderly_transactionByHash (hash : Hash) :
    Orderly .start (Connection.transactionByHash env hash) := by
  refine Body.orderly_transaction ((body_query env _ _ _).bind fun found => ?_) _ _ _ _
  cases found with
  | none => trivial
  | some found =>
    exact (body_lift _).bind fun _ =>
      ((body_query env _ _ _).bind fun _ => body_lift _).bind fun _ => body_lift _

theorem body_queryAddressEventPage (q : EventQuery) :
    Body writes (Connection.queryAddressEventPage env q) := by
  rw [Connection.queryAddressEventPage]
  split
  · trivial
  · exact (body_lift _).bind fun _ => (body_lift _).bind fun _ =>
      (body_query env _ _ _).bind fun _ => (body_lift _).bind fun _ => body_lift _

theorem orderly_queryAddressEventPage (q : EventQuery) :
    Orderly .start (Connection.queryAddressEventPage env q) := by
  rw [Connection.queryAddressEventPage]
  split
  · trivial
  · refine orderly_lift_bind fun _ => orderly_lift_bind fun _ => orderly_query fun rows => ?_
    cases (scanPostgresEvents rows).wrap s!"scan events for address {q.address.hex}" <;>
      exact ⟨_, rfl⟩

/-- A page does so if there is a cursor to check. -/
theorem orderly_eventsByAddress (ctx : Context) (q : EventQuery) :
    Orderly .start (Connection.eventsByAddress env ctx q) := by
  cases ctx with
  | some err => trivial
  | none =>
    unfold Connection.eventsByAddress
    dsimp only
    split
    · trivial
    · cases q.before with
      | none => exact orderly_queryAddressEventPage env q
      | some cursor =>
        refine Body.orderly_transaction (Body.bind ?_ fun _ => (body_lift _).bind fun _ =>
          body_queryAddressEventPage env q) _ _ _ _
        rw [Connection.canonicalCursorExists]
        split
        · trivial
        · exact (body_lift _).bind fun _ => body_query env _ _ _

/-- The statements of a batch keep inside the transaction. -/
theorem body_sendCanonicalBatch (i : ℕ) (batch : List Statement) :
    Body True (Connection.sendCanonicalBatch env i batch) := by
  rw [Connection.sendCanonicalBatch]
  split
  · trivial
  · exact body_execute env _ _ _

theorem body_sendQueued (queue : List (Go Statement)) (i : ℕ) (batch : List Statement) :
    Body True (Connection.sendQueued env i batch queue) := by
  induction queue generalizing i batch with
  | nil => exact body_sendCanonicalBatch env i batch
  | cons queued rest ih =>
    rw [Connection.sendQueued]
    refine (body_lift _).bind fun statement => ?_
    split
    · exact (body_sendCanonicalBatch env _ _).bind fun _ => ih _ _
    · exact ih _ _

theorem body_rejectDifferentChain (chainID : UInt64) :
    Body writes (Connection.rejectDifferentChain env chainID) := by
  refine (body_lift _).bind fun _ => (body_query env _ _ _).bind fun existing => ?_
  cases existing <;> trivial

theorem body_validateRetainedParent (u : CanonicalUpdate) :
    Body writes (Connection.validateRetainedParent env u) := by
  rw [Connection.validateRetainedParent]
  split
  · trivial
  · split
    · trivial
    · refine (body_lift _).bind fun _ => (body_query env _ _ _).bind fun found => ?_
      cases found with
      | none => trivial
      | some hash => exact (body_lift _).bind fun _ => body_lift _

/-- The body of an update keeps inside its transaction. -/
theorem body_replaceCanonicalRange (u : CanonicalUpdate) :
    Body True (Connection.replaceCanonicalRange env u) := by
  refine (body_rejectDifferentChain env _).bind fun _ => (body_lift _).bind fun _ =>
    (body_lift _).bind fun _ => (body_execute env _ _ _).bind fun _ =>
    (body_validateRetainedParent env u).bind fun _ => (body_sendQueued env _ _ _).bind fun _ =>
    Body.bind ?_ fun tip => ?_
  · exact (body_query env _ _ _).bind fun _ => body_lift _
  · exact (body_lift _).bind fun _ => (body_lift _).bind fun _ => body_execute env _ _ _

/-- An update begins, locks, writes and commits. -/
theorem orderly_applyCanonicalUpdate (ord : RangeOrder UInt64 BlockBundle) (u : CanonicalUpdate)
    (lost : Bool) : Orderly .start (Connection.applyCanonicalUpdate env ord u lost) :=
  orderly_lift_bind fun _ =>
    orderly_transaction_lock (fun _ => body_replaceCanonicalRange env u) _ _ _ _ _ _

end Orderly

/-- **Every method is orderly**: it takes the lock before it writes, and
ends what it begins. -/
theorem Call.orderly_program (c : Call) : Orderly .start c.program := by
  obtain ⟨method, env⟩ := c
  cases method with
  | canonicalTip => exact (orderly_canonicalTip env).bind_ret fun _ => ⟨_, rfl⟩
  | canonicalHash number => exact (orderly_canonicalHash env number).bind_ret fun _ => ⟨_, rfl⟩
  | blockByNumber number => exact (orderly_blockByNumber env number).bind_ret fun _ => ⟨_, rfl⟩
  | transactionByHash hash => exact (orderly_transactionByHash env hash).bind_ret fun _ => ⟨_, rfl⟩
  | eventsByAddress ctx q => exact (orderly_eventsByAddress env ctx q).bind_ret fun _ => ⟨_, rfl⟩
  | applyCanonicalUpdate ord u lost =>
    exact (orderly_applyCanonicalUpdate env ord u lost).bind_ret fun _ => ⟨_, rfl⟩

/-! ## Interleavings -/

/-- The database and the connections to it. -/
abbrev Connections (ι : Type) :=
  Database.State ι (fun q : Sent Select => Rows q.statement) (Sent Change) Fault Fault Answer
    Tables Call

/-- What the connections come to, from tables `T₀`. -/
abbrev Connections.Reachable {ι : Type} [DecidableEq ι] (T₀ : Tables) (d : Connections ι) : Prop :=
  Database.Reachable database Call.program T₀ d

/-- The tables that calls leave one after the other, each as one step. -/
def inTurn {ι : Type} (T₀ : Tables) (log : List (ι × Call)) : Tables :=
  log.foldl (fun T c => (c.2.atomic T).2) T₀

/-- The first update of a chain, without a block. -/
def startChain : CanonicalUpdate :=
  { chainID := 1, replaceFrom := 0, retainFrom := 0, blocks := [], syncedAt := 0 }

/-- One process starts the chain while another reads the tip. -/
def writerAndReader : Bool → Call
  | true => ⟨.applyCanonicalUpdate (ascending BlockBundle) startChain false, .plain⟩
  | false => ⟨.canonicalTip, .plain⟩

/-- Of two writers one has the lock, and the other waits for it. -/
theorem reachable_waiting : ∃ d : Connections Bool, Connections.Reachable Tables.empty d ∧
    d.holder = some true ∧ ∃ k, (d.client false).rest = .call (.lock none) k := by
  have h₀ : Connections.Reachable Tables.empty _ := .init fun _ : Bool => writerAndReader true
  have h₁ := h₀.serve true (.begin rfl rfl)
  have h₂ := h₁.serve false (.begin rfl rfl)
  exact ⟨_, h₂.serve true (.lock rfl rfl (Or.inl rfl)), rfl, _, rfl⟩

/-- The reader asks for the tip after the writer's `DELETE`. -/
theorem reachable_interleaved : ∃ d : Connections Bool, Connections.Reachable Tables.empty d ∧
    (d.client true).rest = .ret (.ok .applied) ∧
    d.client false = ⟨writerAndReader false, .ret (.ok (.tip none)), 0, none⟩ := by
  have h₀ : Connections.Reachable Tables.empty _ := .init writerAndReader
  have h₁ := h₀.serve true (.begin rfl rfl)
  have h₂ := h₁.serve true (.lock rfl rfl (Or.inl rfl))
  have h₃ := h₂.serve true (.query rfl rfl .committed)
  have h₄ := h₃.serve true (.execute rfl rfl .committed rfl)
  have h₅ := h₄.serve false (.queryAlone rfl rfl)
  have h₆ := h₅.serve true (.query rfl rfl .own)
  have h₇ := h₆.serve true (.execute rfl rfl .own rfl)
  exact ⟨_, h₇.serve true (.commit rfl rfl .own rfl), rfl, rfl⟩

section Interleavings

variable {ι : Type} {T₀ : Tables}

/-- The calls of a log in turn, program by program or method by method. -/
theorem serial_eq_inTurn (log : List (ι × Call)) :
    database.serial Call.program T₀ log = inTurn T₀ log := by
  simp only [Database.serial, inTurn, Call.alone_eq]

/-- Calls one after the other are calls of `ApplyCanonicalUpdate`. -/
theorem calls_inTurn (log : List (ι × Call)) : Calls T₀ (inTurn T₀ log) := by
  induction log using List.reverseRecOn with
  | nil => exact .refl
  | append_singleton log c ih =>
    rw [inTurn, List.foldl_append]
    obtain ⟨i, method, env⟩ := c
    cases method with
    | applyCanonicalUpdate ord u lost => exact .apply _ ord u ih
    | canonicalTip | canonicalHash | blockByNumber | transactionByHash | eventsByAddress => exact ih

variable [DecidableEq ι] {d : Connections ι}

/-- **Interleaved connections are serializable.** However the statements
of the connections interleave, and wherever a process dies, the tables are
those that the committed calls leave one after the other; and what a call
returns is what it returns as one step on the tables that were committed
at one time between its beginning and its end. If it has changed them,
it is the call of the log at that time. -/
theorem Connections.serializable (h : Connections.Reachable T₀ d) :
    d.contents = inTurn T₀ d.log ∧
      ∀ i x, (d.client i).rest = .ret x → ∃ v T, (d.client i).since ≤ v ∧ v ≤ d.log.length ∧
        T = inTurn T₀ (d.log.take v) ∧ x = ((d.client i).call.atomic T).1 ∧
        (((d.client i).call.atomic T).2 = T ∨ d.log[v]? = some (i, (d.client i).call)) := by
  refine ⟨?_, fun i x hrest => ?_⟩
  · rw [← serial_eq_inTurn]
    exact h.serial Call.orderly_program
  · obtain ⟨v, T', hsince, hv, hrun, hT'⟩ := h.answered Call.orderly_program hrest
    rw [Database.version, serial_eq_inTurn] at hrun hT'
    rw [Call.alone_eq, Prod.mk.injEq, Solo.mk.injEq] at hrun
    refine ⟨v, _, hsince, hv, rfl, hrun.1.symm, ?_⟩
    rw [hrun.2.1]
    exact hT'

theorem serializable_interleaved : ∃ d : Connections Bool,
    (d.client true).rest = .ret (.ok .applied) ∧
      (d.client false).rest = .ret (.ok (.tip none)) ∧ d.contents = inTurn Tables.empty d.log := by
  obtain ⟨d, hd, hwriter, hreader⟩ := reachable_interleaved
  exact ⟨d, hwriter, by rw [hreader], (Connections.serializable hd).1⟩

/-- A call that only reads. -/
def Method.IsQuery : Method → Prop
  | .applyCanonicalUpdate _ _ _ => False
  | _ => True

/-- As one step, a query does not find the tables of a window
inconsistent. -/
theorem consistent_atomic {T : Tables} {B : BundleMap} (hB : Holds T B) {c : Call}
    (hquery : c.method.IsQuery) (hwire : FaithfulWire c.env.wire) :
    Go.Consistent (c.atomic T).1 := by
  have hmap : ∀ {α : Type} {x : Go α} (f : α → Answer), x.Consistent → Go.Consistent (x.map f) := by
    intro α x f hx
    cases x with
    | error err => exact Go.failsAs_error (hx err rfl)
    | ok a => exact Go.failsAs_ok _
  obtain ⟨method, env⟩ := c
  cases method with
  | canonicalTip => exact hmap _ (consistent_canonicalTip hB.mirrors)
  | canonicalHash number => exact hmap _ (consistent_canonicalHash hB.mirrors number)
  | blockByNumber number => exact hmap _ (consistent_blockByNumber hB.mirrors hwire number)
  | transactionByHash hash => exact hmap _ (consistent_transactionByHash hB.mirrors hwire hash)
  | eventsByAddress ctx q => exact hmap _ (consistent_eventsByAddress hB.mirrors ctx q)
  | applyCanonicalUpdate => exact hquery.elim

/-- **No interleaving tears the data.** From empty tables, what is
committed is a canonical window at every point of every run, and no query
that runs beside the writers finds the data inconsistent. -/
theorem Connections.answers_consistent (h : Connections.Reachable Tables.empty d) :
    (∃ B, Holds d.contents B) ∧
      ∀ i x, (d.client i).rest = .ret x → (d.client i).call.method.IsQuery →
        FaithfulWire (d.client i).call.env.wire → Go.Consistent x := by
  have hholds : ∀ log : List (ι × Call), ∃ B, Holds (inTurn Tables.empty log) B :=
    fun log => ((calls_inTurn log).holds holds_empty).1
  refine ⟨?_, fun i x hrest hquery hwire => ?_⟩
  · rw [h.serial Call.orderly_program, serial_eq_inTurn]
    exact hholds d.log
  · obtain ⟨v, T', -, -, hrun, -⟩ := h.answered Call.orderly_program hrest
    rw [Database.version, serial_eq_inTurn, Call.alone_eq, Prod.mk.injEq] at hrun
    obtain ⟨B, hB⟩ := hholds (d.log.take v)
    rw [← hrun.1]
    exact consistent_atomic hB hquery hwire

theorem answers_consistent_interleaved : ∃ d : Connections Bool,
    (d.client false).rest = .ret (.ok (.tip none)) ∧ (∃ B, Holds d.contents B) ∧
      Go.Consistent (.ok (.tip none) : Go Answer) := by
  obtain ⟨d, hd, -, hreader⟩ := reachable_interleaved
  have hrest : (d.client false).rest = .ret (.ok (.tip none)) := by rw [hreader]
  have hcall : (d.client false).call = writerAndReader false := by rw [hreader]
  obtain ⟨hB, hqueries⟩ := Connections.answers_consistent hd
  refine ⟨d, hrest, hB, hqueries false _ hrest ?_ ?_⟩
  · rw [hcall]
    trivial
  · rw [hcall]
    exact faithfulWire_plain

open Relation in
/-- **No call is blocked for good.** From every point of every run, and
whatever the other connections have left open, there is a way to go on in
which a call returns. -/
theorem Connections.calls_return (h : Connections.Reachable T₀ d) (i : ι) :
    ∃ d', ReflTransGen (fun d d' => ∃ j, Serve database j d d') d d' ∧
      Connections.Reachable T₀ d' ∧ (∃ x, (d'.client i).rest = .ret x) ∧
      (d'.client i).call = (d.client i).call := by
  obtain ⟨d', hrun, hret, hcall⟩ := h.completes Call.orderly_program i
  refine ⟨d', hrun, ?_, hret, hcall⟩
  refine Steps.invariant hrun h fun hreach hstep => ?_
  obtain ⟨j, hserve⟩ := hstep
  exact hreach.serve j hserve

/-- An update that waits for the lock comes to its turn. -/
theorem calls_return_waiting : ∃ d d' : Connections Bool, d.holder = some true ∧
    (∃ k, (d.client false).rest = .call (.lock none) k) ∧
    Connections.Reachable Tables.empty d' ∧ ∃ x, (d'.client false).rest = .ret x := by
  obtain ⟨d, hd, hholder, hwaits⟩ := reachable_waiting
  obtain ⟨d', -, hd', hret, -⟩ := Connections.calls_return hd false
  exact ⟨d, d', hholder, hwaits, hd', hret⟩

end Interleavings

end Postgres

end EthIndexer
