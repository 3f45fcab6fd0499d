import EthIndexer.Common.Batching
import EthIndexer.Common.Trace
import EthIndexer.Store.Model.Batches
import EthIndexer.Store.Postgres
/-!
# What the batches hold

The nested loops queue what one loop over all the statements queues
(`insertCanonicalBundles_eq`), and that loop sends the `batches` of the
queue: `sendEach` is the program that remains, one call a batch, and its
runs are easy to say for any outcomes.

`insertCanonicalBundles` of the tables' model is the run in which the
database executes each batch (`insertCanonicalBundles_eq_run`).
-/

namespace EthIndexer

namespace Postgres

namespace Batches

open Session Go

variable {bundles : List BlockBundle} {stmts : List Statement}

/-! ## One loop -/

/-- Queueing values, or the statements they become. -/
theorem queueEach_map {α : Type} (queue : α → Go Statement) (batch : List Statement)
    (values : List α) : queueEach queue batch values = queueEach id batch (values.map queue) := by
  induction values generalizing batch with
  | nil => rfl
  | cons value values ih =>
    simp only [List.map_cons, queueEach, ih, id]

theorem queueEach_append (batch : List Statement) (first second : List (Go Statement)) :
    queueEach id batch (first ++ second) =
      queueEach id batch first >>= fun batch => queueEach id batch second := by
  induction first generalizing batch with
  | nil => rfl
  | cons q first ih => simp only [List.cons_append, queueEach, ih, bind_assoc]

/-- **The nested loops are one loop over the statements.** -/
theorem queueBundles_eq (batch : List Statement) (bundles : List BlockBundle) :
    queueBundles batch bundles = queueEach id batch (bundles.flatMap queueBundle) := by
  induction bundles generalizing batch with
  | nil => rfl
  | cons bundle bundles ih =>
    have htransactions : ∀ batch, queueTransactions batch bundle.transactions =
        queueEach id batch (bundle.transactions.map _) := fun batch => queueEach_map _ batch _
    have hevents : ∀ batch, queueEvents batch bundle.events =
        queueEach id batch (bundle.events.map _) := fun batch => queueEach_map _ batch _
    simp only [queueBundles, htransactions, hevents, ih]
    rw [List.flatMap_cons, queueBundle, List.cons_append, List.append_assoc, queueEach]
    simp only [queueEach_append, id]

/-- **An insertion is one queue, sent in batches**, over all its
bundles. -/
theorem insertCanonicalBundles_eq (bundles : List BlockBundle) :
    insertCanonicalBundles bundles =
      queueEach id [] (bundles.flatMap queueBundle) >>= sendCanonicalBatch := by
  unfold insertCanonicalBundles
  split
  · rename_i hnil
    rw [List.length_eq_zero_iff.1 hnil]
    rfl
  · rw [queueBundles_eq]

/-! ## One call a batch -/

/-- Send these batches, and go on unless one fails. -/
def sendEach : List (List Statement) → Sends Unit → Sends Unit
  | [], next => next
  | batch :: rest, next => do
    Session.request batch fun answer => answer.wrap "insert canonical bundles"
    sendEach rest next

theorem sendEach_append (first second : List (List Statement)) (next : Sends Unit) :
    sendEach (first ++ second) next = sendEach first (sendEach second next) := by
  induction first with
  | nil => rfl
  | cons batch first ih => rw [List.cons_append, sendEach, sendEach, ih]

/-- Queueing sends the batches that are full. -/
theorem queueEach_ok (batch stmts : List Statement) (rest : List (Go Statement)) :
    (queueEach id batch (stmts.map .ok ++ rest) >>= sendCanonicalBatch) =
      sendEach (fill canonicalBatchQueryLimit batch stmts).1
        (queueEach id (fill canonicalBatchQueryLimit batch stmts).2 rest >>=
          sendCanonicalBatch) := by
  induction stmts generalizing batch with
  | nil => rfl
  | cons s stmts ih =>
    simp only [List.map_cons, List.cons_append, queueEach, fill, bind_assoc]
    change flushFull (batch ++ [s]) >>= _ = _
    unfold flushFull
    split
    · have hsend : sendCanonicalBatch (batch ++ [s]) =
          request (batch ++ [s]) fun answer => answer.wrap "insert canonical bundles" :=
        if_neg (by simp)
      rw [sendEach, ← ih, hsend, bind_assoc]
      rfl
    · exact ih _

/-- The last batch is sent unless it is empty. -/
theorem sendCanonicalBatch_eq (batch : List Statement) :
    sendCanonicalBatch batch = sendEach (lastBatch batch) (.lift (.ok ())) := by
  rcases lastBatch_cases batch with ⟨rfl, hlast⟩ | ⟨hne, hlast⟩
  · rfl
  · rw [hlast, sendCanonicalBatch, if_neg (by simpa using hne), sendEach, request, call_bind]
    congr 1
    funext answer
    cases answer <;> rfl

/-- **Statements that all convert** are sent in their batches. -/
theorem insertCanonicalBundles_of_ok (h : bundles.flatMap queueBundle = stmts.map .ok) :
    insertCanonicalBundles bundles =
      sendEach (batches canonicalBatchQueryLimit stmts) (.lift (.ok ())) := by
  have hqueue := queueEach_ok [] stmts []
  rw [List.append_nil] at hqueue
  rw [insertCanonicalBundles_eq, h, hqueue, batches, sendEach_append, ← sendCanonicalBatch_eq]
  rfl

/-- A value that does not convert ends the queueing; what is left by then
is not sent. -/
theorem insertCanonicalBundles_of_error {err : Fault} {rest : List (Go Statement)}
    (h : bundles.flatMap queueBundle = stmts.map .ok ++ .error err :: rest) :
    insertCanonicalBundles bundles =
      sendEach (fill canonicalBatchQueryLimit [] stmts).1 (.lift (.error err)) := by
  rw [insertCanonicalBundles_eq, h, queueEach_ok]
  rfl

/-- The values convert, up to the first one that does not. -/
theorem exists_eq_map_ok (queued : List (Go Statement)) :
    (∃ stmts : List Statement, queued = stmts.map .ok) ∨
      ∃ (stmts : List Statement) (err : Fault) (rest : List (Go Statement)),
        queued = stmts.map .ok ++ .error err :: rest := by
  induction queued with
  | nil => exact Or.inl ⟨[], rfl⟩
  | cons q queued ih =>
    cases q with
    | error err => exact Or.inr ⟨[], err, queued, rfl⟩
    | ok s =>
      rcases ih with ⟨stmts, rfl⟩ | ⟨stmts, err, rest, rfl⟩
      · exact Or.inl ⟨s :: stmts, rfl⟩
      · exact Or.inr ⟨s :: stmts, err, rest, rfl⟩

/-! ## What is sent -/

/-- A batch and its outcome. -/
abbrev Sending := Session.Event (List Statement) fun _ => Go Unit

/-- How the insert ends and the batches it sends, if the `i`-th batch ends
with `outcomes i`. -/
def sent (bundles : List BlockBundle) (outcomes : ℕ → Go Unit) :
    Go Unit × List (List Statement) :=
  let run := (insertCanonicalBundles bundles).recorded fun time _ => outcomes time
  (run.1, run.2.map Sigma.fst)

section Sent

variable {groups : List (List Statement)} {answer : Go Unit} {outcomes : ℕ → Go Unit}

/-- Batches that all succeed, and what comes after. -/
theorem traces_sendEach {next : Sends Unit} {t : List Sending} (h : next.Traces t answer) :
    (sendEach groups next).Traces (groups.map (⟨·, .ok ()⟩) ++ t) answer := by
  induction groups with
  | nil => exact h
  | cons group groups ih =>
    exact traces_request_bind.2 ⟨.ok (), _, rfl, Or.inr ⟨(), rfl, ih⟩⟩

theorem answeredFrom_ok (hok : ∀ i < groups.length, outcomes i = .ok ()) :
    AnsweredFrom (fun time _ => outcomes time) 0
      (groups.map (⟨·, .ok ()⟩) : List Sending) := by
  refine answeredFrom_iff.2 fun i e he => ?_
  obtain ⟨hi, rfl⟩ := List.getElem?_eq_some_iff.1 he
  rw [List.length_map] at hi
  rw [Nat.zero_add, hok i hi, List.getElem_map]

/-- What is sent where every batch succeeds. -/
theorem sent_of_ok (h : insertCanonicalBundles bundles = sendEach groups (.lift answer))
    (hok : ∀ i < groups.length, outcomes i = .ok ()) :
    sent bundles outcomes = (answer, groups) := by
  have htraces : (insertCanonicalBundles bundles).Traces (groups.map (⟨·, .ok ()⟩) ++ []) answer :=
    h ▸ traces_sendEach ⟨rfl, rfl⟩
  rw [List.append_nil] at htraces
  rw [sent, recorded_eq_iff.2 ⟨htraces, answeredFrom_ok hok⟩]
  simp [Function.comp_def]

/-- A batch that fails is the last one. -/
theorem sent_of_error (h : insertCanonicalBundles bundles = sendEach groups (.lift answer)) {k : ℕ}
    {err : Fault} (hk : k < groups.length) (hok : ∀ i < k, outcomes i = .ok ())
    (herr : outcomes k = .error err) :
    sent bundles outcomes =
      (.error (err.wrap "insert canonical bundles"), groups.take (k + 1)) := by
  have hsplit : groups = groups.take k ++ groups[k] :: groups.drop (k + 1) := by simp
  have htraces : (insertCanonicalBundles bundles).Traces
      ((groups.take k).map (⟨·, .ok ()⟩) ++ [⟨groups[k], .error err⟩])
      (.error (err.wrap "insert canonical bundles")) := by
    rw [h]
    nth_rewrite 1 [hsplit]
    rw [sendEach_append]
    exact traces_sendEach (traces_request_bind.2
      ⟨.error err, [], rfl, Or.inl ⟨_, rfl, rfl, rfl⟩⟩)
  have hlength : (groups.take k).length = k := List.length_take_of_le (Nat.le_of_lt hk)
  have hanswered : AnsweredFrom (fun time _ => outcomes time) 0
      ((groups.take k).map (⟨·, .ok ()⟩) ++ [⟨groups[k], .error err⟩] : List Sending) := by
    refine answeredFrom_append.2 ⟨answeredFrom_ok fun i hi => hok i (hlength ▸ hi), ?_, trivial⟩
    rw [List.length_map, hlength, Nat.zero_add]
    exact herr.symm
  rw [sent, recorded_eq_iff.2 ⟨htraces, hanswered⟩]
  simp [Function.comp_def]

end Sent

/-- The statement a row is queued as. -/
def queuedAs {α : Type} (statement : α → Statement) (row : Go α) : Go Statement := do
  return statement (← row)

theorem exists_row_of_mem {α : Type} {statement : α → Statement} {row : Go α}
    (h : queuedAs statement row ∈ stmts.map Except.ok) :
    ∃ r, row = .ok r ∧ statement r ∈ stmts := by
  obtain ⟨s, hs, hrow⟩ := List.mem_map.1 h
  obtain ⟨r, hr, hs'⟩ := bind_eq_ok_iff.1 hrow.symm
  cases hs'
  exact ⟨r, hr, hs⟩

/-- In the queue of a bundle an event comes after its block and after its
transaction. -/
theorem queueBundle_split {b : BlockBundle} {es es' : List Event} {e : Event}
    (he : b.events = es ++ e :: es') :
    ∃ pre post, queueBundle b = pre ++ queuedAs .insertEvent (queueEvent e) :: post ∧
      queuedAs .insertBlock (queueBlock b.block) ∈ pre ∧
      ∀ t ∈ b.transactions, queuedAs .insertTransaction (queueTransaction t) ∈ pre := by
  have hqueue : queueBundle b = queuedAs .insertBlock (queueBlock b.block) ::
      (b.transactions.map (fun t => queuedAs .insertTransaction (queueTransaction t)) ++
        b.events.map fun e => queuedAs .insertEvent (queueEvent e)) := rfl
  rw [he, List.map_append, List.map_cons, ← List.append_assoc, ← List.cons_append] at hqueue
  exact ⟨_, _, hqueue, List.mem_cons_self, fun t ht =>
    List.mem_cons_of_mem _ (List.mem_append_left _ (List.mem_map_of_mem ht))⟩

/-- **The block and the transactions of an event come before it.** -/
theorem split_at_event (h : bundles.flatMap queueBundle = stmts.map .ok)
    {before after : List BlockBundle} {b : BlockBundle} {es es' : List Event} {e : Event}
    (hb : bundles = before ++ b :: after) (he : b.events = es ++ e :: es') :
    ∃ pre row post, stmts = pre ++ .insertEvent row :: post ∧ queueEvent e = .ok row ∧
      (∃ row, queueBlock b.block = .ok row ∧ .insertBlock row ∈ pre) ∧
      ∀ t ∈ b.transactions, ∃ row, queueTransaction t = .ok row ∧
        .insertTransaction row ∈ pre := by
  obtain ⟨first, second, hqueue, hblock, htransactions⟩ := queueBundle_split he
  rw [hb, List.flatMap_append, List.flatMap_cons, hqueue, List.append_assoc, ← List.append_assoc,
    List.cons_append] at h
  obtain ⟨pre, rest, rfl, hpre, hrest⟩ := List.map_eq_append_iff.1 h.symm
  obtain ⟨s, post, rfl, hs, -⟩ := List.map_eq_cons_iff.1 hrest
  obtain ⟨row, hrow, hs⟩ := bind_eq_ok_iff.1 hs.symm
  cases hs
  exact ⟨pre, row, post, rfl, hrow,
    exists_row_of_mem (hpre ▸ List.mem_append_right _ hblock), fun t ht =>
      exists_row_of_mem (hpre ▸ List.mem_append_right _ (htransactions t ht))⟩

/-- **Batching changes nothing but the grouping.** -/
theorem sent_batched (bundles : List BlockBundle) :
    let queued := bundles.flatMap queueBundle
    let all := sent bundles fun _ => .ok ()
    -- without a failure every statement is sent, once and in order
    (∀ stmts, queued = stmts.map .ok → all.1 = .ok () ∧
      Batched canonicalBatchQueryLimit stmts all.2 ∧
      ∀ before b after es e es', bundles = before ++ b :: after → b.events = es ++ e :: es' →
        ∃ pre row post, all.2.flatten = pre ++ .insertEvent row :: post ∧
          queueEvent e = .ok row ∧
          (∃ row, queueBlock b.block = .ok row ∧ .insertBlock row ∈ pre) ∧
          ∀ t ∈ b.transactions, ∃ row, queueTransaction t = .ok row ∧
            .insertTransaction row ∈ pre) ∧
    -- a value the columns do not hold ends it with a panic, after full batches
    (∀ stmts err rest, queued = stmts.map .ok ++ .error err :: rest → all.1 = .error err ∧
      all.2.flatten <+: stmts ∧ ∀ batch ∈ all.2, batch.length = canonicalBatchQueryLimit) ∧
    -- a batch that fails is the last one of the same batches
    (∀ outcomes k err, k < all.2.length → (∀ i < k, outcomes i = .ok ()) →
      outcomes k = .error err → sent bundles outcomes =
        (.error (err.wrap "insert canonical bundles"), all.2.take (k + 1))) ∧
    ∀ outcomes, (∀ i < all.2.length, outcomes i = .ok ()) → sent bundles outcomes = all := by
  intro queued all
  have hlimit : 0 < canonicalBatchQueryLimit := by decide
  refine ⟨fun stmts h => ?_, fun stmts err rest h => ?_, ?_⟩
  · have hall : all = (.ok (), batches canonicalBatchQueryLimit stmts) :=
      sent_of_ok (insertCanonicalBundles_of_ok h) fun _ _ => rfl
    have hbatched := batched_batches hlimit stmts
    rw [hall]
    refine ⟨rfl, hbatched, fun before b after es e es' hb he => ?_⟩
    rw [hbatched.flatten_eq]
    exact split_at_event h hb he
  · have hall : all = (.error err, (fill canonicalBatchQueryLimit [] stmts).1) :=
      sent_of_ok (insertCanonicalBundles_of_error h) fun _ _ => rfl
    rw [hall]
    exact ⟨rfl, ⟨_, flatten_fill canonicalBatchQueryLimit [] stmts⟩,
      (fill_length [] stmts hlimit).1⟩
  · obtain ⟨groups, answer, hsend⟩ : ∃ groups answer,
        insertCanonicalBundles bundles = sendEach groups (.lift answer) := by
      rcases exists_eq_map_ok queued with ⟨stmts, h⟩ | ⟨stmts, err, rest, h⟩
      · exact ⟨_, _, insertCanonicalBundles_of_ok h⟩
      · exact ⟨_, _, insertCanonicalBundles_of_error h⟩
    have hall : all = (answer, groups) := sent_of_ok hsend fun _ _ => rfl
    rw [hall]
    exact ⟨fun outcomes k err hk hok herr => sent_of_error hsend hk hok herr,
      fun outcomes hok => sent_of_ok hsend hok⟩

/-- A block with two events is one batch, which may fail. -/
theorem sent_batched_seven :
    let stmts := putSeven.blocks.flatMap bundleStatements
    let all := sent putSeven.blocks fun _ => .ok ()
    all.1 = .ok () ∧ Batched canonicalBatchQueryLimit stmts all.2 ∧
      all.2.map List.length = [4] ∧
      sent putSeven.blocks (fun _ => .error (.error [] "closed")) =
        (.error (.error [] "insert canonical bundles: closed"), all.2.take 1) := by
  obtain ⟨hconverted, -, hfailed, -⟩ := sent_batched putSeven.blocks
  obtain ⟨hok, hbatched, -⟩ := hconverted (putSeven.blocks.flatMap bundleStatements) (by rfl)
  exact ⟨hok, hbatched, by rfl, hfailed _ 0 (.error [] "closed") (by decide) nofun rfl⟩

/-! ## The database -/

/-- The database executes a batch, as the `i`-th one. -/
def execBatch (env : PostgresEnv) (i : ℕ) (batch : List Statement) (T : Tables) : Go Tables :=
  match env.fault (.batch i) with
  | some text => .error (.error [] text)
  | none => batch.foldlM Tables.execute T

/-- The database as the one who answers; it counts the batches. -/
def transact (env : PostgresEnv) (batch : List Statement) (s : ℕ × Tables) :
    Go Unit × ℕ × Tables :=
  match execBatch env s.1 batch s.2 with
  | .ok T => (.ok (), s.1 + 1, T)
  | .error err => (.error err, s.1 + 1, s.2)

/-- The tables a run leaves if it succeeds. -/
def committed (run : Go Unit × ℕ × Tables) : Go Tables := do
  run.1
  return run.2.2

section Database

variable {env : PostgresEnv} {batch : List Statement} {i : ℕ} {T : Tables}

theorem sendCanonicalBatch_eq_execBatch (h : batch ≠ []) :
    Postgres.sendCanonicalBatch env i batch T =
      (execBatch env i batch T).wrap "insert canonical bundles" := by
  rw [Postgres.sendCanonicalBatch, if_neg (by simpa using h), execBatch, PostgresEnv.call]
  cases env.fault (.batch i) <;> rfl

/-- A batch is executed before the program goes on. -/
theorem committed_send_bind (h : batch ≠ []) (next : Unit → Sends Unit) :
    committed ((sendCanonicalBatch batch >>= next).run (transact env) (i, T)) =
      Postgres.sendCanonicalBatch env i batch T >>= fun T =>
        committed ((next ()).run (transact env) (i + 1, T)) := by
  rw [sendCanonicalBatch_eq_execBatch h, sendCanonicalBatch, if_neg (by simpa using h), run_bind,
    run_request, transact]
  cases execBatch env i batch T <;> rfl

theorem committed_send : committed ((sendCanonicalBatch batch).run (transact env) (i, T)) =
    Postgres.sendCanonicalBatch env i batch T := by
  by_cases h : batch = []
  · subst h
    rfl
  · rw [sendCanonicalBatch_eq_execBatch h, sendCanonicalBatch, if_neg (by simpa using h),
      run_request, transact]
    cases execBatch env i batch T <;> rfl

/-- **Batches on the tables are the sends of the source**, one after the
other. -/
theorem sendQueued_eq_run (queued : List (Go Statement)) :
    sendQueued env i batch queued T =
      committed ((queueEach id batch queued >>= sendCanonicalBatch).run (transact env) (i, T)) := by
  induction queued generalizing i batch T with
  | nil => exact committed_send.symm
  | cons q queued ih =>
    cases q with
    | error err => rfl
    | ok s =>
      simp only [queueEach, bind_assoc]
      change _ = committed ((flushFull (batch ++ [s]) >>= _).run _ _)
      rw [sendQueued]
      change (if (batch ++ [s]).length ≥ canonicalBatchQueryLimit then _ else _) = _
      unfold flushFull
      split
      · rw [bind_assoc, committed_send_bind (by simp)]
        exact bind_congr fun T' => ih
      · exact ih

/-- **The insert of the tables' model** is the one that the database
answers. -/
theorem insertCanonicalBundles_eq_run (bundles : List BlockBundle) :
    Postgres.insertCanonicalBundles env bundles T =
      committed ((insertCanonicalBundles bundles).run (transact env) (0, T)) := by
  rw [insertCanonicalBundles_eq]
  exact sendQueued_eq_run _

end Database

end Batches

end Postgres

end EthIndexer
