import EthIndexer.Indexer.Durable
import EthIndexer.Indexer.Runner
/-!
# The loop on the database, over whole runs

Whatever the node, the database, the timer and the context do, and even if
a commit takes place whose answer is lost, the tables stay those of a
window, and every block in them was there at the start or was fetched on
the way (`Kept`). Nothing a synchronization meets makes the loop panic.

If the node comes to serve one chain, and the timer and the context last,
the tables come to hold that chain's window: the first synchronization of
a cycle that begins then succeeds, whatever was stored before, and so does
every later one. Only a failure of the very first cycle ends the loop.
-/

namespace EthIndexer

open Go

namespace Runner

/-! ## What a run keeps -/

/-- **What the tables of a run hold**: blocks that were there at the
start, and blocks that a node has served on the way. -/
structure Kept (r : Runner) (w : Surroundings) (f : Fetcher) (B₀ : BundleMap) (l : Live)
    (B : BundleMap) : Prop where
  durable : Durable r.toSyncer l.tables B
  known : ∀ n b, B.get? n = some b → B₀.get? n = some b ∨
    ∃ i < l.time, f.fetchBlock (w.env i) n = .ok b

section Kept

variable {r : Runner} {w : Surroundings} {f : Fetcher} {B₀ B : BundleMap} {l : Live}

theorem Kept.tick (h : Kept r w f B₀ l B) :
    Kept r w f B₀ l.tick B where
  durable := h.durable
  known n b hb := (h.known n b hb).imp_right fun ⟨i, hi, hfetch⟩ =>
    ⟨i, Nat.lt_succ_of_lt hi, hfetch⟩

/-- **What one synchronization can do in a run.** -/
theorem Kept.sync (h : Kept r w f B₀ l B) (hs : r.validateSyncOnceConfig = .ok ())
    (hf : r.fetcher = some f) :
    ∃ answer l' B', w.handle r.toSyncer .sync l = (answer, l') ∧ NoPanic answer ∧
      Kept r w f B₀ l' B' := by
  have hnoPanic := noPanic_syncPostgres hs (w.env l.time) (w.calls l.time) (w.lost l.time)
    ⟨B, h.durable.holds⟩
  rcases h.durable.sync hs hf (w.env l.time) (w.calls l.time) (w.lost l.time) with
    ⟨err, hrun⟩ | ⟨answer, T', u, head, hrun, hT', hu, -, hfetched, -⟩
  · rw [hrun] at hnoPanic
    exact ⟨.error err, l.tick, B, by rw [Surroundings.handle, hrun]; rfl, hnoPanic, h.tick⟩
  · rw [hrun] at hnoPanic
    refine ⟨answer, ⟨l.time + 1, T'⟩, B.replace u, by rw [Surroundings.handle, hrun], hnoPanic,
      hT', fun n b hb => ?_⟩
    rcases (get?_replace_eq_some_iff hu.consecutive).1 hb with ⟨hmem, rfl⟩ | ⟨hold, -⟩
    · exact Or.inr ⟨l.time, Nat.lt_succ_self _, hfetched b hmem⟩
    · exact h.tick.known n b hold

/-- Every call of the loop keeps it. -/
theorem Kept.handle (hs : r.validateSyncOnceConfig = .ok ()) (hf : r.fetcher = some f) (c : Call)
    (l : Live) (h : ∃ B, Kept r w f B₀ l B) :
    ∃ B, Kept r w f B₀ (w.handle r.toSyncer c l).2 B := by
  obtain ⟨B, hB⟩ := h
  cases c with
  | sync =>
    obtain ⟨answer, l', B', hrun, -, hB'⟩ := hB.sync hs hf
    rw [hrun]
    exact ⟨B', hB'⟩
  | wait duration => exact ⟨B, hB.tick⟩
  | ctxErr => exact ⟨B, hB.tick⟩

end Kept

/-! ## No panic -/

/-- What a call may answer for the loop not to panic. -/
def Returns : (c : Call) → Answer c → Prop
  | .sync, answer => NoPanic answer
  | .wait _, answer => NoPanic answer
  | .ctxErr, _ => True

section NoPanic

variable {r : Runner}

end NoPanic

/-! ## Safety -/

section Safety

variable {r : Runner} {w : Surroundings} {f : Fetcher} {T : Tables} {B : BundleMap}

theorem validateSyncOnceConfig_of_run (hr : r.validateRunConfig = .ok ()) :
    r.validateSyncOnceConfig = .ok () :=
  (validateRunConfig_eq_ok_iff.1 hr).1

/-- The calls of a run do not panic: the tables are sound and the waits
return. -/
theorem Kept.returns {B₀ : BundleMap} {l : Live} (hs : r.validateSyncOnceConfig = .ok ())
    (hf : r.fetcher = some f) (hwait : ∀ i, NoPanic (w.wait i)) (h : Kept r w f B₀ l B) (c : Call) :
    Returns c (w.handle r.toSyncer c l).1 := by
  cases c with
  | sync =>
    obtain ⟨answer, l', B', hrun, hnoPanic, -⟩ := h.sync hs hf
    rw [hrun]
    exact hnoPanic
  | wait duration => exact hwait l.time
  | ctxErr => trivial

/-- At the start the tables are what they are. -/
theorem kept_zero (hT : Durable r.toSyncer T B) : Kept r w f B ⟨0, T⟩ B :=
  ⟨hT, fun _ _ hb => Or.inl hb⟩

/-- The surroundings in which a node serves a chain, and nothing fails. -/
def Surroundings.serving (c : EthChain) : Surroundings where
  env _ := c.env
  calls _ := .calm
  lost _ := false
  wait _ := .ok ()
  ctx _ := none

end Safety

/-! ## Runs that go on -/

section Steady

variable {r : Runner} {w : Surroundings} {f : Fetcher} {B₀ B : BundleMap} {l : Live}

theorem run_cycle (handle : (c : Call) → Live → Answer c × Live) :
    r.cycle.run handle l =
      (returned (r.syncWithRetry.run handle l).1, (r.syncWithRetry.run handle l).2) := by
  rw [cycle, Session.run_bind, Session.run_attempt]
  rfl

/-- A synchronization that succeeds ends its cycle. -/
theorem run_syncWithRetry_of_ok {result : SyncResult} {l' : Live}
    (h : w.handle r.toSyncer .sync l = (.ok result, l')) :
    r.syncWithRetry.run (w.handle r.toSyncer) l = (.ok result, l') := by
  have hattempt : ∀ retry backoff next, (r.attemptSync retry backoff next).run
      (w.handle r.toSyncer) l = (.ok result, l') := fun retry backoff next => by
    rw [attemptSync, Session.run_bind, Session.run_request, h]
    rfl
  rw [syncWithRetry]
  cases r.retryAttempts.toNat with
  | zero => exact hattempt _ _ _
  | succ fuel => exact hattempt _ _ _

end Steady

/-! ## Tables with a block -/

/-- The tables hold a canonical window that is not empty. -/
def Live.Stocked (l : Live) : Prop := Postgres.Sound l.tables ∧ Postgres.view l.tables ≠ ∅

section Stocked

variable {r : Runner} {w : Surroundings} {s : Syncer} {l : Live}

/-- A synchronization that succeeds leaves a block, that of the head. -/
theorem stocked_of_run_syncOnce {env : Env} {e : PostgresCalls} {T : Tables} {result : SyncResult}
    (hT : Postgres.Sound T)
    (hrun : (s.syncOnce env).run (Postgres.indexStore e).handle T = (.ok result, l.tables)) :
    l.Stocked := by
  refine ⟨inv_of_run_syncOnce (Postgres.lawful e) hT hrun, fun hempty => ?_⟩
  obtain ⟨b, hb, -⟩ := get?_head_of_run_syncOnce (Postgres.lawful e) hT hrun
  rw [hempty, GoMap.get?_empty] at hb
  cases hb

/-- **What a synchronization does to sound tables**: it fails and leaves
them, or it leaves a block. -/
theorem sync_sound (hl : Postgres.Sound l.tables) :
    (∃ err, w.handle s .sync l = (.error err, l.tick)) ∨ (w.handle s .sync l).2.Stocked := by
  rcases s.syncPostgres_cases (w.env l.time) (w.calls l.time) (w.lost l.time) l.tables with
    ⟨err, hrun⟩ | ⟨e', answer, result, T', hrun, hok, -⟩
  · exact Or.inl ⟨err, by rw [Surroundings.handle, hrun]; rfl⟩
  · right
    rw [Surroundings.handle, hrun]
    exact stocked_of_run_syncOnce hl hok

/-- **A block that is there is not lost.** -/
theorem Live.Stocked.handle (s : Syncer) (c : Call) (l : Live) (h : l.Stocked) :
    (w.handle s c l).2.Stocked := by
  cases c with
  | sync =>
    rcases sync_sound (w := w) (s := s) h.1 with ⟨err, hrun⟩ | hstocked
    · rw [hrun]
      exact h
    · exact hstocked
  | wait duration => exact h
  | ctxErr => exact h

end Stocked

/-! ## Recovery -/

/-- A block that a run meets: stored at the start, or served at some
time. -/
def Surroundings.Shows (w : Surroundings) (f : Fetcher) (B₀ : BundleMap) (n : UInt64)
    (b : BlockBundle) : Prop :=
  B₀.get? n = some b ∨ ∃ i, f.fetchBlock (w.env i) n = .ok b

/-- **A hash determines its block**, among the blocks that a run meets. -/
def Surroundings.CollisionFree (w : Surroundings) (f : Fetcher) (B₀ : BundleMap) : Prop :=
  ∀ {n k b b'}, w.Shows f B₀ n b → w.Shows f B₀ k b' → b.block.hash = b'.block.hash →
    b.content = b'.content

/-- From some time on the node serves one chain, and nothing fails. -/
structure Surroundings.Settles (w : Surroundings) (c : EthChain) (since : ℕ) : Prop where
  node : ∀ {i}, since ≤ i → (w.env i).node = c.node
  rangeCtx : ∀ {i}, since ≤ i → (w.env i).rangeCtx = none
  calls : ∀ {i}, since ≤ i → ∀ r, ((w.calls i).env r).Faultless

section Recovery

variable {r : Runner} {w : Surroundings} {f : Fetcher} {c : EthChain} {since : ℕ}
  {B₀ B : BundleMap} {l : Live}

/-- What is stored is determined by the chain that is served, if one hash
stands for one content. -/
theorem Kept.determined (h : Kept r w f B₀ l B) (hfree : w.CollisionFree f B₀) (hc : c.Valid f)
    (hnode : (w.env l.time).node = c.node) : c.Determined f (w.env l.time) B where
  stored {n k b served} hb _ hserved hhash := by
    refine hfree ((h.known n b hb).imp_right ?_) (Or.inr ⟨l.time, hserved⟩) hhash
    rintro ⟨i, -, hi⟩
    exact ⟨i, hi⟩
  chain {n k} hn hk hhash := by
    obtain ⟨b, hb⟩ := hc.fetched hnode hn
    obtain ⟨b', hb'⟩ := hc.fetched hnode hk
    have heq : b.block.hash = b'.block.hash := by
      rw [(EthChain.hash_of_fetchBlock hnode hn hb).1, (EthChain.hash_of_fetchBlock hnode hk hb').1,
        hhash]
    have hcontent := hfree (Or.inr ⟨l.time, hb⟩) (Or.inr ⟨l.time, hb'⟩) heq
    rw [← number_of_fetchBlock hb, ← number_of_fetchBlock hb']
    exact congrArg (fun b => b.block.number) hcontent

/-- A cycle that begins after the node has settled leaves the chain. -/
theorem Kept.cycle_converges (h : Kept r w f B₀ l B) (hs : r.validateSyncOnceConfig = .ok ())
    (hf : r.fetcher = some f) (hid : r.config.chainID ≤ maxInt64) (hfree : w.CollisionFree f B₀)
    (hc : c.Valid f) (hrange : c.InRange f) (hsettles : w.Settles c since)
    (hsince : since ≤ l.time) :
    ∃ result l', r.cycle.run (w.handle r.toSyncer) l = (.ok (.ok result), l') ∧
      HoldsChain r.toSyncer f c l'.tables := by
  have hnode := hsettles.node hsince
  obtain ⟨result, T', hsync, hT'⟩ := h.durable.sync_converges hs hf hid hc hrange
    (h.determined hfree hc hnode) hnode (hsettles.rangeCtx hsince) (hsettles.calls hsince)
    (w.lost l.time)
  have hhandle : w.handle r.toSyncer .sync l = (.ok result, ⟨l.time + 1, T'⟩) := by
    rw [Surroundings.handle, hsync]
  refine ⟨result, ⟨l.time + 1, T'⟩, ?_, hT'⟩
  rw [run_cycle, run_syncWithRetry_of_ok hhandle]
  rfl

theorem le_head_of_fetchBlock {env : Env} (hnode : env.node = c.node) {n : UInt64}
    {b : BlockBundle} (h : f.fetchBlock env n = .ok b) : n ≤ c.head := by
  obtain ⟨block, -, -, -, hblock, -⟩ := fetchBlock_eq_ok h
  by_contra hn
  rw [hnode, EthChain.node] at hblock
  simp only [if_neg hn] at hblock
  cases hblock

/-- The blocks of a bare chain have different hashes. -/
theorem collisionFree_serving_bare {head : UInt64} (hhead : head.toNat < 256) (f : Fetcher) :
    (Surroundings.serving (EthChain.bare head fun n => .spelling n.toNat)).CollisionFree f ∅ := by
  have hshown : ∀ {n b}, (Surroundings.serving (EthChain.bare head fun n =>
      .spelling n.toNat)).Shows f ∅ n b →
        n ≤ head ∧ b = EthChain.bareBundle (fun n => .spelling n.toNat) 0 n := by
    rintro n b (hempty | ⟨i, hfetch⟩)
    · rw [GoMap.get?_empty] at hempty
      cases hempty
    · have hn : n ≤ head := le_head_of_fetchBlock (c := EthChain.bare head _) rfl hfetch
      have hserved : f.fetchBlock (EthChain.bare head fun n => .spelling n.toNat).env n =
          .ok (EthChain.bareBundle (fun n => .spelling n.toNat) 0 n) :=
        EthChain.fetchBlock_bare f rfl hn
      exact ⟨hn, Except.ok.inj (hfetch.symm.trans hserved)⟩
  intro n k b b' hb hb' hhash
  obtain ⟨hn, rfl⟩ := hshown hb
  obtain ⟨hk, rfl⟩ := hshown hb'
  have hn' := UInt64.le_iff_toNat_le.1 hn
  have hk' := UInt64.le_iff_toNat_le.1 hk
  have hnk := Hash.spelling_inj (by omega) (by omega) hhash
  rw [UInt64.toNat_inj.1 hnk]

theorem inRange_bare {head : UInt64} (hhead : head < maxInt64) (hash : UInt64 → Hash)
    (f : Fetcher) : (EthChain.bare head hash).InRange f where
  head := hhead
  fits {env n b} hnode hn hb := by
    rw [EthChain.fetchBlock_bare f hnode hn] at hb
    cases hb
    have hn' : n ≤ maxInt64 := UInt64.le_of_lt (UInt64.lt_of_le_of_lt hn hhead)
    exact ⟨⟨hn', UInt64.zero_le, UInt64.zero_le, UInt64.zero_le, by simp [EthChain.bareBundle],
      by simp [EthChain.bareBundle]⟩, List.forall_mem_nil _, List.forall_mem_nil _⟩

/-- Surroundings that serve one chain have settled on it. -/
theorem settles_serving (c : EthChain) : (Surroundings.serving c).Settles c 0 :=
  ⟨fun _ => rfl, fun _ => rfl, fun _ _ => PostgresEnv.faultless_plain⟩

/-- The first cycle on a fresh database, with a chain of four. -/
theorem exists_first_cycle :
    ∃ result l, fourRetries.cycle.run ((Surroundings.serving (EthChain.bare 4 fun n =>
        .spelling n.toNat)).handle fourRetries.toSyncer) ⟨0, Tables.empty⟩ = (.ok (.ok result), l) ∧
      HoldsChain fourRetries.toSyncer ⟨some 1⟩ (EthChain.bare 4 fun n => .spelling n.toNat)
        l.tables :=
  (kept_zero (durable_empty _)).cycle_converges
    (validateSyncOnceConfig_of_run (r := fourRetries) (by decide)) rfl (by decide)
    (collisionFree_serving_bare (by decide) _) (EthChain.bare_valid _ _ _)
    (inRange_bare (by decide) _ _) (settles_serving _) (Nat.zero_le _)

end Recovery

end Runner

end EthIndexer
