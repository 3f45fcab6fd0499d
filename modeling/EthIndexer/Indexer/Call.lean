import EthIndexer.Indexer.Search
/-!
# One call of a synchronization

A call that nobody interrupts is the sequence of its steps: the reads, the
plan, the fetch, the update. `run_syncOnce_eq_ok_iff` says when it
succeeds, and `run_syncOnce_ok` what it then did to a store with the laws
of `LawfulStore`; a call that fails has changed nothing.
-/

namespace EthIndexer

variable {σ : Type} {S : IndexStore σ} {s : Syncer} {env : Env} {st st' : σ}

/-- **How a synchronization succeeds**, step by step. -/
theorem run_syncOnce_eq_ok_iff {result : SyncResult} :
    (s.syncOnce env).run S.handle st = (.ok result, st') ↔
      ∃ header headNumber storedTip plan st₁ bundles,
        s.validateSyncOnceConfig = .ok () ∧ s.config.selectedHead env.node = .ok header ∧
        validHeaderNumber header = .ok headNumber ∧ S.canonicalTip st = .ok storedTip ∧
        (replacementStart env.node storedTip headNumber header.hash
          (windowStart headNumber s.config.blockWindow)).run S.handle st = (.ok plan, st₁) ∧
        s.fetchCanonical env plan.replaceFrom headNumber header.hash = .ok bundles ∧
        S.applyCanonicalUpdate
          { chainID := s.config.chainID, replaceFrom := plan.replaceFrom
            retainFrom := windowStart headNumber s.config.blockWindow
            blocks := bundles, syncedAt := env.now } st₁ = (.ok (), st') ∧
        result =
          { head := { number := headNumber, hash := header.hash }, storedTip := storedTip
            mode := plan.mode, fromBlock := windowStart headNumber s.config.blockWindow
            replaceFrom := plan.replaceFrom, blockCount := bundles.length
            transactionCount := (bundles.map fun b => b.transactions.length).sum
            eventCount := (bundles.map fun b => b.events.length).sum
            syncedAt := env.now, reorg := plan.reorg } := by
  simp only [Syncer.syncOnce, Session.run_bind_eq_ok_iff, Session.run_lift, Session.run_request,
    IndexStore.handle, Prod.mk.injEq, Session.pure_eq, Session.run_ret, Except.ok.injEq,
    Go.wrap_eq_ok_iff]
  constructor
  · rintro ⟨_, _, ⟨hvalid, rfl⟩, header, _, ⟨hhead, rfl⟩, n, _, ⟨hn, rfl⟩, tip, _, ⟨htip, rfl⟩, plan,
      st₁, hplan, bundles, _, ⟨hfetch, rfl⟩, _, _, ⟨happ, happ'⟩, hresult, rfl⟩
    exact ⟨header, n, tip, plan, st₁, bundles, hvalid, hhead, hn, htip, hplan, hfetch,
      Prod.ext happ happ', hresult.symm⟩
  · rintro ⟨header, n, tip, plan, st₁, bundles, hvalid, hhead, hn, htip, hplan, hfetch, happ, rfl⟩
    exact ⟨(), st, ⟨hvalid, rfl⟩, header, st, ⟨hhead, rfl⟩, n, st, ⟨hn, rfl⟩, tip, st, ⟨htip, rfl⟩,
      plan, st₁, hplan, bundles, st₁, ⟨hfetch, rfl⟩, (), st', ⟨congrArg Prod.fst happ,
      congrArg Prod.snd happ⟩, rfl, rfl⟩

theorem run_replacementStart_snd {node : Node} {tip : Option ChainTip} {headNumber : UInt64}
    {headHash : Hash} {retainFrom : UInt64} :
    ((replacementStart node tip headNumber headHash retainFrom).run S.handle st).2 = st := by
  refine Session.run_snd_of_forall (forall_replacementStart fun r k hr s => ?_) st
  cases r with
  | canonicalTip => rfl
  | canonicalHash => rfl
  | applyCanonicalUpdate => exact hr.elim

/-- Two stores that answer the reads alike. -/
structure SameReads (S S' : IndexStore σ) : Prop where
  tip : ∀ st, S'.canonicalTip st = S.canonicalTip st
  hash : ∀ n st, S'.canonicalHash n st = S.canonicalHash n st

theorem SameReads.run_replacementStart {S' : IndexStore σ} (h : SameReads S S') {node : Node}
    {tip : Option ChainTip} {headNumber : UInt64} {headHash : Hash} {retainFrom : UInt64} :
    (replacementStart node tip headNumber headHash retainFrom).run S'.handle st =
      (replacementStart node tip headNumber headHash retainFrom).run S.handle st := by
  refine Session.run_congr (forall_replacementStart fun r k hr st => ?_) st
  cases r with
  | canonicalTip => exact Prod.ext (h.tip st) rfl
  | canonicalHash n => exact Prod.ext (h.hash n st) rfl
  | applyCanonicalUpdate => exact hr.elim

/-- **What the reads of a synchronization decide**: it fails and leaves
the store, or it comes to one update, and returns by the answer to it. -/
theorem run_syncOnce_of_reads (s : Syncer) (env : Env) (S : IndexStore σ) (st : σ) :
    (∃ err, ∀ S', SameReads S S' → (s.syncOnce env).run S'.handle st = (.error err, st)) ∨
    ∃ u context result, ∀ S', SameReads S S' → (s.syncOnce env).run S'.handle st =
      (((S'.applyCanonicalUpdate u st).1.wrap context).map fun _ => result,
        (S'.applyCanonicalUpdate u st).2) := by
  simp only [Syncer.syncOnce, Session.run_bind, Session.run_lift, Session.run_request,
    IndexStore.handle]
  cases s.validateSyncOnceConfig with
  | error err => exact Or.inl ⟨err, fun _ _ => rfl⟩
  | ok _ =>
  cases s.config.selectedHead env.node with
  | error err => exact Or.inl ⟨err, fun _ _ => rfl⟩
  | ok header =>
  cases hnumber : validHeaderNumber header with
  | error err => exact Or.inl ⟨err, fun S' _ => by simp only [hnumber]⟩
  | ok headNumber =>
  cases htip : (S.canonicalTip st).wrap "read stored canonical tip" with
  | error err => exact Or.inl ⟨err, fun S' h => by simp only [hnumber, h.tip, htip]⟩
  | ok tip =>
  rcases hplan : (replacementStart env.node tip headNumber header.hash
    (windowStart headNumber s.config.blockWindow)).run S.handle st with ⟨err | plan, st₁⟩
  all_goals
    obtain rfl : st₁ = st := (congrArg Prod.snd hplan).symm.trans run_replacementStart_snd
  · exact Or.inl ⟨err, fun S' h => by
      simp only [hnumber, h.tip, htip, h.run_replacementStart, hplan]⟩
  · cases hfetch : s.fetchCanonical env plan.replaceFrom headNumber header.hash with
    | error err => exact Or.inl ⟨err, fun S' h => by
        simp only [hnumber, h.tip, htip, h.run_replacementStart, hplan, hfetch]⟩
    | ok bundles =>
      refine Or.inr ⟨{ chainID := s.config.chainID, replaceFrom := plan.replaceFrom
                       retainFrom := windowStart headNumber s.config.blockWindow
                       blocks := bundles, syncedAt := env.now },
        s!"apply canonical update from block {plan.replaceFrom}",
        { head := { number := headNumber, hash := header.hash }, storedTip := tip
          mode := plan.mode, fromBlock := windowStart headNumber s.config.blockWindow
          replaceFrom := plan.replaceFrom, blockCount := bundles.length
          transactionCount := (bundles.map fun b => b.transactions.length).sum
          eventCount := (bundles.map fun b => b.events.length).sum
          syncedAt := env.now, reorg := plan.reorg }, fun S' h => ?_⟩
      simp only [hnumber, h.tip, htip, h.run_replacementStart, hplan, hfetch]
      generalize S'.applyCanonicalUpdate _ st₁ = outcome
      obtain ⟨_ | _, _⟩ := outcome <;> rfl

/-- **A failed synchronization leaves the store as it was**, if a failed
update does. -/
theorem run_syncOnce_error (happly : ∀ {s s' u err},
    S.applyCanonicalUpdate u s = (.error err, s') → s' = s) {err : Fault}
    (h : (s.syncOnce env).run S.handle st = (.error err, st')) : st' = st := by
  have hsame : SameReads S S := ⟨fun _ => rfl, fun _ _ => rfl⟩
  rcases run_syncOnce_of_reads s env S st with ⟨err', hrun⟩ | ⟨u, context, result, hrun⟩
  · cases (hrun S hsame).symm.trans h
    rfl
  · have houtcome := (hrun S hsame).symm.trans h
    rcases happ : S.applyCanonicalUpdate u st with ⟨e | _, st₁⟩
    · rw [happ] at houtcome
      cases houtcome
      exact happly happ
    · rw [happ] at houtcome
      cases houtcome

/-- **What a successful synchronization did to a lawful store.** -/
theorem run_syncOnce_ok {view : σ → BundleMap} {inv : σ → Prop} (hS : LawfulStore S view inv)
    (hst : inv st) {result : SyncResult}
    (h : (s.syncOnce env).run S.handle st = (.ok result, st')) :
    ∃ u, Fits s.config result.head u ∧ result.fromBlock = u.retainFrom ∧
      S.applyCanonicalUpdate u st = (.ok (), st') ∧
      ((u.replaceFrom = u.retainFrom ∧ ∀ n, ¬ Confirmed (view st) env.node result.head.number
          result.head.hash u.retainFrom n) ∨
        ∃ n, Confirmed (view st) env.node result.head.number result.head.hash u.retainFrom n ∧
          u.replaceFrom.toNat = n.toNat + 1) := by
  obtain ⟨header, headNumber, storedTip, plan, st₁, bundles, hvalid, -, -, htip, hplan, hfetch,
    happ, rfl⟩ := run_syncOnce_eq_ok_iff.1 h
  obtain ⟨-, -, -, -, hwindow, -⟩ := validateSyncOnceConfig_eq_ok_iff.1 hvalid
  have hbounds := (ensures_replacementStart storedTip (windowStart_le hwindow)).run hplan
  have hcases := confirmed_of_run_replacementStart hS hst htip hplan
  obtain ⟨rfl, -⟩ := run_replacementStart_eq_ok hS hst htip hplan
  exact ⟨_, fits_of_fetchCanonical ⟨headNumber, header.hash⟩ hbounds hfetch, rfl, happ, hcases⟩

/-- A successful call keeps what the laws rest on. -/
theorem inv_of_run_syncOnce {view : σ → BundleMap} {inv : σ → Prop} (hS : LawfulStore S view inv)
    (hst : inv st) {result : SyncResult}
    (hcall : (s.syncOnce env).run S.handle st = (.ok result, st')) : inv st' := by
  obtain ⟨u, -, -, happ, -⟩ := run_syncOnce_ok hS hst hcall
  exact (hS.apply_ok hst happ).1

end EthIndexer
