import EthIndexer.Indexer.Writers
/-!
# Restarting with another window

The window size is configuration, so a store filled under one size is met
by a syncer with another. The plan never looks at the lowest stored block:
where the node confirms a stored height, everything stored below it is
kept, and nothing fetches what a larger window would want below that. The
reported window is then stored exactly when its start already was.

This is proved of every store that has the laws. The tables are one that
outlives a restart, and the two runs at the end are on them.
-/

namespace EthIndexer

section Runs

variable {σ : Type} (view : σ → BundleMap) (inv : σ → Prop)

/-- The stores that successful calls of one syncer lead to. -/
inductive SyncRun (s : Syncer) (st₀ : σ) : σ → Prop
  | start : SyncRun s st₀ st₀
  | sync {st st' : σ} {S : IndexStore σ} {env : Env} {result : SyncResult}
      (h : SyncRun s st₀ st) (hS : LawfulStore S view inv)
      (hcall : (s.syncOnce env).run S.handle st = (.ok result, st')) : SyncRun s st₀ st'

/-- The stores of a run of successful calls of `s₂` that starts from a
store that successful calls of `s₁` have left. -/
def ResizedRun (s₁ s₂ : Syncer) (st₀ st : σ) : Prop :=
  ∃ left, SyncRun view inv s₁ st₀ left ∧ SyncRun view inv s₂ left st

variable {view inv} {s s₁ s₂ : Syncer} {st₀ st st' : σ} {S : IndexStore σ} {env : Env}
  {result : SyncResult}

theorem SyncRun.sound (hst₀ : inv st₀) (h : SyncRun view inv s st₀ st) : inv st := by
  induction h with
  | start => exact hst₀
  | sync _ hS hcall ih => exact inv_of_run_syncOnce hS ih hcall

theorem ResizedRun.sound (hst₀ : inv st₀) (h : ResizedRun view inv s₁ s₂ st₀ st) : inv st := by
  obtain ⟨left, hfirst, hsecond⟩ := h
  exact hsecond.sound (hfirst.sound hst₀)

/-- **When the reported window is stored.** In every run, on every store
with the laws, a successful call leaves exactly the window it reports if
and only if the window's start was stored before the call, or the node
confirmed no stored height of the window, so that all of it was fetched. -/
theorem ResizedRun.spans_iff (hst₀ : inv st₀) (hst : ResizedRun view inv s₁ s₂ st₀ st)
    (hS : LawfulStore S view inv) {header : Header} {head : UInt64}
    (hhead : s₂.config.selectedHead env.node = .ok header)
    (hnumber : validHeaderNumber header = .ok head)
    (hcall : (s₂.syncOnce env).run S.handle st = (.ok result, st')) :
    result.fromBlock = windowStart head s₂.config.blockWindow ∧ result.head.number = head ∧
    (Spans (view st') result.fromBlock result.head.number ↔
      windowStart head s₂.config.blockWindow ∈ view st ∨
        ∀ n, ¬ Confirmed (view st) env.node head header.hash
          (windowStart head s₂.config.blockWindow) n) := by
  have hspans := spans_of_run_syncOnce_iff hS (hst.sound hst₀) hcall
  obtain ⟨header', head', tip, plan, st₁, bundles, -, hhead', hnumber', -, -, -, -, rfl⟩ :=
    run_syncOnce_eq_ok_iff.1 hcall
  cases hhead.symm.trans hhead'
  cases hnumber.symm.trans hnumber'
  exact ⟨rfl, rfl, hspans.trans or_comm⟩

end Runs

/-! ## Two restarts on the tables -/

/-- The same syncer with another window. -/
def Syncer.withWindow (s : Syncer) (w : UInt64) : Syncer :=
  { s with config := { s.config with blockWindow := w } }

namespace Postgres

/-- One call with a window of three has stored the blocks 2 to 4. -/
theorem resizedRun_tablesBehind (s₂ : Syncer) :
    ResizedRun view Sound threeBlocks s₂ Tables.empty tablesBehind := by
  have hok : ((threeBlocks.syncOnce (steady 4)).run (indexStore .calm).handle .empty).1.isOk =
      true := by decide +kernel
  rcases hrun : (threeBlocks.syncOnce (steady 4)).run (indexStore .calm).handle .empty with
    ⟨err | result, T⟩
  · rw [hrun] at hok
    cases hok
  · have hT : tablesBehind = T := congrArg Prod.snd hrun
    rw [hT]
    exact ⟨T, .sync .start (lawful .calm) hrun, .start⟩

/-- After a restart with a window of two, the tables hold it. -/
theorem resized_spans_shrunk :
    ∃ result T', ((threeBlocks.withWindow 2).syncOnce (steady 5)).run (indexStore .calm).handle
        tablesBehind = (.ok result, T') ∧
      Spans (view T') result.fromBlock result.head.number := by
  have hok : (((threeBlocks.withWindow 2).syncOnce (steady 5)).run (indexStore .calm).handle
      tablesBehind).1.isOk = true := by decide +kernel
  have hstored : windowStart 5 (threeBlocks.withWindow 2).config.blockWindow ∈
      view tablesBehind := by decide +kernel
  rcases hrun : ((threeBlocks.withWindow 2).syncOnce (steady 5)).run (indexStore .calm).handle
    tablesBehind with ⟨err | result, T'⟩
  · rw [hrun] at hok
    cases hok
  · have hhead : (threeBlocks.withWindow 2).config.selectedHead (steady 5).node =
        .ok ⟨some 5, .spelling 5⟩ := rfl
    have hnumber : validHeaderNumber ⟨some 5, .spelling 5⟩ = .ok 5 := by decide
    obtain ⟨-, -, hiff⟩ := ResizedRun.spans_iff ⟨∅, holds_empty⟩ (resizedRun_tablesBehind _)
      (lawful .calm) hhead hnumber hrun
    exact ⟨result, T', rfl, hiff.2 (Or.inl hstored)⟩

/-- **A window that grows is not stored.** Tables with the blocks 2 to 4
are taken over with a window of five: the call that appends block 5 reports
a window from block 1, which was never fetched. -/
theorem resized_not_spans_grown :
    ResizedRun view Sound threeBlocks (threeBlocks.withWindow 5) Tables.empty tablesBehind ∧
    (threeBlocks.withWindow 5).validateSyncOnceConfig = .ok () ∧
    ∃ result T', ((threeBlocks.withWindow 5).syncOnce (steady 5)).run (indexStore .calm).handle
        tablesBehind = (.ok result, T') ∧
      result.fromBlock = 1 ∧ result.head.number = 5 ∧ 1 ∉ view T' ∧
      ¬ Spans (view T') result.fromBlock result.head.number := by
  have hok : ((((threeBlocks.withWindow 5).syncOnce (steady 5)).run (indexStore .calm).handle
      tablesBehind).1.toOption.any fun result =>
        decide (result.fromBlock = 1) && decide (result.head.number = 5)) = true := by
    decide +kernel
  have hnot : 1 ∉ view (((threeBlocks.withWindow 5).syncOnce (steady 5)).run
      (indexStore .calm).handle tablesBehind).2 := by decide +kernel
  refine ⟨resizedRun_tablesBehind _, validateSyncOnceConfig_eq_ok_iff.2 ⟨⟨some 1⟩, rfl,
    by decide, rfl, by decide, by decide, rfl, rfl, by decide, fun _ _ h => by cases h⟩, ?_⟩
  rcases hrun : ((threeBlocks.withWindow 5).syncOnce (steady 5)).run (indexStore .calm).handle
    tablesBehind with ⟨err | result, T'⟩
  · rw [hrun] at hok
    cases hok
  · rw [hrun] at hok hnot
    change (decide (result.fromBlock = 1) && decide (result.head.number = 5)) = true at hok
    rw [Bool.and_eq_true, decide_eq_true_iff, decide_eq_true_iff] at hok
    obtain ⟨hfrom, hhead⟩ := hok
    refine ⟨result, T', rfl, hfrom, hhead, hnot, fun hspans => hnot ((hspans 1).2 ?_)⟩
    rw [hfrom, hhead]
    decide

end Postgres

end EthIndexer
