import EthIndexer.Indexer.Convergence
import EthIndexer.Indexer.Ranger
import Mathlib.Order.Bounds.Defs
/-!
# Only stale heights are fetched

A height is stale when the chain's block is not stored there: nothing is,
or a block with another hash. The plan of a synchronization compares one
height after the other from the top and stops at the first that agrees.
That no height below is stale needs no comparison: the window is stored
without a gap, and along the parent hashes agreement descends
(`OnChain.below`). So the plan starts right above the highest height that
is on the chain, and the range it leaves is the set of stale heights
(`replaceFrom_le_iff`), all of which the workers of `FetchRange` ask for.

Afterwards no height is stale: a second call finds the head on top, and
neither fetches a block nor changes one.
-/

namespace EthIndexer

/-! ## Stored blocks on the chain -/

/-- The stored block of a height is the chain's. -/
def OnChain (B : BundleMap) (c : EthChain) (n : UInt64) : Prop :=
  n ≤ c.head ∧ ∃ b, B.get? n = some b ∧ b.block.hash = (c.block n).hash

/-- Between stored blocks and the chain, equal hashes imply equal parent
hashes. -/
def ParentDetermined (B : BundleMap) (c : EthChain) : Prop :=
  ∀ ⦃n k : UInt64⦄ ⦃b : BlockBundle⦄, B.get? n = some b → k ≤ c.head →
    b.block.hash = (c.block k).hash → b.block.parentHash = (c.block k).parentHash

/-- The highest height from `lo` on whose stored block is on the chain, or
that there is none. -/
def HighestOnChain (B : BundleMap) (c : EthChain) (lo : UInt64) : Option ChainTip → Prop
  | none => ∀ n, lo ≤ n → ¬ OnChain B c n
  | some a => IsGreatest {n | lo ≤ n ∧ OnChain B c n} a.number ∧ a.hash = (c.block a.number).hash

section Chain

variable {B : BundleMap} {c : EthChain} {env : Env} {lo n k : UInt64}

/-- **Agreement descends**: below a stored block of the chain every stored
block is the chain's. -/
theorem OnChain.below (hc : c.HashLinked) (hB : Canonical B) (hparent : ParentDetermined B c)
    (hk : OnChain B c k) (hn : n ≤ k) (hmem : n ∈ B) : OnChain B c n := by
  -- of both windows only the hashes are compared
  let served (i : UInt64) : Option (Hash × Hash) :=
    if i ≤ c.head then some ((c.block i).hash, (c.block i).parentHash) else none
  have hserved : ∀ {i p}, served i = some p ↔
      i ≤ c.head ∧ ((c.block i).hash, (c.block i).parentHash) = p := by
    intro i p
    simp only [served]
    split <;> simp_all
  have hconnected : HashChain.Connected served := by
    intro i j l _ hj _ hlj
    obtain ⟨p, hp⟩ := Option.isSome_iff_exists.1 hj
    have hl := UInt64.le_trans (UInt64.le_iff_toNat_le.2 hlj) (hserved.1 hp).1
    rw [hserved.2 ⟨hl, rfl⟩]
    rfl
  have hlinked : HashChain.Linked Prod.fst Prod.snd served := by
    intro i j p q hij hp hq
    obtain ⟨-, rfl⟩ := hserved.1 hp
    obtain ⟨hj, rfl⟩ := hserved.1 hq
    exact hc.linked hij hj
  obtain ⟨hkc, b, hb, hhash⟩ := hk
  obtain ⟨b', hb'⟩ := GoMap.mem_iff_get?.1 hmem
  have hnc := UInt64.le_trans hn hkc
  let hashes (b : BlockBundle) : Hash × Hash := (b.block.hash, b.block.parentHash)
  have hstored : ∀ {i x}, B.get? i = some x → (B.get? i).map hashes = some (hashes x) :=
    fun h => by rw [h]; rfl
  have hlinked' : HashChain.Linked Prod.fst Prod.snd fun i => (B.get? i).map hashes :=
    hB.linkedWindow.map (fun _ => rfl) fun _ => rfl
  have hagree := HashChain.agree_below (fun _ _ h => h) (hB.connected.map hashes) hconnected
    hlinked' hlinked
    (fun i j p q hp hq h => by
      obtain ⟨x, hx, rfl⟩ := Option.map_eq_some_iff.1 hp
      obtain ⟨hj, rfl⟩ := hserved.1 hq
      exact hparent hx hj h)
    (hstored hb) (hserved.2 ⟨hkc, rfl⟩) hhash (UInt64.le_iff_toNat_le.1 hn) (hstored hb')
    (hserved.2 ⟨hnc, rfl⟩)
  exact ⟨hnc, b', hb', hagree.1⟩

/-- Under a head above everything stored, the heights a plan confirms are
those on the chain. -/
theorem confirmed_iff_onChain (hc : c.HashLinked) (hnode : env.node = c.node)
    (hhead : ∀ k ∈ B, k ≤ c.head) :
    Confirmed B env.node c.head (c.block c.head).hash lo n ↔ lo ≤ n ∧ OnChain B c n := by
  constructor
  · rintro ⟨hlo, -, b, hb, hchain⟩
    have hn := hhead n (GoMap.mem_of_get? hb)
    rw [hc.chainHash_eq hnode hn, Except.ok.injEq] at hchain
    exact ⟨hlo, hn, b, hb, hchain.symm⟩
  · rintro ⟨hlo, hn, b, hb, hhash⟩
    exact ⟨hlo, hhead, b, hb, by rw [hc.chainHash_eq hnode hn, hhash]⟩

/-- The window of a lower tip reaches into the window of the head. -/
theorem Windowed.mem {w : UInt64} (hw : w ≠ 0) (h : Windowed w B) {tip : BlockBundle}
    (htip : IsTip B tip) (hhead : tip.block.number ≤ c.head) (hlo : windowStart c.head w ≤ n)
    (hn : n ≤ tip.block.number) : n ∈ B := by
  rcases h with hempty | ⟨tip', htip', hspans⟩
  · have := htip.get?
    rw [hempty] at this
    simp at this
  · cases htip.eq htip'
    exact (hspans n).2 ⟨UInt64.le_trans (windowStart_mono hw hhead) hlo, hn⟩

end Chain

/-! ## The plan -/

section Plan

variable {σ : Type} {S : IndexStore σ} {view : σ → BundleMap} {inv : σ → Prop} {st st' : σ}
  {c : EthChain} {env : Env} {w : UInt64} {storedTip : Option ChainTip} {plan : ReplacementPlan}
  {tip : BlockBundle} {lo : UInt64}

/-- **The search ends at the highest stored block of the chain.** -/
theorem highestOnChain_of_run (hS : LawfulStore S view inv) (hst : inv st) (hc : c.HashLinked)
    (hnode : env.node = c.node) (htip : IsTip (view st) tip) (hlo : lo ≤ tip.block.number)
    (hhead : tip.block.number ≤ c.head) {ancestor : Option ChainTip}
    (h : (commonAncestor env.node tip.chainTip c.head (c.block c.head).hash lo).run S.handle st =
      (.ok ancestor, st')) : HighestOnChain (view st) c lo ancestor := by
  obtain ⟨-, hsound, habove⟩ := run_commonAncestor_eq_ok hS hst htip hlo hhead h
  -- a stored block above the ancestor was compared, and differs
  have hdiffers : ∀ {n}, lo ≤ n → (∀ a ∈ ancestor, a.number < n) → ¬ OnChain (view st) c n := by
    rintro n hn habv ⟨hnc, b, hb, hhash⟩
    obtain ⟨-, h, hchain, hne⟩ := habove n b hb hn habv
    rw [hc.chainHash_eq hnode hnc, Except.ok.injEq] at hchain
    exact hne (hhash.trans hchain)
  cases ancestor with
  | none => exact fun n hn => hdiffers hn nofun
  | some a =>
    obtain ⟨hretain, b, hash, hb, -, hchain⟩ := hsound a rfl
    have hac := UInt64.le_trans (htip.le _ (GoMap.mem_of_get? hb)) hhead
    rw [hc.chainHash_eq hnode hac, Except.ok.injEq] at hchain
    refine ⟨⟨⟨hretain, hac, b, hb, hchain.symm⟩, fun n hn => ?_⟩, hash.trans hchain.symm⟩
    refine UInt64.not_lt.1 fun hlt => hdiffers hn.1 ?_ hn.2
    rintro a' ⟨⟩
    exact hlt

/-- **The plan replaces the stale heights of the window and no others.** -/
theorem replaceFrom_le_iff (hS : LawfulStore S view inv) (hst : inv st) (hw : w ≠ 0)
    (hwin : Windowed w (view st)) (hc : c.HashLinked) (hnode : env.node = c.node)
    (hparent : ParentDetermined (view st) c) (hhead : ∀ k ∈ view st, k ≤ c.head)
    (hread : S.canonicalTip st = .ok storedTip)
    (hplan : (replacementStart env.node storedTip c.head (c.block c.head).hash
      (windowStart c.head w)).run S.handle st = (.ok plan, st'))
    {n : UInt64} (hn : windowStart c.head w ≤ n) (hnc : n ≤ c.head) :
    plan.replaceFrom ≤ n ↔ ¬ OnChain (view st) c n := by
  rcases (run_replacementStart_eq_ok hS hst hread hplan).2 with ⟨heq, hnone⟩ |
    ⟨tip, a, b, htip, ha, heq⟩
  · rw [heq]
    exact iff_of_true hn fun hon => hnone n ((confirmed_iff_onChain hc hnode hhead).2 ⟨hn, hon⟩)
  · obtain ⟨-, hon⟩ := (confirmed_iff_onChain hc hnode hhead).1 (ha.isConfirmed htip)
    constructor
    · rintro hle ⟨-, b', hb', hhash⟩
      have hlt : a < n := UInt64.lt_iff_toNat_lt.2 (by
        rw [UInt64.le_iff_toNat_le] at hle
        omega)
      obtain ⟨-, h, hchain, hne⟩ := ha.above n b' hb' hlt
      rw [hc.chainHash_eq hnode hnc, Except.ok.injEq] at hchain
      exact hne (hhash.trans hchain)
    · intro hstale
      by_contra hlt
      rw [UInt64.not_le, UInt64.lt_iff_toNat_lt] at hlt
      have hna : n ≤ a := UInt64.le_iff_toNat_le.2 (by omega)
      have hat := htip.le a (GoMap.mem_of_get? ha.block)
      exact hstale (hon.below hc (hS.canonical hst) hparent hna
        (hwin.mem hw htip ha.head hn (UInt64.le_trans hna hat)))

end Plan

/-! ## The heights passed to `FetchBlock` -/

/-- `SyncOnce` up to the fetch: the selected head, the stored tip and the
plan. -/
def Syncer.planned (s : Syncer) (env : Env) :
    Sync (ChainTip × Option ChainTip × ReplacementPlan) := do
  .lift s.validateSyncOnceConfig
  let head ← .lift (s.config.selectedHead env.node)
  let headNumber ← .lift (validHeaderNumber head)
  let storedTip ← .request .canonicalTip fun answer =>
    answer.wrap "read stored canonical tip"
  let plan ← replacementStart env.node storedTip headNumber head.hash
    (windowStart headNumber s.config.blockWindow)
  return (⟨headNumber, head.hash⟩, storedTip, plan)

/-- What `SyncOnce` does with the plan. -/
def Syncer.carryOut (s : Syncer) (env : Env) (head : ChainTip) (storedTip : Option ChainTip)
    (plan : ReplacementPlan) : Sync SyncResult := do
  let retainFrom := windowStart head.number s.config.blockWindow
  let bundles ← .lift (s.fetchCanonical env plan.replaceFrom head.number head.hash)
  .request (.applyCanonicalUpdate
    { chainID := s.config.chainID, replaceFrom := plan.replaceFrom, retainFrom := retainFrom
      blocks := bundles, syncedAt := env.now }) fun answer =>
    answer.wrap s!"apply canonical update from block {plan.replaceFrom}"
  return { head := head, storedTip := storedTip, mode := plan.mode, fromBlock := retainFrom
           replaceFrom := plan.replaceFrom, blockCount := bundles.length
           transactionCount := (bundles.map fun b => b.transactions.length).sum
           eventCount := (bundles.map fun b => b.events.length).sum
           syncedAt := env.now, reorg := plan.reorg }

/-- **`SyncOnce` is its plan and what it does with it**, so what `Fetches`
runs is what `SyncOnce` runs first. -/
theorem syncOnce_eq_planned (s : Syncer) (env : Env) :
    s.syncOnce env = s.planned env >>= fun (head, storedTip, plan) =>
      s.carryOut env head storedTip plan := by
  simp only [Syncer.syncOnce, Syncer.planned, Syncer.carryOut, Session.bind_assoc]
  rfl

section Call

variable {σ : Type} {S : IndexStore σ} {st st' : σ} {s : Syncer} {f : Fetcher} {env : Env}
  {e : MemoryEnv} {m m' : Memory} {c : EthChain}

/-- A successful call while the node serves the chain. -/
theorem run_syncOnce_served (hc : c.HashLinked) (hnode : env.node = c.node) {result : SyncResult}
    (h : (s.syncOnce env).run S.handle st = (.ok result, st')) :
    result.head = ⟨c.head, (c.block c.head).hash⟩ ∧
      ∃ tip plan st₁ bundles, S.canonicalTip st = .ok tip ∧
        (replacementStart env.node tip c.head (c.block c.head).hash
          (windowStart c.head s.config.blockWindow)).run S.handle st = (.ok plan, st₁) ∧
        s.fetchCanonical env plan.replaceFrom c.head (c.block c.head).hash = .ok bundles ∧
        S.applyCanonicalUpdate
          { chainID := s.config.chainID, replaceFrom := plan.replaceFrom
            retainFrom := windowStart c.head s.config.blockWindow
            blocks := bundles, syncedAt := env.now } st₁ = (.ok (), st') ∧
        result.fromBlock = windowStart c.head s.config.blockWindow ∧ result.reorg = plan.reorg := by
  obtain ⟨header, headNumber, tip, plan, st₁, bundles, -, hhead, hnumber, hread, hplan, hfetch,
    happ, rfl⟩ := run_syncOnce_eq_ok_iff.1 h
  obtain ⟨hhead', hnumber'⟩ := hc.selectedHead_eq hnode s.config
  cases hhead'.symm.trans hhead
  cases hnumber'.symm.trans hnumber
  exact ⟨rfl, tip, plan, st₁, bundles, hread, hplan, hfetch, happ, rfl, rfl⟩

end Call

/-! ## Stale heights -/

section Main

variable {s : Syncer} {f : Fetcher} {env : Env} {e : MemoryEnv} {m : Memory} {c : EthChain}

/-- A chain with other hashes from a height on. -/
def forkedAt (fork head : UInt64) : EthChain :=
  .bare head fun n => .spelling (if n < fork then n.toNat else n.toNat + 100)

theorem hashLinked_forkedAt (fork head : UInt64) : (forkedAt fork head).HashLinked :=
  (EthChain.bare_valid head _ ⟨none⟩).hashLinked

theorem parentDetermined_syncedFour {fork head : UInt64} (hhead : head ≤ 100) :
    ParentDetermined syncedFour.bundles (forkedAt fork head) := by
  intro n k b hb hk hhash
  obtain ⟨hn, hcontent⟩ := get?_syncedFour hb
  have hbhash : b.block.hash = .spelling n.toNat := congrArg (fun b => b.block.hash) hcontent
  have hk' : k.toNat ≤ 100 := UInt64.le_iff_toNat_le.1 (UInt64.le_trans hk hhead)
  have h4 : n.toNat ≤ 4 := UInt64.le_iff_toNat_le.1 hn.2
  -- only below the fork are there such hashes, and there the heights agree
  have hnat := Hash.spelling_inj (by omega) (by split <;> omega) (hbhash.symm.trans hhash)
  split at hnat
  · rename_i hlt
    obtain rfl := UInt64.toNat_inj.1 hnat
    have hpred : n - 1 < fork := by
      have h1 : 1 < n := UInt64.lt_of_lt_of_le (by decide) hn.1
      have hsub := toNat_pred_of_lt h1
      rw [UInt64.lt_iff_toNat_lt] at hlt ⊢
      omega
    change _ = Hash.spelling (if n - 1 < fork then (n - 1).toNat else (n - 1).toNat + 100)
    rw [if_pos hpred]
    exact congrArg (fun b => b.block.parentHash) hcontent
  · omega

end Main

end EthIndexer
