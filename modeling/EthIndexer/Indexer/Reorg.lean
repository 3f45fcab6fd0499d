import EthIndexer.Indexer.Stale
import Mathlib.Data.Set.Card
/-!
# What is reported of a reorganization

A synchronization that takes stored blocks off the chain reports it in
`SyncResult.Reorg`. The report is made from the plan: the ancestor the
search ended at, and the stored heights above it. While the head is at
least as high as the stored tip that is exact
(`reported_of_search`): the heights above the ancestor are the ones whose
block is replaced, and there is a report just when there are any.

A head below the stored tip is not searched for an ancestor.
`replacementStart` takes it for a jump, reloads the whole window and
reports nothing, whether the stored blocks below the new head are still on
the chain or not. So the report is missing exactly when the chain became
shorter and differs from a stored block.
-/

namespace EthIndexer

/-- Some stored block between `lo` and the head is not the chain's. -/
def Differs (B : BundleMap) (c : EthChain) (lo : UInt64) : Prop :=
  ∃ n b, lo ≤ n ∧ n ≤ c.head ∧ B.get? n = some b ∧ b.block.hash ≠ (c.block n).hash

/-- A height at which one block is stored before and another after. -/
def Replaced (B B' : BundleMap) (n : UInt64) : Prop :=
  ∃ b b', B.get? n = some b ∧ B'.get? n = some b' ∧ b'.block.hash ≠ b.block.hash

/-- **An exact report** of the change from `B` to `B'`: the heights whose
block was replaced, their number, and the highest block from `lo` on that
stays. -/
structure ReorgResult.Exact (r : ReorgResult) (B B' : BundleMap) (c : EthChain) (lo : UInt64) :
    Prop where
  replaced : ∀ n, Replaced B B' n ↔ r.replacedFrom ≤ n ∧ n ≤ r.replacedTo
  count : r.replacedBlockCount.toNat = {n | Replaced B B' n}.ncard
  ancestor : HighestOnChain B c lo r.commonAncestor

/-- **A reorganization is reported exactly**: there is a report if and only
if a stored block of the window is not the chain's, and it is exact. -/
def ReportedExactly (reorg : Option ReorgResult) (B B' : BundleMap) (c : EthChain) (lo : UInt64) :
    Prop :=
  (reorg ≠ none ↔ Differs B c lo) ∧ ∀ r, reorg = some r → r.Exact B B' c lo

/-- Below a block of the chain no stored block differs. -/
theorem OnChain.not_differs {B : BundleMap} {c : EthChain} {lo k : UInt64} (hk : OnChain B c k)
    (hc : c.HashLinked) (hB : Canonical B) (hparent : ParentDetermined B c)
    (hle : ∀ n ∈ B, n ≤ c.head → n ≤ k) : ¬ Differs B c lo := by
  rintro ⟨n, b, -, hnc, hb, hdiffers⟩
  have hmem := GoMap.mem_of_get? hb
  obtain ⟨-, b', hb', hhash⟩ := hk.below hc hB hparent (hle n hmem hnc) hmem
  cases hb.symm.trans hb'
  exact hdiffers hhash

/-! ## The report of a plan -/

/-- A plan from a search reports the heights from its start up to the tip,
unless the tip is the ancestor. -/
theorem reorg_of_ancestorPlan {tip : ChainTip} {lo : UInt64} {ancestor : Option ChainTip}
    {plan : ReplacementPlan} (h : ancestorPlan tip lo ancestor = .ok plan) :
    (plan.reorg = none ∧ ∃ a, ancestor = some a ∧ a.number = tip.number) ∨
      (plan.reorg = some ⟨ancestor, plan.replaceFrom, tip.number,
          tip.number - plan.replaceFrom + 1⟩ ∧ ∀ a, ancestor = some a → a.number ≠ tip.number) := by
  unfold ancestorPlan at h
  cases ancestor with
  | none =>
    cases h
    exact Or.inr ⟨rfl, nofun⟩
  | some a =>
    dsimp only at h
    split at h
    · cases h
    · split at h
      · rename_i heq
        cases h
        exact Or.inl ⟨rfl, a, rfl, heq⟩
      · rename_i hne
        cases h
        refine Or.inr ⟨rfl, ?_⟩
        rintro a' ⟨⟩
        exact hne

/-- The number of heights from `a` to `b`. -/
theorem ncard_interval {a b : UInt64} (h : a ≤ b) :
    {n : UInt64 | a ≤ n ∧ n ≤ b}.ncard = b.toNat - a.toNat + 1 := by
  have himage : UInt64.toNat '' {n : UInt64 | a ≤ n ∧ n ≤ b} =
      (Finset.Icc a.toNat b.toNat : Set ℕ) := by
    ext k
    rw [Set.mem_image, Finset.mem_coe, Finset.mem_Icc]
    constructor
    · rintro ⟨n, ⟨h1, h2⟩, rfl⟩
      exact ⟨UInt64.le_iff_toNat_le.1 h1, UInt64.le_iff_toNat_le.1 h2⟩
    · rintro ⟨h1, h2⟩
      have hk : (UInt64.ofNat k).toNat = k :=
        UInt64.toNat_ofNat_of_lt' (lt_of_le_of_lt h2 b.toNat_lt)
      refine ⟨.ofNat k, ⟨?_, ?_⟩, hk⟩ <;> exact UInt64.le_iff_toNat_le.2 (by omega)
  rw [← Set.ncard_image_of_injective _ fun _ _ => UInt64.toNat_inj.1, himage, Set.ncard_coe_finset,
    Nat.card_Icc]
  have := UInt64.le_iff_toNat_le.1 h
  omega

section Call

variable {s : Syncer} {env : Env} {e : MemoryEnv} {m m' : Memory} {c : EthChain}
  {plan : ReplacementPlan} {bundles : List BlockBundle}

/-- **What a call leaves of the window**: the chain's hash from the start
of the plan on, and the stored block below. -/
theorem get?_after (hs : s.validateSyncOnceConfig = .ok ())
    (hspans : Spans m'.bundles (windowStart c.head s.config.blockWindow) c.head)
    (hm : m.Invariant) (hnode : env.node = c.node)
    (hplan : windowStart c.head s.config.blockWindow ≤ plan.replaceFrom ∧
      plan.replaceFrom.toNat ≤ c.head.toNat + 1)
    (hfetch : s.fetchCanonical env plan.replaceFrom c.head (c.block c.head).hash = .ok bundles)
    (happ : (Memory.indexStore e).applyCanonicalUpdate
      { chainID := s.config.chainID, replaceFrom := plan.replaceFrom
        retainFrom := windowStart c.head s.config.blockWindow
        blocks := bundles, syncedAt := env.now } m = (.ok (), m'))
    {n : UInt64} {b' : BlockBundle} (hb' : m'.bundles.get? n = some b') :
    (plan.replaceFrom ≤ n ∧ b'.block.hash = (c.block n).hash) ∨
      (n < plan.replaceFrom ∧ m.bundles.get? n = some b') := by
  have hfits := fits_of_fetchCanonical ⟨c.head, (c.block c.head).hash⟩ hplan hfetch
  have hnc := ((hspans n).1 (GoMap.mem_of_get? hb')).2
  rw [Memory.get?_of_applyCanonicalUpdate happ, Option.map_eq_some_iff] at hb'
  obtain ⟨b, hb, rfl⟩ := hb'
  rcases (get?_replace_eq_some_iff hfits.consecutive).1 hb with ⟨hnew, rfl⟩ | ⟨hold, -, hlt⟩
  · refine Or.inl ⟨UInt64.le_iff_toNat_le.2 (hfits.consecutive.number_bounds hnew).1, ?_⟩
    obtain ⟨f, hf, -⟩ := validateSyncOnceConfig_eq_ok_iff.1 hs
    have hfetched := fetchBlock_of_mem_fetchCanonical hf hfetch hnew
    exact (EthChain.hash_of_fetchBlock hnode hnc hfetched).1
  · exact Or.inr ⟨hlt, by rw [hold, hm.cloned hold]⟩

/-- Where every stored block of the window is on the chain, nothing is to
be reported. -/
theorem reportedExactly_none {B B' : BundleMap} {lo : UInt64} (h : ¬ Differs B c lo) :
    ReportedExactly none B B' c lo :=
  ⟨iff_of_false (fun h => h rfl) h, nofun⟩

/-- **The heights a plan replaces** are those from its start up to the
tip. -/
theorem replaced_iff (hm : SyncInvariant s m) (hw : s.config.blockWindow ≠ 0)
    (hspans : Spans m'.bundles (windowStart c.head s.config.blockWindow) c.head)
    {tip : BlockBundle} (htip : IsTip m.bundles tip) (hhead : tip.block.number ≤ c.head)
    (hbounds : windowStart c.head s.config.blockWindow ≤ plan.replaceFrom)
    (hstale : ∀ {n}, windowStart c.head s.config.blockWindow ≤ n → n ≤ c.head →
      (plan.replaceFrom ≤ n ↔ ¬ OnChain m.bundles c n))
    (hafter : ∀ {n b'}, m'.bundles.get? n = some b' →
      (plan.replaceFrom ≤ n ∧ b'.block.hash = (c.block n).hash) ∨
        (n < plan.replaceFrom ∧ m.bundles.get? n = some b')) (n : UInt64) :
    Replaced m.bundles m'.bundles n ↔ plan.replaceFrom ≤ n ∧ n ≤ tip.block.number := by
  constructor
  · rintro ⟨b, b', hb, hb', hother⟩
    rcases hafter hb' with ⟨hn, -⟩ | ⟨-, hold⟩
    · exact ⟨hn, htip.le n (GoMap.mem_of_get? hb)⟩
    · cases hb.symm.trans hold
      exact absurd rfl hother
  · rintro ⟨hn, hnt⟩
    have hln := UInt64.le_trans hbounds hn
    have hnc := UInt64.le_trans hnt hhead
    obtain ⟨b, hb⟩ := GoMap.mem_iff_get?.1 (hm.windowed.mem hw htip hhead hln hnt)
    obtain ⟨b', hb'⟩ := GoMap.mem_iff_get?.1 ((hspans n).2 ⟨hln, hnc⟩)
    -- what is there now is the chain's, and what was there was stale
    refine ⟨b, b', hb, hb', fun heq => (hstale hln hnc).1 hn ⟨hnc, b, hb, ?_⟩⟩
    rcases hafter hb' with ⟨-, hhash⟩ | ⟨hlt, -⟩
    · rw [← heq, hhash]
    · exact absurd hlt (UInt64.not_lt.2 hn)

/-- Within a window the number of heights does not wrap. -/
theorem toNat_count {w a b : UInt64} (hw : w ≠ 0) (hwmax : w ≤ maxBlockWindow)
    (hlo : windowStart c.head w ≤ a) (hab : a ≤ b) (hb : b ≤ c.head) :
    (b - a + 1).toNat = {n : UInt64 | a ≤ n ∧ n ≤ b}.ncard := by
  have hstart := toNat_windowStart (h := c.head) hw
  have hwmax' : w.toNat ≤ 50 := UInt64.le_iff_toNat_le.1 hwmax
  have hsub := UInt64.toNat_sub_of_le _ _ hab
  rw [UInt64.le_iff_toNat_le] at hlo hb
  rw [ncard_interval hab, UInt64.toNat_add, hsub]
  change (_ + 1) % 2 ^ 64 = _
  omega

/-- **A search is reported exactly.** -/
theorem reported_of_search (hm : SyncInvariant s m) (hs : s.validateSyncOnceConfig = .ok ())
    (hc : c.HashLinked) (hparent : ParentDetermined m.bundles c)
    {tip : BlockBundle} (htip : IsTip m.bundles tip)
    (hlo : windowStart c.head s.config.blockWindow ≤ tip.block.number)
    (hhead : tip.block.number ≤ c.head) {ancestor : Option ChainTip}
    (hancestor : HighestOnChain m.bundles c (windowStart c.head s.config.blockWindow) ancestor)
    (hplanned : ancestorPlan tip.chainTip (windowStart c.head s.config.blockWindow) ancestor =
      .ok plan)
    (hbounds : windowStart c.head s.config.blockWindow ≤ plan.replaceFrom)
    (hstale : plan.replaceFrom ≤ tip.block.number ↔ ¬ OnChain m.bundles c tip.block.number)
    (hreplaced : ∀ n, Replaced m.bundles m'.bundles n ↔
      plan.replaceFrom ≤ n ∧ n ≤ tip.block.number) :
    ReportedExactly plan.reorg m.bundles m'.bundles c
      (windowStart c.head s.config.blockWindow) := by
  obtain ⟨-, -, -, -, hw, hwmax, -⟩ := validateSyncOnceConfig_eq_ok_iff.1 hs
  rcases reorg_of_ancestorPlan hplanned with ⟨hnone, a, rfl, hat⟩ | ⟨hsome, hne⟩
  · -- the tip itself is on the chain, and so is everything below it
    rw [hnone]
    exact reportedExactly_none (hancestor.1.1.2.not_differs hc hm.memory.canonical hparent
      fun n hn _ => hat ▸ htip.le n hn)
  · -- the tip is above the ancestor, so it is the first that differs
    have htop : ¬ OnChain m.bundles c tip.block.number := by
      intro hon
      cases ancestor with
      | none => exact hancestor _ hlo hon
      | some a =>
        obtain ⟨-, b, hb, -⟩ := hancestor.1.1.2
        exact hne a rfl (UInt64.le_antisymm (htip.le _ (GoMap.mem_of_get? hb))
          (hancestor.1.2 ⟨hlo, hon⟩))
    rw [hsome]
    refine ⟨iff_of_true nofun ⟨_, tip, hlo, hhead, htip.get?, fun hhash =>
      htop ⟨hhead, tip, htip.get?, hhash⟩⟩, ?_⟩
    rintro r ⟨⟩
    have hset : {n | Replaced m.bundles m'.bundles n} =
        {n | plan.replaceFrom ≤ n ∧ n ≤ tip.block.number} := Set.ext hreplaced
    refine ⟨hreplaced, ?_, hancestor⟩
    rw [hset]
    exact toNat_count hw hwmax hbounds (hstale.2 htop) hhead

end Call

section Main

variable {s : Syncer} {env : Env} {e : MemoryEnv} {m m' : Memory} {c : EthChain}
  {result : SyncResult}

/-- **When a reorganization is reported exactly.** From any store that
calls of the same syncer reach, a successful call while the node serves
one hash-linked chain reports exactly what it replaced, if and only if it
is not the case that a block above the head is stored and a stored block
up to the head is not the chain's. -/
theorem SyncReachable.reorg_reported_iff (hm : SyncReachable s m) (hc : c.HashLinked)
    (hnode : env.node = c.node) (hparent : ParentDetermined m.bundles c)
    (hrun : s.syncMemory env e m = (.ok result, m')) :
    ReportedExactly result.reorg m.bundles m'.bundles c (windowStart c.head s.config.blockWindow) ↔
      ¬ ((∃ n ∈ m.bundles, c.head < n) ∧
        Differs m.bundles c (windowStart c.head s.config.blockWindow)) := by
  have hinv := hm.invariant
  have hS := Memory.lawful e
  obtain ⟨-, -, -, -, -, -, hs, -⟩ := run_syncOnce_eq_ok_iff.1 hrun
  obtain ⟨-, -, -, -, hw, -⟩ := validateSyncOnceConfig_eq_ok_iff.1 hs
  obtain ⟨hresult, tip, plan, m₁, bundles, hread, hplan, hfetch, happ, hfrom, hreorg⟩ :=
    run_syncOnce_served hc hnode hrun
  have hspans := spans_of_windowed hS hinv.memory hinv.windowed hrun
  rw [hresult, hfrom] at hspans
  rw [hreorg]
  have hbounds := (ensures_replacementStart tip (windowStart_le hw)).run hplan
  obtain ⟨rfl, ⟨hempty, rfl⟩ | ⟨top, htop, hcases⟩⟩ :=
    run_replacementStart_cases hS hinv.memory hread hplan
  · have hsame : ¬ Differs m₁.bundles c (windowStart c.head s.config.blockWindow) := by
      rintro ⟨n, b, -, -, hb, -⟩
      rw [hempty] at hb
      simp at hb
    exact iff_of_true (reportedExactly_none hsame) fun h => hsame h.2
  rcases hcases with ⟨hout, rfl⟩ | ⟨hlo, hhead, hcases⟩
  · by_cases hsame : Differs m₁.bundles c (windowStart c.head s.config.blockWindow)
    · -- a stored block differs, and the plan reports nothing
      refine iff_of_false (fun h => h.1.2 hsame rfl) fun h => h
        ⟨⟨_, GoMap.mem_of_get? htop.get?, hout.resolve_right fun hlt => ?_⟩, hsame⟩
      obtain ⟨n, b, hn, -, hb, -⟩ := hsame
      exact UInt64.not_lt.2 (UInt64.le_trans hn (htop.le n (GoMap.mem_of_get? hb))) hlt
    · exact iff_of_true (reportedExactly_none hsame) fun h => hsame h.2
  · have hall : ∀ k ∈ m₁.bundles, k ≤ c.head := fun k hk => UInt64.le_trans (htop.le k hk) hhead
    have hnone : ¬ ((∃ n ∈ m₁.bundles, c.head < n) ∧
        Differs m₁.bundles c (windowStart c.head s.config.blockWindow)) := by
      rintro ⟨⟨n, hn, hlt⟩, -⟩
      exact UInt64.not_lt.2 (hall n hn) hlt
    refine iff_of_true ?_ hnone
    have hstale : ∀ {n}, windowStart c.head s.config.blockWindow ≤ n → n ≤ c.head →
        (plan.replaceFrom ≤ n ↔ ¬ OnChain m₁.bundles c n) := fun hn hnc =>
      replaceFrom_le_iff hS hinv.memory hw hinv.windowed hc hnode hparent hall hread hplan hn hnc
    rcases hcases with ⟨heq, hhash, hmax, rfl⟩ | ⟨ancestor, hsearch, hplanned⟩
    · -- the head is stored, and nothing differs below it
      have hon : OnChain m₁.bundles c c.head :=
        ⟨UInt64.le_refl _, top, heq ▸ htop.get?, hhash⟩
      exact reportedExactly_none (hon.not_differs hc hinv.memory.canonical hparent
        fun n _ hnc => hnc)
    · exact reported_of_search hinv hs hc hparent htop hlo hhead
        (highestOnChain_of_run hS hinv.memory hc hnode htop hlo hhead hsearch) hplanned hbounds.1
        (hstale hlo hhead) (replaced_iff hinv hw hspans htop hhead hbounds.1 hstale
          fun hb' => get?_after hs hspans hinv.memory hnode hbounds hfetch happ hb')

/-- The store of blocks 2 to 4 meets another block 4 and a block 5: block
4 is reported. -/
theorem reorg_reported_fork :
    ∃ result m', threeBlocks.syncMemory (forkedAt 4 5).env .calm syncedFour = (.ok result, m') ∧
      result.reorg = some ⟨some ⟨3, .spelling 3⟩, 4, 4, 1⟩ ∧
      ReportedExactly result.reorg syncedFour.bundles m'.bundles (forkedAt 4 5)
        (windowStart 5 3) := by
  have hreorg : (threeBlocks.syncMemory (forkedAt 4 5).env .calm syncedFour).1.map
      SyncResult.reorg = .ok (some ⟨some ⟨3, .spelling 3⟩, 4, 4, 1⟩) := by decide +kernel
  rcases hrun : threeBlocks.syncMemory (forkedAt 4 5).env .calm syncedFour with ⟨_ | result, m'⟩
  · rw [hrun] at hreorg
    cases hreorg
  · rw [hrun] at hreorg
    refine ⟨result, m', rfl, Except.ok.inj hreorg,
      (syncReachable_syncedFour.reorg_reported_iff (hashLinked_forkedAt 4 5) rfl
        (parentDetermined_syncedFour (by decide)) hrun).2 ?_⟩
    rintro ⟨⟨n, hn, hlt⟩, -⟩
    obtain ⟨b, hb⟩ := GoMap.mem_iff_get?.1 hn
    exact absurd (UInt64.lt_of_lt_of_le hlt (get?_syncedFour hb).1.2) (by decide)

/-- The store of blocks 2 to 4 meets a chain that ends with another block
3: block 3 is replaced, and nothing is reported. -/
theorem shorter_fork_unreported :
    (forkedAt 3 3).HashLinked ∧ ParentDetermined syncedFour.bundles (forkedAt 3 3) ∧
      ∃ result m', threeBlocks.syncMemory (forkedAt 3 3).env .calm syncedFour = (.ok result, m') ∧
        result.mode = .fullReload ∧ result.reorg = none ∧
        Differs syncedFour.bundles (forkedAt 3 3) (windowStart 3 3) ∧
        ¬ ReportedExactly result.reorg syncedFour.bundles m'.bundles (forkedAt 3 3)
          (windowStart 3 3) := by
  have hresult : (threeBlocks.syncMemory (forkedAt 3 3).env .calm syncedFour).1.map
      (fun result => (result.mode, result.reorg)) = .ok (.fullReload, none) := by decide +kernel
  have hdiffers : Differs syncedFour.bundles (forkedAt 3 3) (windowStart 3 3) := by
    have hstored : (syncedFour.bundles.get? 3).map (fun b => b.block.hash) =
      some (.spelling 3) := by decide +kernel
    obtain ⟨b, hb, hhash⟩ := Option.map_eq_some_iff.1 hstored
    exact ⟨3, b, by decide, by decide, hb, by rw [hhash]; decide⟩
  refine ⟨hashLinked_forkedAt 3 3, parentDetermined_syncedFour (by decide), ?_⟩
  rcases hrun : threeBlocks.syncMemory (forkedAt 3 3).env .calm syncedFour with ⟨_ | result, m'⟩
  · rw [hrun] at hresult
    cases hresult
  · rw [hrun] at hresult
    obtain ⟨hmode, hreorg⟩ := Prod.mk.inj (Except.ok.inj hresult)
    exact ⟨result, m', rfl, hmode, hreorg, hdiffers, fun h => h.1.2 hdiffers hreorg⟩

end Main

end EthIndexer
