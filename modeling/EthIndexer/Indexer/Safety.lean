import EthIndexer.Indexer.Chain
import EthIndexer.Indexer.Call
import Mathlib.Order.Interval.Finset.Nat
/-!
# What is stored after a synchronization

A call that fails leaves the store as it was. A call that succeeds leaves
the head's window and nothing else, whatever the node answered, as long as
the window before was that of its own tip: the windows of ascending heads
ascend, so a stored window reaches down to the start of the new one.
-/

namespace EthIndexer

/-- **The blocks of an interval, and no others.** -/
def Spans (B : BundleMap) (lo hi : UInt64) : Prop := ∀ n, n ∈ B ↔ lo ≤ n ∧ n ≤ hi

/-- A map that spans `[lo, hi]` has one block per height of it. -/
theorem Spans.card_le {B : BundleMap} {lo hi : UInt64} (h : Spans B lo hi) :
    B.keys.card ≤ hi.toNat + 1 - lo.toNat := by
  have himage : B.keys.image UInt64.toNat ⊆ Finset.Icc lo.toNat hi.toNat := by
    intro k hk
    obtain ⟨n, hn, rfl⟩ := Finset.mem_image.1 hk
    obtain ⟨h1, h2⟩ := (h n).1 (Finmap.mem_keys.1 hn)
    exact Finset.mem_Icc.2 ⟨UInt64.le_iff_toNat_le.1 h1, UInt64.le_iff_toNat_le.1 h2⟩
  rw [← Finset.card_image_of_injective B.keys (fun _ _ => UInt64.toNat_inj.1), ← Nat.card_Icc]
  exact Finset.card_le_card himage

section Update

variable {config : Config} {head : ChainTip} {u : CanonicalUpdate} {B B' : BundleMap}
  {f : BlockBundle → BlockBundle}

theorem Fits.retain_le (hu : Fits config head u) (hw : config.blockWindow ≠ 0) :
    u.retainFrom ≤ head.number := by
  rw [hu.retain]
  exact windowStart_le hw

/-- **When an update leaves the whole window**: it replaces the window, or
the window's start and the block below the first new one are stored. -/
theorem spans_replace_iff (hu : Fits config head u) (hw : config.blockWindow ≠ 0)
    (hB : Canonical B) : Spans (B.replace u) u.retainFrom head.number ↔
      u.replaceFrom = u.retainFrom ∨ (u.retainFrom ∈ B ∧ u.replaceFrom - 1 ∈ B) := by
  have hmem := fun n => mem_replace_iff (B := B) (n := n) hu.consecutive
  have hreach := hu.reach
  have hle := UInt64.le_iff_toNat_le.1 hu.le
  have hretain := UInt64.le_iff_toNat_le.1 (hu.retain_le hw)
  by_cases heq : u.replaceFrom = u.retainFrom
  · refine iff_of_true (fun n => ?_) (Or.inl heq)
    rw [hmem, heq, UInt64.le_iff_toNat_le, UInt64.le_iff_toNat_le, UInt64.lt_iff_toNat_lt]
    rw [heq] at hreach
    constructor
    · rintro (h | ⟨-, h1, h2⟩)
      · exact ⟨h.1, by omega⟩
      · omega
    · exact fun h => Or.inl ⟨h.1, by omega⟩
  · have hlt : u.retainFrom < u.replaceFrom := by
      refine UInt64.lt_iff_toNat_lt.2 (lt_of_le_of_ne hle fun h => heq ?_)
      exact (UInt64.toNat_inj.1 h).symm
    have hpred := toNat_pred_of_lt hlt
    have hlt' := UInt64.lt_iff_toNat_lt.1 hlt
    have hold : ∀ {n : UInt64}, n ∈ B.replace u → n.toNat < u.replaceFrom.toNat → n ∈ B := by
      intro n hn hlt
      rcases (hmem n).1 hn with h | h
      · omega
      · exact h.1
    simp only [heq, false_or]
    constructor
    · intro h
      refine ⟨hold ((h _).2 ⟨UInt64.le_refl _, hu.retain_le hw⟩) hlt', hold ((h _).2 ⟨?_, ?_⟩) ?_⟩
      · exact UInt64.le_iff_toNat_le.2 (by omega)
      · exact UInt64.le_iff_toNat_le.2 (by omega)
      · omega
    · rintro ⟨h1, h2⟩ n
      rw [hmem, UInt64.le_iff_toNat_le, UInt64.le_iff_toNat_le, UInt64.lt_iff_toNat_lt]
      constructor
      · rintro (h | ⟨-, h1, h2⟩)
        · exact ⟨by omega, by omega⟩
        · exact ⟨h1, by omega⟩
      · rintro ⟨h3, h4⟩
        rcases Nat.lt_or_ge n.toNat u.replaceFrom.toNat with hn | hn
        · exact Or.inr ⟨hB.interval h1 h2 (UInt64.le_iff_toNat_le.2 h3)
            (UInt64.le_iff_toNat_le.2 (by omega)), h3, hn⟩
        · exact Or.inl ⟨hn, by omega⟩

/-- An update that starts above a confirmed height leaves the whole window
if the start of the window is stored. -/
theorem spans_replace_iff_of_confirmed (hu : Fits config head u) (hw : config.blockWindow ≠ 0)
    (hB : Canonical B) {node : Node} {hash : Hash} {n : UInt64}
    (hn : Confirmed B node head.number hash u.retainFrom n)
    (heq : u.replaceFrom.toNat = n.toNat + 1) :
    Spans (B.replace u) u.retainFrom head.number ↔ u.retainFrom ∈ B := by
  have hretain := UInt64.le_iff_toNat_le.1 hn.retain
  have hne : u.replaceFrom ≠ u.retainFrom := fun h => by
    rw [h] at heq
    omega
  have hpred : u.replaceFrom - 1 = n := UInt64.toNat_inj.1 (by
    rw [toNat_pred_of_lt (UInt64.lt_iff_toNat_lt.2 (by omega : n.toNat < _))]
    omega)
  obtain ⟨b, hb, -⟩ := hn.block
  rw [spans_replace_iff hu hw hB, hpred]
  simp only [hne, GoMap.mem_of_get? hb, and_true, false_or]

/-- The head of an update with blocks is its last block. -/
theorem get?_replace_head (hu : Fits config head u) (hne : u.blocks ≠ []) :
    ∃ b, (B.replace u).get? head.number = some b ∧ b.block.hash = head.hash := by
  have hpos : 0 < u.blocks.length := List.length_pos_iff.2 hne
  have hlast := List.getLast?_eq_getElem? (l := u.blocks)
  rw [List.getElem?_eq_getElem (by omega)] at hlast
  refine ⟨u.blocks[u.blocks.length - 1], ?_, hu.last _ hlast⟩
  refine (get?_replace_eq_some_iff hu.consecutive).2 (Or.inl ⟨List.getElem_mem _, ?_⟩)
  have hnumber := hu.consecutive (u.blocks.length - 1) (by omega)
  have hreach := hu.reach
  exact UInt64.toNat_inj.1 (by omega)

/-- An update without blocks starts one above the head. -/
theorem Fits.replaceFrom_of_blocks_eq_nil (hu : Fits config head u) (hnil : u.blocks = []) :
    u.replaceFrom.toNat = head.number.toNat + 1 := by
  have hreach := hu.reach
  rw [hnil, List.length_nil] at hreach
  omega

end Update

/-! ## One call -/

section Call

variable {σ : Type} {S : IndexStore σ} {view : σ → BundleMap} {inv : σ → Prop} {s : Syncer}
  {env : Env} {st st' : σ} {result : SyncResult}

/-- A successful call leaves the selected head on top. -/
theorem get?_head_of_run_syncOnce (hS : LawfulStore S view inv) (hst : inv st)
    (h : (s.syncOnce env).run S.handle st = (.ok result, st')) :
    ∃ b, (view st').get? result.head.number = some b ∧ b.block.hash = result.head.hash := by
  obtain ⟨u, hu, -, happ, hcases⟩ := run_syncOnce_ok hS hst h
  obtain ⟨-, f, hf, hview⟩ := hS.apply_ok hst happ
  have hafter : ∀ {b}, ((view st).replace u).get? result.head.number = some b →
      b.block.hash = result.head.hash → ∃ b, (view st').get? result.head.number = some b ∧
        b.block.hash = result.head.hash := fun {b} hb hh =>
    ⟨f b, by rw [hview, hb, Option.map_some], by rw [hf.hash, hh]⟩
  by_cases hnil : u.blocks = []
  · -- nothing was fetched, so the confirmed height is the head itself
    have hreplace := hu.replaceFrom_of_blocks_eq_nil hnil
    have hretain := UInt64.le_iff_toNat_le.1 hu.le
    rcases hcases with ⟨heq, -⟩ | ⟨n, hn, heq⟩
    · obtain ⟨-, -, -, -, -, -, hvalid, -⟩ := run_syncOnce_eq_ok_iff.1 h
      obtain ⟨-, -, -, -, hw, -⟩ := validateSyncOnceConfig_eq_ok_iff.1 hvalid
      have := UInt64.le_iff_toNat_le.1 (hu.retain_le hw)
      rw [heq] at hreplace
      omega
    · obtain rfl : n = result.head.number := UInt64.toNat_inj.1 (by omega)
      obtain ⟨b, hb, hchain⟩ := hn.block
      rw [chainHash, if_pos rfl, Except.ok.injEq] at hchain
      refine hafter ((get?_replace_eq_some_iff hu.consecutive).2 (Or.inr ⟨hb, hn.retain, ?_⟩))
        hchain.symm
      exact UInt64.lt_iff_toNat_lt.2 (by omega)
  · obtain ⟨b, hb, hh⟩ := get?_replace_head (B := view st) hu hnil
    exact hafter hb hh

/-- **When a successful call leaves the whole window**: it found nothing
to keep, or the start of the window was stored before. -/
theorem spans_of_run_syncOnce_iff (hS : LawfulStore S view inv) (hst : inv st)
    (h : (s.syncOnce env).run S.handle st = (.ok result, st')) :
    Spans (view st') result.fromBlock result.head.number ↔
      (∀ n, ¬ Confirmed (view st) env.node result.head.number result.head.hash result.fromBlock n) ∨
        result.fromBlock ∈ view st := by
  obtain ⟨-, -, -, -, -, -, hvalid, -⟩ := run_syncOnce_eq_ok_iff.1 h
  obtain ⟨-, -, -, -, hw, -⟩ := validateSyncOnceConfig_eq_ok_iff.1 hvalid
  obtain ⟨u, hu, hfrom, happ, hcases⟩ := run_syncOnce_ok hS hst h
  obtain ⟨-, f, hf, hview⟩ := hS.apply_ok hst happ
  have hmem : ∀ n, n ∈ view st' ↔ n ∈ (view st).replace u := fun n => by
    rw [GoMap.mem_iff_get?, GoMap.mem_iff_get?]
    simp [hview]
  rw [hfrom]
  have hspans : Spans (view st') u.retainFrom result.head.number ↔
      Spans ((view st).replace u) u.retainFrom result.head.number := by
    simp only [Spans, hmem]
  rw [hspans]
  rcases hcases with ⟨heq, hnone⟩ | ⟨n, hn, heq⟩
  · exact iff_of_true ((spans_replace_iff hu hw (hS.canonical hst)).2 (Or.inl heq)) (Or.inl hnone)
  · rw [spans_replace_iff_of_confirmed hu hw (hS.canonical hst) hn heq,
      or_iff_right fun h => h n hn]

/-- The window of a store's own tip. -/
def Windowed (w : UInt64) (B : BundleMap) : Prop :=
  B = ∅ ∨ ∃ tip, IsTip B tip ∧ Spans B (windowStart tip.block.number w) tip.block.number

/-- Such a window reaches down to the start of a higher head's. -/
theorem Windowed.retain_mem {B : BundleMap} {w : UInt64} (hw : w ≠ 0) (h : Windowed w B)
    {node : Node} {head : UInt64} {hash : Hash} {n : UInt64}
    (hn : Confirmed B node head hash (windowStart head w) n) : windowStart head w ∈ B := by
  obtain ⟨b, hb, -⟩ := hn.block
  rcases h with hempty | ⟨tip, htip, hspans⟩
  · rw [hempty] at hb
    simp at hb
  · exact (hspans _).2 ⟨windowStart_mono hw (hn.head _ (GoMap.mem_of_get? htip.get?)),
      UInt64.le_trans hn.retain (htip.le n (GoMap.mem_of_get? hb))⟩

/-- **A window of its own tip becomes the window of the head.** -/
theorem spans_of_windowed (hS : LawfulStore S view inv) (hst : inv st)
    (hwin : Windowed s.config.blockWindow (view st))
    (h : (s.syncOnce env).run S.handle st = (.ok result, st')) :
    Spans (view st') result.fromBlock result.head.number := by
  rw [spans_of_run_syncOnce_iff hS hst h]
  obtain ⟨-, -, -, -, -, -, hvalid, -⟩ := run_syncOnce_eq_ok_iff.1 h
  obtain ⟨-, -, -, -, hw, -⟩ := validateSyncOnceConfig_eq_ok_iff.1 hvalid
  obtain ⟨u, hu, hfrom, -⟩ := run_syncOnce_ok hS hst h
  rw [hfrom, hu.retain, or_iff_not_imp_left, not_forall_not]
  rintro ⟨n, hn⟩
  exact hwin.retain_mem hw hn

/-- The window after a successful call is that of its tip. -/
theorem windowed_of_spans (hS : LawfulStore S view inv) (hst : inv st)
    (h : (s.syncOnce env).run S.handle st = (.ok result, st'))
    (hspans : Spans (view st') result.fromBlock result.head.number) :
    Windowed s.config.blockWindow (view st') := by
  obtain ⟨u, hu, hfrom, happ, -⟩ := run_syncOnce_ok hS hst h
  obtain ⟨hst', -⟩ := hS.apply_ok hst happ
  obtain ⟨b, hb, -⟩ := get?_head_of_run_syncOnce hS hst h
  have hnumber := (hS.canonical hst').number hb
  refine Or.inr ⟨b, ⟨hnumber.symm ▸ hb, fun n hn => ?_⟩, ?_⟩
  · rw [hnumber]
    exact ((hspans n).1 hn).2
  · rw [hnumber, ← hu.retain, ← hfrom]
    exact hspans

end Call

/-! ## Runs on the in-memory store -/

section Runs

variable {s : Syncer} {env : Env} {e : MemoryEnv} {m m' : Memory}

/-- An update fixes the chain of the store. -/
theorem Memory.chainID_of_applyCanonicalUpdate {u : CanonicalUpdate}
    (h : (Memory.indexStore e).applyCanonicalUpdate u m = (.ok (), m')) : m'.chainID = u.chainID := by
  rcases Memory.applyCanonicalUpdate_cases (e.order (.applyCanonicalUpdate u))
    (e.ctx (.applyCanonicalUpdate u)) m u with ⟨-, heq⟩ | ⟨f, heq⟩
  · cases heq.symm.trans h
    rfl
  · cases heq.symm.trans h

theorem syncMemory_error {err : Fault} (h : s.syncMemory env e m = (.error err, m')) : m' = m :=
  run_syncOnce_error (Memory.lawful e).apply_error h

/-- **What a run of one syncer keeps.** -/
structure SyncInvariant (s : Syncer) (m : Memory) : Prop where
  memory : m.Invariant
  windowed : Windowed s.config.blockWindow m.bundles
  chain : m.chainID = 0 ∨ m.chainID = s.config.chainID

theorem SyncInvariant.sync (hm : SyncInvariant s m) (env : Env) (e : MemoryEnv) :
    SyncInvariant s (s.syncMemory env e m).2 := by
  obtain ⟨answer, m', hrun⟩ : ∃ answer m', s.syncMemory env e m = (answer, m') := ⟨_, _, rfl⟩
  rw [hrun]
  cases answer with
  | error err =>
    rw [syncMemory_error hrun]
    exact hm
  | ok result =>
    have hS := Memory.lawful e
    have hspans := spans_of_windowed hS hm.memory hm.windowed hrun
    obtain ⟨u, hu, -, happ, -⟩ := run_syncOnce_ok hS hm.memory hrun
    exact ⟨(hS.apply_ok hm.memory happ).1, windowed_of_spans hS hm.memory hrun hspans,
      Or.inr ((Memory.chainID_of_applyCanonicalUpdate happ).trans hu.chainID)⟩

theorem SyncReachable.invariant (hm : SyncReachable s m) : SyncInvariant s m := by
  induction hm with
  | new => exact ⟨Memory.invariant_new, Or.inl rfl, Or.inl rfl⟩
  | sync env e _ ih => exact ih.sync env e

/-- **Safety against an arbitrary node.** A successful call leaves exactly
the window of the selected head, at most as many blocks as configured,
each naming the one below, with the head's own hash on top. A failed call
leaves the store as it was. -/
theorem SyncReachable.syncMemory_safe (hm : SyncReachable s m) (env : Env) (e : MemoryEnv) :
    (∀ result m', s.syncMemory env e m = (.ok result, m') →
      Spans m'.bundles (windowStart result.head.number s.config.blockWindow) result.head.number ∧
      m'.bundles.keys.card ≤ s.config.blockWindow.toNat ∧
      (∀ n k b c, k.toNat = n.toNat + 1 → m'.bundles.get? n = some b →
        m'.bundles.get? k = some c → c.block.parentHash = b.block.hash) ∧
      (∃ b, m'.bundles.get? result.head.number = some b ∧ b.block.hash = result.head.hash) ∧
      ∃ header, s.config.selectedHead env.node = .ok header ∧
        validHeaderNumber header = .ok result.head.number ∧ header.hash = result.head.hash) ∧
    ∀ err m', s.syncMemory env e m = (.error err, m') → m' = m := by
  refine ⟨fun result m' hrun => ?_, fun err m' hrun => syncMemory_error hrun⟩
  have hS := Memory.lawful e
  have hinv := hm.invariant
  obtain ⟨u, hu, hfrom, happ, -⟩ := run_syncOnce_ok hS hinv.memory hrun
  obtain ⟨header, headNumber, storedTip, plan, st₁, bundles, hvalid, hhead, hnumber, -, -, -, -,
    hresult⟩ := run_syncOnce_eq_ok_iff.1 hrun
  obtain ⟨-, -, -, -, hw, -⟩ := validateSyncOnceConfig_eq_ok_iff.1 hvalid
  have hspans := spans_of_windowed hS hinv.memory hinv.windowed hrun
  have hcanonical := (hS.apply_ok hinv.memory happ).1.canonical
  have hstart : result.fromBlock = windowStart result.head.number s.config.blockWindow := by
    rw [hfrom, hu.retain]
  rw [hstart] at hspans
  refine ⟨hspans, ?_, fun n k b c => hcanonical.linked,
    get?_head_of_run_syncOnce hS hinv.memory hrun, header, hhead, ?_, ?_⟩
  · have hcard := hspans.card_le
    rw [toNat_windowStart hw] at hcard
    have hpos : s.config.blockWindow.toNat ≠ 0 := fun h0 => hw (UInt64.toNat_inj.1 h0)
    omega
  · rw [hresult]
    exact hnumber
  · rw [hresult]

/-- A syncer of the main chain with a window of three. -/
def threeBlocks : Syncer :=
  .new { chainID := 1, blockWindow := 3, headMode := .latest, rpcConcurrency := 2 }

theorem threeBlocks_valid : threeBlocks.validateSyncOnceConfig = .ok () :=
  validateSyncOnceConfig_eq_ok_iff.2 ⟨⟨some 1⟩, rfl, by decide, rfl, by decide, by decide, rfl, rfl,
    by decide, by simp [threeBlocks, Syncer.new]⟩

/-- Safety at work: a store synchronized to block 4, then to block 5. -/
theorem syncMemory_safe_growing :
    let chain (head : UInt64) := (EthChain.bare head fun n => .spelling n.toNat).env
    ∃ result m', threeBlocks.syncMemory (chain 5) .calm
        (threeBlocks.syncMemory (chain 4) .calm Memory.new).2 = (.ok result, m') ∧
      Spans m'.bundles (windowStart result.head.number 3) result.head.number := by
  intro chain
  have hok : (threeBlocks.syncMemory (chain 5) .calm
      (threeBlocks.syncMemory (chain 4) .calm Memory.new).2).1.isOk = true := by decide +kernel
  have hm := SyncReachable.new.sync (s := threeBlocks) (chain 4) .calm
  rcases hrun : threeBlocks.syncMemory (chain 5) .calm
    (threeBlocks.syncMemory (chain 4) .calm Memory.new).2 with ⟨err | result, m'⟩
  · rw [hrun] at hok
    cases hok
  · exact ⟨result, m', rfl, ((hm.syncMemory_safe (chain 5) .calm).1 result m' hrun).1⟩

end Runs

end EthIndexer
