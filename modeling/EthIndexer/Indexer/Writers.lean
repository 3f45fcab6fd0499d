import EthIndexer.Indexer.Postgres
import EthIndexer.Indexer.Safety
/-!
# Several writers on one store

The calls of several synchronizations interleave: one reads the tip and
the hashes, fetches, and applies its update to whatever the store has
become. What holds of a client alone is said of every node of its session
(`forall_syncOnce`): it succeeds only by the update it applies, and the
update fits the head it reports. Whether the window is stored afterwards
is then a question about the store the update meets. An update that keeps
blocks has seen them at an earlier time; where another writer has moved
the window since, the kept part is gone.
-/

namespace EthIndexer

/-! ## One writer -/

/-- **What a writer is about to do.** It succeeds by the update it applies
and by nothing else, and the update fits the head it then reports. -/
def WriterNode (config : Config) : (r : Request) → (Response r → Sync SyncResult) → Prop
  | .applyCanonicalUpdate u, k => ∃ result, Fits config result.head u ∧
      result.fromBlock = u.retainFrom ∧ k (.ok ()) = .ret (.ok result) ∧
      ∀ err, (k (.error err)).Pending
  | .canonicalTip, k => ∀ x, (k x).Pending
  | .canonicalHash _, k => ∀ x, (k x).Pending

theorem writerNode_of_isRead {config : Config} {r : Request} {k : Response r → Sync SyncResult}
    (hr : r.IsRead) (h : ∀ x, (k x).Pending) : WriterNode config r k := by
  cases r with
  | canonicalTip => exact h
  | canonicalHash => exact h
  | applyCanonicalUpdate => exact hr.elim

theorem forall_syncOnce (s : Syncer) (env : Env) :
    (s.syncOnce env).Forall (WriterNode s.config) := by
  refine Session.forall_lift_bind fun _ hvalid => Session.forall_lift_bind fun header _ =>
    Session.forall_lift_bind fun head _ => ?_
  obtain ⟨-, -, -, -, hw, -⟩ := validateSyncOnceConfig_eq_ok_iff.1 hvalid
  -- what follows a read makes another call before it returns
  refine ⟨fun x => Session.pending_bind _ fun tip => Session.pending_bind _ fun plan =>
    Session.pending_bind _ fun bundles => Session.pending_call _ _, fun x => ?_⟩
  refine Session.forall_lift_bind fun tip _ => Session.Forall.bind
    (forall_replacementStart fun r k hr => writerNode_of_isRead hr fun x =>
      Session.pending_bind _ fun plan => Session.pending_bind _ fun bundles =>
        Session.pending_call _ _)
    (ensures_replacementStart tip (windowStart_le hw)) fun plan hplan => ?_
  refine Session.forall_lift_bind fun bundles hfetch => ⟨⟨_, ?_, rfl, rfl, ?_⟩, fun x => ?_⟩
  · exact fits_of_fetchCanonical ⟨head, header.hash⟩ hplan hfetch
  · exact fun err => Session.pending_error _
  · cases x <;> trivial

/-- **A session that finds its head stored** reads the tip and then
applies an update without blocks. -/
theorem syncOnce_current {s : Syncer} {env : Env} (hvalid : s.validateSyncOnceConfig = .ok ())
    {header : Header} {head : UInt64} (hhead : s.config.selectedHead env.node = .ok header)
    (hnumber : validHeaderNumber header = .ok head) (hmax : head ≠ maxUint64) :
    ∃ k : Go (Option ChainTip) → Sync SyncResult, s.syncOnce env = .call .canonicalTip k ∧
      ∃ k' : Go Unit → Sync SyncResult,
        k (.ok (some ⟨head, header.hash⟩)) = .call (.applyCanonicalUpdate ⟨s.config.chainID,
          head + 1, windowStart head s.config.blockWindow, [], env.now⟩) k' ∧
        ∃ result, k' (.ok ()) = .ret (.ok result) ∧ result.head = ⟨head, header.hash⟩ := by
  obtain ⟨-, -, -, -, hw, -⟩ := validateSyncOnceConfig_eq_ok_iff.1 hvalid
  have hplan : replacementStart env.node (some ⟨head, header.hash⟩) head header.hash
      (windowStart head s.config.blockWindow) = .ret (.ok ⟨head + 1, .current, none⟩) := by
    simp [replacementStart, windowStart_le hw, hmax]
  have hfetch : s.fetchCanonical env (head + 1) head header.hash = .ok [] := by
    have hsucc := toNat_succ_of_ne hmax
    exact if_neg fun hle => by
      rw [UInt64.le_iff_toNat_le] at hle
      omega
  unfold Syncer.syncOnce
  rw [hvalid, hhead]
  simp only [Session.lift, Session.ret_ok_bind, hnumber]
  refine ⟨_, rfl, ?_⟩
  change ∃ k', (replacementStart env.node (some ⟨head, header.hash⟩) head header.hash
      (windowStart head s.config.blockWindow) >>= _) = _ ∧ _
  rw [hplan, Session.ret_ok_bind, hfetch]
  exact ⟨_, rfl, _, rfl, rfl⟩

/-! ## Several writers -/

/-- The synchronizations of syncers with one configuration, each with a
node of its own. -/
def Writers (config : Config) (p : Sync SyncResult) : Prop :=
  ∃ (s : Syncer) (env : Env), s.config = config ∧ s.validateSyncOnceConfig = .ok () ∧
    p = s.syncOnce env

section Pool

variable {ι σ : Type} [DecidableEq ι] {view : σ → BundleMap} {inv : σ → Prop} {config : Config}
  {st : σ} {c : Pool ι Request Response Fault SyncResult σ}

/-- The ways a store with the laws can answer. -/
def ServedBy (view : σ → BundleMap) (inv : σ → Prop)
    (handle : (r : Request) → σ → Response r × σ) : Prop :=
  ∃ S : IndexStore σ, LawfulStore S view inv ∧ handle = S.handle

theorem forall_writers {p : Sync SyncResult} (hp : Writers config p) :
    p.Forall (WriterNode config) := by
  obtain ⟨s, env, rfl, -, rfl⟩ := hp
  exact forall_syncOnce s env

theorem LawfulStore.inv_handle {S : IndexStore σ} (hS : LawfulStore S view inv) (r : Request)
    {s : σ} (hs : inv s) : inv (S.handle r s).2 := by
  cases r with
  | canonicalTip => exact hs
  | canonicalHash => exact hs
  | applyCanonicalUpdate u =>
    rcases happ : S.applyCanonicalUpdate u s with ⟨err | ⟨⟩, s'⟩
    · rw [IndexStore.handle, happ, hS.apply_error happ]
      exact hs
    · rw [IndexStore.handle, happ]
      exact (hS.apply_ok hs happ).1

/-- The store stays lawful under every interleaving. -/
theorem inv_of_reachable (hst : inv st)
    (hc : Pool.Reachable (Writers config) (ServedBy view inv) st c) : inv c.shared := by
  refine hc.shared (fun p => forall_writers) hst ?_
  rintro _ ⟨S, hS, rfl⟩ r k s - hs
  exact hS.inv_handle r hs

/-- **The window a call reports is what is stored**: the reported head is
the tip, and the heights are those of the reported window. -/
structure StoresReported (B : BundleMap) (result : SyncResult) : Prop where
  nonempty : B ≠ ∅
  tip : ∃ b, IsTip B b ∧ b.chainTip = result.head
  spans : Spans B result.fromBlock result.head.number

/-- **An update that the store has not outgrown**: it replaces the whole
window, or the store still has the window's start and the block below the
first new one, and that block is the head itself when there is no new
one. -/
def StillApplies (B : BundleMap) (u : CanonicalUpdate) (head : ChainTip) : Prop :=
  u.replaceFrom = u.retainFrom ∨ (u.retainFrom ∈ B ∧
    ∃ b, B.get? (u.replaceFrom - 1) = some b ∧ (u.blocks = [] → b.block.hash = head.hash))

section Update

variable {head : ChainTip} {u : CanonicalUpdate} {B B' : BundleMap}

/-- The head after an update that the store has not outgrown. -/
theorem StillApplies.get?_head (h : StillApplies B u head) (hu : Fits config head u)
    (hw : config.blockWindow ≠ 0) :
    ∃ b, (B.replace u).get? head.number = some b ∧ b.block.hash = head.hash := by
  by_cases hnil : u.blocks = []
  · have hreplace := hu.replaceFrom_of_blocks_eq_nil hnil
    have hretain := UInt64.le_iff_toNat_le.1 (hu.retain_le hw)
    rcases h with heq | ⟨-, b, hb, hhash⟩
    · rw [heq] at hreplace
      omega
    · have hlt : head.number < u.replaceFrom := UInt64.lt_iff_toNat_lt.2 (by omega)
      have hpred : u.replaceFrom - 1 = head.number := UInt64.toNat_inj.1 (by
        rw [toNat_pred_of_lt hlt]
        omega)
      rw [hpred] at hb
      exact ⟨b, (get?_replace_eq_some_iff hu.consecutive).2 (Or.inr ⟨hb, hu.retain_le hw, hlt⟩),
        hhash hnil⟩
  · exact get?_replace_head hu hnil

/-- Conversely, the head on top of an update without blocks was there
before. -/
theorem hash_of_blocks_eq_nil (hu : Fits config head u) (hnil : u.blocks = []) {c : BlockBundle}
    (hc : (B.replace u).get? head.number = some c) {b : BlockBundle}
    (hb : B.get? (u.replaceFrom - 1) = some b) : b = c := by
  have hreplace := hu.replaceFrom_of_blocks_eq_nil hnil
  have hlt : head.number < u.replaceFrom := UInt64.lt_iff_toNat_lt.2 (by omega)
  have hpred : u.replaceFrom - 1 = head.number := UInt64.toNat_inj.1 (by
    rw [toNat_pred_of_lt hlt]
    omega)
  rw [hpred] at hb
  rcases (get?_replace_eq_some_iff hu.consecutive).1 hc with ⟨hmem, -⟩ | ⟨hc, -⟩
  · rw [hnil] at hmem
    exact absurd hmem List.not_mem_nil
  · exact Option.some.inj (hb.symm.trans hc)

/-- **What an update leaves is what its call reports** exactly when the
store has not outgrown it. -/
theorem storesReported_iff {result : SyncResult} {f : BlockBundle → BlockBundle}
    (hu : Fits config result.head u) (hfrom : result.fromBlock = u.retainFrom)
    (hw : config.blockWindow ≠ 0) (hB : Canonical B) (hB' : Canonical B') (hf : KeepsChain f)
    (hget : ∀ n, B'.get? n = ((B.replace u).get? n).map f) :
    StoresReported B' result ↔ StillApplies B u result.head := by
  have hspans : Spans B' result.fromBlock result.head.number ↔
      u.replaceFrom = u.retainFrom ∨ (u.retainFrom ∈ B ∧ u.replaceFrom - 1 ∈ B) := by
    rw [← spans_replace_iff hu hw hB, hfrom]
    refine forall_congr' fun n => ?_
    rw [GoMap.mem_iff_get?, GoMap.mem_iff_get?]
    simp [hget]
  constructor
  · rintro ⟨-, ⟨b, hb, hhead⟩, hall⟩
    rcases hspans.1 hall with heq | ⟨hretain, hpred⟩
    · exact Or.inl heq
    -- an update without blocks leaves the head to the block it connects to
    · obtain ⟨d, hd⟩ := GoMap.mem_iff_get?.1 hpred
      refine Or.inr ⟨hretain, d, hd, fun hnil => ?_⟩
      have hb' := hb.get?
      rw [hget] at hb'
      obtain ⟨c, hc, rfl⟩ := Option.map_eq_some_iff.1 hb'
      have hnumber : (f c).block.number = result.head.number := congrArg ChainTip.number hhead
      rw [hnumber] at hc
      rw [hash_of_blocks_eq_nil hu hnil hc hd, ← hf.hash]
      exact congrArg ChainTip.hash hhead
  · intro happlies
    obtain ⟨b, hb, hhash⟩ := happlies.get?_head hu hw
    have hall : Spans B' result.fromBlock result.head.number := hspans.2 (by
      rcases happlies with heq | ⟨hretain, d, hd, -⟩
      · exact Or.inl heq
      · exact Or.inr ⟨hretain, GoMap.mem_of_get? hd⟩)
    have hget' : B'.get? result.head.number = some (f b) := by rw [hget, hb, Option.map_some]
    have hnumber := hB'.number hget'
    refine ⟨?_, ⟨f b, ⟨by rw [hnumber]; exact hget', fun n hn => ?_⟩, ?_⟩, hall⟩
    · rintro rfl
      simp at hget'
    · rw [hnumber]
      exact ((hall n).1 hn).2
    · rw [BlockBundle.chainTip, hnumber, hf.hash, hhash]

end Update

/-- **A writer that finds its head stored** is about to apply an update
without blocks. -/
theorem reachable_current (hc : Pool.Reachable (Writers config) (ServedBy view inv) st c) (i : ι)
    {x : Go SyncResult} (hidle : c.client i = .ret x) (s : Syncer) (env : Env)
    (hconfig : s.config = config) (hvalid : s.validateSyncOnceConfig = .ok ()) {header : Header}
    {head : UInt64} (hhead : s.config.selectedHead env.node = .ok header)
    (hnumber : validHeaderNumber header = .ok head) (hmax : head ≠ maxUint64)
    {S : IndexStore σ} (hS : LawfulStore S view inv)
    (htip : S.canonicalTip c.shared = .ok (some ⟨head, header.hash⟩)) :
    ∃ (k : Go Unit → Sync SyncResult) (result : SyncResult),
      Pool.Reachable (Writers config) (ServedBy view inv) st
        ⟨c.shared, Function.update c.client i (.call (.applyCanonicalUpdate
          ⟨config.chainID, head + 1, windowStart head config.blockWindow, [], env.now⟩) k)⟩ ∧
      k (.ok ()) = .ret (.ok result) ∧ result.head = ⟨head, header.hash⟩ := by
  obtain ⟨k, hcall, k', hnext, result, hret, hresult⟩ := syncOnce_current hvalid hhead hnumber hmax
  have hstart := hc.step (.start i hidle ⟨s, env, hconfig, hvalid, rfl⟩)
  have hread := hstart.step (.call i ((Function.update_self i _ _).trans hcall) ⟨S, hS, rfl⟩)
  refine ⟨k', result, ?_, hret, hresult⟩
  simp only [IndexStore.handle, htip, Function.update_idem] at hread
  subst hconfig
  rw [← hnext]
  exact hread

/-- **When concurrent writers keep the window.** In every interleaving, a
call that succeeds does so by the update it applies, and right after it
the store holds exactly what the call reports if and only if the store it
was applied to had not outgrown the update. -/
theorem storesReported_of_writers_iff (hw : config.blockWindow ≠ 0) (hst : inv st)
    (hc : Pool.Reachable (Writers config) (ServedBy view inv) st c) {S : IndexStore σ}
    (hS : LawfulStore S view inv) {i : ι} {r : Request} {k : Response r → Sync SyncResult}
    (hcall : c.client i = .call r k) {result : SyncResult}
    (hok : k (S.handle r c.shared).1 = .ret (.ok result)) :
    ∃ u, r = .applyCanonicalUpdate u ∧
      (StoresReported (view (S.handle r c.shared).2) result ↔
        StillApplies (view c.shared) u result.head) := by
  have hinv := inv_of_reachable hst hc
  have hnode := hc.forall (fun p => forall_writers) i
  rw [hcall] at hnode
  cases r with
  | canonicalTip => exact absurd hok (hnode.1 _ _)
  | canonicalHash => exact absurd hok (hnode.1 _ _)
  | applyCanonicalUpdate u =>
    obtain ⟨result', hu, hfrom, hk, herr⟩ := hnode.1
    rcases happ : S.applyCanonicalUpdate u c.shared with ⟨err | ⟨⟩, s'⟩
    · rw [IndexStore.handle, happ] at hok
      exact absurd hok (herr err result)
    · rw [IndexStore.handle, happ] at hok ⊢
      obtain rfl : result' = result := by
        rw [hk] at hok
        cases hok
        rfl
      obtain ⟨hinv', f, hf, hget⟩ := hS.apply_ok hinv happ
      exact ⟨u, rfl, storesReported_iff hu hfrom hw (hS.canonical hinv) (hS.canonical hinv') hf hget⟩

end Pool

/-! ## A stale update -/

namespace Postgres

/-- A node whose chain of bare blocks ends at `head`. -/
def steady (head : UInt64) : Env := (EthChain.bare head fun n => .spelling n.toNat).env

/-- The blocks 2 to 4, and what a writer that is ahead makes of them. -/
def tablesBehind : Tables :=
  ((threeBlocks.syncOnce (steady 4)).run (indexStore .calm).handle .empty).2

def tablesAhead : Tables :=
  ((threeBlocks.syncOnce (steady 10)).run (indexStore .calm).handle tablesBehind).2

theorem view_eq_empty_of_blocks {T : Tables} (h : T.blocks = []) : view T = ∅ := by
  rw [view, Tables.regroup, h]
  rfl

theorem writers_steady (head : UInt64) :
    Writers threeBlocks.config (threeBlocks.syncOnce (steady head)) :=
  ⟨threeBlocks, steady head, rfl, threeBlocks_valid, rfl⟩

/-- The update of a writer that finds block 4 stored and current. -/
def keepFour : CanonicalUpdate := ⟨threeBlocks.config.chainID, 5, 2, [], 0⟩

/-- Such a writer can be about to apply it to the tables it found, with
another writer idle. -/
theorem reachable_keepFour : ∃ (k : Go Unit → Sync SyncResult) (result : SyncResult)
    (client : Bool → Sync SyncResult),
    Pool.Reachable (Writers threeBlocks.config) (ServedBy view Sound) Tables.empty
      ⟨tablesBehind, client⟩ ∧
    client false = .call (.applyCanonicalUpdate keepFour) k ∧ (∃ x, client true = .ret x) ∧
    k (.ok ()) = .ret (.ok result) ∧ result.head = ⟨4, .spelling 4⟩ := by
  have hserved : ServedBy view Sound (indexStore .calm).handle := ⟨_, lawful _, rfl⟩
  let idle : Bool → Sync SyncResult := fun _ => .ret (.error (.panic ""))
  have hidle : Pool.Reachable (Writers threeBlocks.config) (ServedBy view Sound) Tables.empty
      ⟨.empty, idle⟩ := .init fun _ => ⟨_, rfl⟩
  have hbehind : Pool.Reachable (Writers threeBlocks.config) (ServedBy view Sound) Tables.empty
      ⟨tablesBehind, Function.update idle false (.ret ((threeBlocks.syncOnce (steady 4)).run
        (indexStore .calm).handle .empty).1)⟩ := hidle.run rfl (writers_steady 4) hserved
  have hselected : threeBlocks.config.selectedHead (steady 4).node = .ok ⟨some 4, .spelling 4⟩ := rfl
  have hnumber : validHeaderNumber ⟨some 4, .spelling 4⟩ = .ok 4 := by decide
  have htip : (indexStore .calm).canonicalTip tablesBehind = .ok (some ⟨4, .spelling 4⟩) := by
    decide +kernel
  obtain ⟨k, result, hreach, hret, hhead⟩ := reachable_current hbehind false
    rfl threeBlocks (steady 4) rfl threeBlocks_valid hselected hnumber
    (by decide) (lawful .calm) htip
  exact ⟨k, result, _, hreach, Function.update_self _ _ _, ⟨_, rfl⟩, hret, hhead⟩

/-- Applied to the tables it was made for, the update leaves what the call
reports. -/
theorem storesReported_keepFour : ∃ result : SyncResult, result.head = ⟨4, .spelling 4⟩ ∧
    StoresReported
      (view ((indexStore .calm).handle (.applyCanonicalUpdate keepFour) tablesBehind).2) result := by
  obtain ⟨k, result, client, hreach, hclient, -, hret, hhead⟩ := reachable_keepFour
  have hanswer : ((indexStore .calm).handle (.applyCanonicalUpdate keepFour) tablesBehind).1 =
      .ok () := by decide +kernel
  obtain ⟨u, hu, hiff⟩ := storesReported_of_writers_iff (by decide) ⟨∅, holds_empty⟩ hreach
    (lawful .calm) hclient ((congrArg k hanswer).trans hret)
  cases hu
  have hretain : (2 : UInt64) ∈ view tablesBehind := by decide +kernel
  have hfour : ((view tablesBehind).get? 4).map (fun b => b.block.hash) = some (.spelling 4) := by
    decide +kernel
  obtain ⟨b, hb, hhash⟩ := Option.map_eq_some_iff.1 hfour
  exact ⟨result, hhead, hiff.2 (Or.inr ⟨hretain, b, hb, fun _ => by rw [hhash, hhead]⟩)⟩

/-- **A stale update can empty the tables.** One writer reads the tip 4
and finds it current; before it applies its update without blocks another
writer moves the window to the blocks 8 to 10. The update deletes them
all, and its call succeeds with head 4. -/
theorem stale_update_empties : ∃ (k : Go Unit → Sync SyncResult) (result : SyncResult)
    (client : Bool → Sync SyncResult),
    Pool.Reachable (Writers threeBlocks.config) (ServedBy view Sound) Tables.empty
      ⟨tablesAhead, client⟩ ∧
    client false = .call (.applyCanonicalUpdate keepFour) k ∧
    k ((indexStore .calm).handle (.applyCanonicalUpdate keepFour) tablesAhead).1 =
      .ret (.ok result) ∧ result.head = ⟨4, .spelling 4⟩ ∧
    (indexStore .calm).canonicalTip tablesAhead = .ok (some ⟨10, .spelling 10⟩) ∧
    view ((indexStore .calm).handle (.applyCanonicalUpdate keepFour) tablesAhead).2 = ∅ ∧
    ¬ StoresReported
      (view ((indexStore .calm).handle (.applyCanonicalUpdate keepFour) tablesAhead).2) result := by
  obtain ⟨k, result, client, hreach, hclient, ⟨x, hidle⟩, hret, hhead⟩ := reachable_keepFour
  have hanswer : ((indexStore .calm).handle (.applyCanonicalUpdate keepFour) tablesAhead).1 =
      .ok () := by decide +kernel
  have hempty : view ((indexStore .calm).handle (.applyCanonicalUpdate keepFour) tablesAhead).2 =
      ∅ := view_eq_empty_of_blocks (by decide +kernel)
  have hahead := hreach.run hidle (writers_steady 10) ⟨indexStore .calm, lawful _, rfl⟩
  exact ⟨k, result, _, hahead, hclient, (congrArg k hanswer).trans hret, hhead, by decide +kernel,
    hempty, fun h => h.nonempty hempty⟩

end Postgres

end EthIndexer
