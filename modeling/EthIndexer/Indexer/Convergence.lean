import EthIndexer.Indexer.Safety
/-!
# Convergence to the chain a node serves

When the node answers from one chain and nothing fails, a call succeeds
and leaves that chain's window. The plan looks at one stored block only,
the highest the chain has; that everything below it is the chain's as well
is the descent along parent hashes (`HashChain.agree_below`), under the
assumption that a hash determines a block.

Success needs three things: the search comes to an end without an error
(`exists_run_replacementStart`), the range can be fetched
(`exists_fetchCanonical`), and the store takes the update, because every
block of the resulting window has the content of the chain's block
(`canonical_of_served`).
-/

namespace EthIndexer

/-! ## The search comes to an end -/

section Search

variable {σ : Type} {S : IndexStore σ} {st : σ} {node : Node} {storedTip : ChainTip}
  {headNumber : UInt64} {headHash : Hash} {retainFrom : UInt64}

/-- A step of the search succeeds where the node and the store answer. -/
theorem exists_run_probe (storedTip : ChainTip)
    (hstore : ∀ n err, S.canonicalHash n st = .error err → err.Is .notFound) {number : UInt64}
    (hnode : ∃ h, chainHash node number headNumber headHash = .ok h) :
    ∃ r, (probe node storedTip headNumber headHash number).run S.handle st = (.ok r, st) := by
  obtain ⟨h, hh⟩ := hnode
  rw [probe, Session.run_bind, run_storedHash]
  dsimp only
  generalize hanswer : storedAnswer S st storedTip number = answer
  cases answer with
  | error err =>
    unfold storedAnswer at hanswer
    split at hanswer
    · cases hanswer
    · dsimp only
      rw [if_pos (hstore _ _ hanswer)]
      exact ⟨_, rfl⟩
  | ok hash =>
    dsimp only
    rw [Session.run_bind, Session.run_lift, hh]
    dsimp only
    split <;> exact ⟨_, rfl⟩

theorem exists_run_commonAncestorFrom (storedTip : ChainTip)
    (hstore : ∀ n err, S.canonicalHash n st = .error err → err.Is .notFound)
    (hnode : ∀ n, n ≤ headNumber → ∃ h, chainHash node n headNumber headHash = .ok h) (fuel : ℕ)
    {number : UInt64} (hretain : retainFrom ≤ number) (hnumber : number ≤ headNumber) :
    ∃ ancestor, (commonAncestorFrom node storedTip headNumber headHash retainFrom fuel number).run
      S.handle st = (.ok ancestor, st) := by
  induction fuel using Nat.strongRecOn generalizing number with
  | _ fuel ih =>
    obtain ⟨r, hr⟩ := exists_run_probe storedTip hstore (hnode number hnumber)
    unfold commonAncestorFrom
    rw [Session.run_bind, hr]
    cases r with
    | missing => exact ⟨_, rfl⟩
    | found a => exact ⟨_, rfl⟩
    | differs =>
      dsimp only
      split
      · exact ⟨_, rfl⟩
      · rename_i hne
        cases fuel with
        | zero => exact ⟨_, rfl⟩
        | succ fuel =>
          have hlt : retainFrom < number := by grind
          have hpred := toNat_pred_of_lt hlt
          rw [UInt64.lt_iff_toNat_lt] at hlt
          rw [UInt64.le_iff_toNat_le] at hnumber
          exact ih fuel (by omega) (UInt64.le_iff_toNat_le.2 (by omega))
            (UInt64.le_iff_toNat_le.2 (by omega))

theorem exists_run_commonAncestor (storedTip : ChainTip)
    (hstore : ∀ n err, S.canonicalHash n st = .error err → err.Is .notFound)
    (hnode : ∀ n, n ≤ headNumber → ∃ h, chainHash node n headNumber headHash = .ok h)
    (hretain : retainFrom ≤ storedTip.number) (hhead : storedTip.number ≤ headNumber) :
    ∃ ancestor, (commonAncestor node storedTip headNumber headHash retainFrom).run S.handle st =
      (.ok ancestor, st) := by
  rw [commonAncestor, min_eq_of_le hhead]
  exact exists_run_commonAncestorFrom storedTip hstore hnode _ hretain hhead

/-- **A plan is made** where no read fails, unless the tip is the head and
has the last block number. -/
theorem exists_run_replacementStart {view : σ → BundleMap} {inv : σ → Prop}
    (hS : LawfulStore S view inv) (hst : inv st) {tip : Option ChainTip}
    (hread : S.canonicalTip st = .ok tip)
    (hstore : ∀ n err, S.canonicalHash n st = .error err → err.Is .notFound)
    (hnode : ∀ n, n ≤ headNumber → ∃ h, chainHash node n headNumber headHash = .ok h)
    (hmax : tip = some ⟨headNumber, headHash⟩ → headNumber ≠ maxUint64) :
    ∃ plan, (replacementStart node tip headNumber headHash retainFrom).run S.handle st =
      (.ok plan, st) := by
  rcases hS.tip hst hread with ⟨rfl, -⟩ | ⟨b, hb, rfl⟩
  · exact ⟨_, rfl⟩
  · unfold replacementStart
    dsimp only
    split
    · exact ⟨_, rfl⟩
    · rename_i hin
      simp only [gt_iff_lt, not_or, UInt64.not_lt] at hin
      split
      · rename_i hcurrent
        rw [if_neg (hmax (congrArg some (congrArg₂ ChainTip.mk hcurrent.1 hcurrent.2)))]
        exact ⟨_, rfl⟩
      · rename_i hother
        obtain ⟨ancestor, hsearch⟩ := exists_run_commonAncestor b.chainTip hstore hnode hin.2 hin.1
        rw [Session.run_bind, hsearch]
        cases ancestor with
        | none => exact ⟨_, rfl⟩
        | some a =>
          have hne : a.number ≠ maxUint64 := by
            intro heq
            -- the ancestor would be the tip and the head at once
            obtain ⟨-, hsound, -⟩ := run_commonAncestor_eq_ok hS hst hb hin.2 hin.1 hsearch
            obtain ⟨-, b', -, hb', -, hchain⟩ := hsound a rfl
            have hle := hb.le _ (GoMap.mem_of_get? hb')
            have hab : a.number = b.block.number := UInt64.le_antisymm hle (heq ▸ uint64_le_max _)
            have hah : a.number = headNumber :=
              UInt64.le_antisymm (UInt64.le_trans hle hin.1) (heq ▸ uint64_le_max _)
            rw [hab, hb.get?, Option.some.injEq] at hb'
            rw [chainHash, if_pos hah, Except.ok.injEq, ← hb'] at hchain
            exact hother ⟨hab.symm.trans hah, hchain.symm⟩
          simp only [Session.run_lift, ancestorPlan, if_neg hne]
          split <;> exact ⟨_, rfl⟩

end Search

/-! ## What the chain answers -/

section Served

variable {c : EthChain} {f : Fetcher} {env : Env}

/-- The fetched bundle carries the chain's hashes. -/
theorem EthChain.hash_of_fetchBlock (hnode : env.node = c.node) {n : UInt64}
    (hn : n ≤ c.head) {b : BlockBundle} (hb : f.fetchBlock env n = .ok b) :
    b.block.hash = (c.block n).hash ∧ b.block.parentHash = (c.block n).parentHash := by
  obtain ⟨block, positions, logs, events, hblock, -, -, -, -, -, heq⟩ := fetchBlock_eq_ok hb
  rw [hnode, EthChain.blockByNumber_node hn] at hblock
  cases hblock
  rw [heq]
  exact ⟨rfl, rfl⟩

/-- The hash that the node has for a number. -/
theorem EthChain.HashLinked.chainHash_eq (hc : c.HashLinked) (hnode : env.node = c.node)
    {n : UInt64} (hn : n ≤ c.head) :
    chainHash env.node n c.head (c.block c.head).hash = .ok (c.block n).hash := by
  unfold chainHash
  split
  · rename_i heq
    rw [heq]
  · have hanswer : c.node.headerByNumber (.number n) = .ok (some (c.header n)) := if_pos hn
    have hvalid : validHeaderNumber (c.header n) = .ok n := by
      rw [validHeaderNumber, EthChain.header, asUint64_eq_some_iff.2 (hc.number hn)]
    rw [hnode, hanswer, Go.bind_eq_ok_iff]
    refine ⟨some (c.header n), rfl, ?_⟩
    simp only [Go.bind_eq_ok_iff, Go.failIf_eq_ok_iff, Go.pure_eq_ok_iff, exists_const]
    exact ⟨n, hvalid, not_not.2 rfl, rfl⟩

/-- What is fetched, as a window of its own. -/
def servedWindow (c : EthChain) (f : Fetcher) (env : Env) (n : UInt64) : Option BlockBundle :=
  if n ≤ c.head then (f.fetchBlock env n).toOption else none

theorem servedWindow_eq_some_iff {n : UInt64} {b : BlockBundle} :
    servedWindow c f env n = some b ↔ n ≤ c.head ∧ f.fetchBlock env n = .ok b := by
  unfold servedWindow
  split
  · rename_i hn
    cases f.fetchBlock env n <;> simp [hn, Except.toOption]
  · rename_i hn
    simp [hn]

theorem EthChain.Valid.connected_servedWindow (hc : c.Valid f) (hnode : env.node = c.node) :
    HashChain.Connected (servedWindow c f env) := by
  intro i j k _ hj _ hkj
  obtain ⟨b, hb⟩ := Option.isSome_iff_exists.1 hj
  have hk : k ≤ c.head :=
    UInt64.le_trans (UInt64.le_iff_toNat_le.2 hkj) (servedWindow_eq_some_iff.1 hb).1
  obtain ⟨b', hb'⟩ := hc.fetched hnode hk
  rw [servedWindow_eq_some_iff.2 ⟨hk, hb'⟩]
  rfl

theorem EthChain.Valid.linked_servedWindow (hc : c.Valid f) (hnode : env.node = c.node) :
    HashChain.Linked (fun b : BlockBundle => b.block.hash) (fun b => b.block.parentHash)
      (servedWindow c f env) := by
  intro i j b b' hij hb hb'
  obtain ⟨hi, hb⟩ := servedWindow_eq_some_iff.1 hb
  obtain ⟨hj, hb'⟩ := servedWindow_eq_some_iff.1 hb'
  change b'.block.parentHash = b.block.hash
  rw [(EthChain.hash_of_fetchBlock hnode hj hb').2, (EthChain.hash_of_fetchBlock hnode hi hb).1]
  exact hc.linked hij hj

/-- Every bundle of the map has the content of the chain's block. -/
def Served (B : BundleMap) (c : EthChain) (f : Fetcher) (env : Env) : Prop :=
  ∀ {n b}, B.get? n = some b → ∃ served, n ≤ c.head ∧ f.fetchBlock env n = .ok served ∧
    b.content = served.content

/-- **A window of the chain's own blocks is canonical.** -/
theorem canonical_of_served (hc : c.Valid f) (hnode : env.node = c.node) {B : BundleMap}
    (hB : Served B c f env)
    (hinterval : ∀ {i j n : UInt64}, i ∈ B → j ∈ B → i ≤ n → n ≤ j → n ∈ B) : Canonical B where
  number hb := by
    obtain ⟨served, hn, hserved, hcontent⟩ := hB hb
    rw [← number_of_fetchBlock hserved]
    exact congrArg (fun b => b.block.number) hcontent
  wellFormed hb := by
    obtain ⟨served, hn, hserved, hcontent⟩ := hB hb
    rw [← wellFormed_content_iff, hcontent, wellFormed_content_iff]
    exact wellFormed_of_fetchBlock hserved
  interval := hinterval
  linked {n m b b'} hnm hb hb' := by
    obtain ⟨x, hn, hx, hbx⟩ := hB hb
    obtain ⟨y, hm, hy, hby⟩ := hB hb'
    have h1 : b.block.hash = x.block.hash := congrArg (fun b => b.block.hash) hbx
    have h2 : b'.block.parentHash = y.block.parentHash :=
      congrArg (fun b => b.block.parentHash) hby
    rw [h1, h2]
    exact hc.linked_servedWindow hnode hnm (servedWindow_eq_some_iff.2 ⟨hn, hx⟩)
      (servedWindow_eq_some_iff.2 ⟨hm, hy⟩)
  distinct {n m b b' t v} hb hb' ht hv htv := by
    obtain ⟨x, hn, hx, hbx⟩ := hB hb
    obtain ⟨y, hm, hy, hby⟩ := hB hb'
    have hserved : ∀ {k : UInt64} {b x : BlockBundle} {t : Transaction}, k ≤ c.head →
        f.fetchBlock env k = .ok x → b.content = x.content → t ∈ b.transactions →
          ∃ e, some e ∈ (c.block k).transactions ∧ e.hash = t.hash := by
      intro k b x t hk hx hbx ht
      have hmem : t.hash ∈ b.transactions.map Transaction.hash := List.mem_map_of_mem ht
      rw [← map_hash_content, hbx, map_hash_content] at hmem
      obtain ⟨t', ht', heq⟩ := List.mem_map.1 hmem
      obtain ⟨block, e, hblock, he, hh⟩ := exists_transaction_of_fetchBlock hx ht'
      rw [hnode, EthChain.blockByNumber_node hk] at hblock
      cases hblock
      exact ⟨e, he, hh.trans heq⟩
    obtain ⟨e, he, heh⟩ := hserved hn hx hbx ht
    obtain ⟨e', he', heh'⟩ := hserved hm hy hby hv
    exact hc.distinct hn hm he he' (by rw [heh, heh', htv])

/-- **Below a block of the chain everything is the chain's.** -/
theorem served_below (hc : c.Valid f) (hnode : env.node = c.node) {B : BundleMap}
    (hB : Canonical B)
    (hfree : ∀ n b k served, B.get? n = some b → k ≤ c.head → f.fetchBlock env k = .ok served →
      b.block.hash = served.block.hash → b.content = served.content)
    {k : UInt64} (hk : k ≤ c.head) {b : BlockBundle} (hb : B.get? k = some b)
    (hhash : b.block.hash = (c.block k).hash) {n : UInt64} (hn : n ≤ k) {b' : BlockBundle}
    (hb' : B.get? n = some b') :
    ∃ served, n ≤ c.head ∧ f.fetchBlock env n = .ok served ∧ b'.content = served.content := by
  have hnc := UInt64.le_trans hn hk
  obtain ⟨x, hx⟩ := hc.fetched hnode hk
  obtain ⟨y, hy⟩ := hc.fetched hnode hnc
  have hagree := HashChain.agree_below parentHash_eq_of_content hB.connected
    (hc.connected_servedWindow hnode) hB.linkedWindow (hc.linked_servedWindow hnode)
    (fun i j b c hb hserved hh => hfree i b j c hb (servedWindow_eq_some_iff.1 hserved).1
      (servedWindow_eq_some_iff.1 hserved).2 hh)
    hb (servedWindow_eq_some_iff.2 ⟨hk, hx⟩)
    (hhash.trans (EthChain.hash_of_fetchBlock hnode hk hx).1.symm)
    (UInt64.le_iff_toNat_le.1 hn) hb' (servedWindow_eq_some_iff.2 ⟨hnc, hy⟩)
  exact ⟨y, hnc, hy, hagree.2⟩

/-- **An update of the chain's blocks leaves the chain's blocks**, if it
keeps what is stored up to a confirmed height, or nothing. -/
theorem served_replace (hc : c.Valid f) (hnode : env.node = c.node) {B : BundleMap}
    (hB : Canonical B)
    (hfree : ∀ n b k served, B.get? n = some b → k ≤ c.head → f.fetchBlock env k = .ok served →
      b.block.hash = served.block.hash → b.content = served.content)
    {config : Config} {hash : Hash} {u : CanonicalUpdate} (hu : Fits config ⟨c.head, hash⟩ u)
    (hnew : ∀ b ∈ u.blocks, f.fetchBlock env b.block.number = .ok b)
    (hcases : (u.replaceFrom = u.retainFrom ∧ ∀ n, ¬ Confirmed B env.node c.head
        (c.block c.head).hash u.retainFrom n) ∨
      ∃ n, Confirmed B env.node c.head (c.block c.head).hash u.retainFrom n ∧
        u.replaceFrom.toNat = n.toNat + 1) : Served (B.replace u) c f env := by
  intro n b hb
  rcases (get?_replace_eq_some_iff hu.consecutive).1 hb with ⟨hmem, rfl⟩ | ⟨hold, h1, h2⟩
  · have hbound := (hu.consecutive.number_bounds hmem).2
    have hreach : u.replaceFrom.toNat + u.blocks.length = c.head.toNat + 1 := hu.reach
    exact ⟨b, UInt64.le_iff_toNat_le.2 (by omega), hnew b hmem, rfl⟩
  · rcases hcases with ⟨heq, -⟩ | ⟨k, hk, heq⟩
    · -- nothing is kept
      rw [heq] at h2
      exact absurd h2 (UInt64.not_lt.2 h1)
    · obtain ⟨b', hb', hchain⟩ := hk.block
      have hkc := hk.head k (GoMap.mem_of_get? hb')
      rw [hc.hashLinked.chainHash_eq hnode hkc, Except.ok.injEq] at hchain
      refine served_below hc hnode hB hfree hkc hb' hchain.symm ?_ hold
      rw [UInt64.lt_iff_toNat_lt] at h2
      exact UInt64.le_iff_toNat_le.2 (by omega)

/-- Consecutive blocks of the chain name each other. -/
theorem isChain_of_served (hc : c.Valid f) (hnode : env.node = c.node) {start : UInt64}
    {bundles : List BlockBundle} (hconsecutive : Consecutive start bundles)
    (hblock : ∀ b ∈ bundles, b.block.number ≤ c.head ∧
      f.fetchBlock env b.block.number = .ok b) : bundles.IsChain BlockBundle.Extends := by
  refine List.isChain_iff_getElem.2 fun i hi => ?_
  have hi' : i < bundles.length := by omega
  refine hc.linked_servedWindow hnode (i := bundles[i].block.number)
    (j := bundles[i + 1].block.number) ?_
    (servedWindow_eq_some_iff.2 (hblock _ (List.getElem_mem hi')))
    (servedWindow_eq_some_iff.2 (hblock _ (List.getElem_mem hi)))
  simp only [rank_uint64, hconsecutive i hi', hconsecutive (i + 1) hi]
  omega

/-- **The range is fetched** up to the chain's head. -/
theorem exists_fetchCanonical {s : Syncer} (hs : s.fetcher = some f) (hc : c.Valid f)
    (hnode : env.node = c.node) (hctx : env.rangeCtx = none) (replaceFrom : UInt64)
    (hsmall : replaceFrom ≤ c.head → (c.head - replaceFrom).toNat < maxInt) :
    ∃ bundles, s.fetchCanonical env replaceFrom c.head (c.block c.head).hash = .ok bundles := by
  unfold Syncer.fetchCanonical
  split
  · rename_i hle
    have hsub := UInt64.toNat_sub_of_le _ _ hle
    have hlt := c.head.toNat_lt
    have hle' := UInt64.le_iff_toNat_le.1 hle
    have hnumbers : ∀ n ∈ rangeNumbers replaceFrom ((c.head - replaceFrom).toNat + 1),
        n ≤ c.head := by
      intro n hn
      have := ((mem_rangeNumbers_iff (by omega)).1 hn).2
      exact UInt64.le_iff_toNat_le.2 (by omega)
    have hall := map_fetchBlock_eq fun n hn => hc.fetched hnode (hnumbers n hn)
    generalize (rangeNumbers replaceFrom ((c.head - replaceFrom).toNat + 1)).filterMap
      (fun n => (f.fetchBlock env n).toOption) = bundles at hall
    have hmap := map_number_of_map_fetchBlock hall
    have hblock : ∀ b ∈ bundles, b.block.number ≤ c.head ∧
        f.fetchBlock env b.block.number = .ok b := by
      intro b hb
      have hok : (.ok b : Go BlockBundle) ∈ bundles.map Except.ok := List.mem_map_of_mem hb
      rw [← hall] at hok
      obtain ⟨n, hn, hbn⟩ := List.mem_map.1 hok
      rw [number_of_fetchBlock hbn]
      exact ⟨hnumbers n hn, hbn⟩
    have hconsecutive := consecutive_of_map_number (by omega) hmap
    have hrange : f.fetchRange env replaceFrom c.head = .ok bundles := fetchRange_eq_ok_iff.2
      ⟨hle, hsmall hle, hctx, hall, isChain_of_served hc hnode hconsecutive hblock⟩
    have hlen := (consecutive_of_fetchRange hrange).2
    have hlast := List.getLast?_eq_getElem? (l := bundles)
    rw [List.getElem?_eq_getElem (by omega)] at hlast
    have hnumber : bundles[bundles.length - 1].block.number = c.head :=
      UInt64.toNat_inj.1 (by rw [hconsecutive _ (by omega)]; omega)
    have hltlast : bundles.length - 1 < bundles.length := by omega
    obtain ⟨h1, h2⟩ := hblock _ (List.getElem_mem hltlast)
    have hhash := (EthChain.hash_of_fetchBlock hnode h1 h2).1
    rw [hnumber] at hhash
    refine ⟨bundles, ?_⟩
    simp only [hs, Go.bind_eq_ok_iff, Go.wrap_eq_ok_iff]
    refine ⟨bundles, hrange, ?_⟩
    simp only [hlast, Go.bind_eq_ok_iff, Go.failIf_eq_ok_iff, Go.pure_eq_ok_iff, exists_const]
    exact ⟨not_not.2 hhash, trivial⟩
  · exact ⟨[], rfl⟩

/-- The head that is chosen is the chain's. -/
theorem EthChain.HashLinked.selectedHead_eq (hc : c.HashLinked) (hnode : env.node = c.node)
    (config : Config) : config.selectedHead env.node = .ok (c.header c.head) ∧
      validHeaderNumber (c.header c.head) = .ok c.head := by
  have hanswer : env.node.headerByNumber config.headMode.selector =
      .ok (some (c.header c.head)) := by
    rw [hnode]
    cases config.headMode <;> rfl
  refine ⟨?_, ?_⟩
  · rw [Config.selectedHead, hanswer]
    rfl
  · rw [validHeaderNumber, EthChain.header,
      asUint64_eq_some_iff.2 (hc.number (UInt64.le_refl _))]

/-- The in-memory store fails to find a hash for one reason. -/
theorem Memory.notFound_of_canonicalHash {m : Memory} {e : MemoryEnv}
    (hcalm : ∀ r, e.ctx r = none) (n : UInt64) (err : Fault)
    (h : (Memory.indexStore e).canonicalHash n m = .error err) : err.Is .notFound := by
  simp only [Memory.indexStore, Memory.canonicalHash, hcalm] at h
  cases hget : m.bundles.get? n with
  | none =>
    rw [hget] at h
    cases h
    exact List.mem_singleton.2 rfl
  | some b =>
    rw [hget] at h
    cases h

/-- **A plan for the chain** is made of any store a syncer reaches. -/
theorem exists_plan_memory {s : Syncer} {m : Memory} {e : MemoryEnv} (hm : SyncInvariant s m)
    (hc : c.HashLinked) (hnode : env.node = c.node) (hcalm : ∀ r, e.ctx r = none) :
    ∃ tip, (Memory.indexStore e).canonicalTip m = .ok tip ∧
      ((tip = some ⟨c.head, (c.block c.head).hash⟩ → c.head ≠ maxUint64) →
        ∃ plan, (replacementStart env.node tip c.head (c.block c.head).hash
          (windowStart c.head s.config.blockWindow)).run (Memory.indexStore e).handle m =
            (.ok plan, m)) := by
  obtain ⟨tip, htip⟩ : ∃ tip, (Memory.indexStore e).canonicalTip m = .ok tip := by
    simp only [Memory.indexStore, hcalm]
    rcases Memory.canonicalTip_cases (e.order .canonicalTip) hm.memory.canonical with
      ⟨-, h⟩ | ⟨b, -, h⟩ <;> exact ⟨_, h⟩
  exact ⟨tip, htip, exists_run_replacementStart (Memory.lawful e) hm.memory htip
    (Memory.notFound_of_canonicalHash hcalm) fun n hn => ⟨_, hc.chainHash_eq hnode hn⟩⟩

end Served

/-! ## The whole call -/

/-- **Convergence.** From any store that calls of the same syncer reach,
a call during which the node serves one valid chain succeeds, reports that
chain's head, and leaves exactly the chain's window. -/
theorem SyncReachable.syncMemory_converges {s : Syncer} {f : Fetcher} {m : Memory} {c : EthChain}
    {env : Env} {e : MemoryEnv} (hm : SyncReachable s m)
    (hs : s.validateSyncOnceConfig = .ok ()) (hf : s.fetcher = some f)
    (hc : c.Valid f) (hmax : c.head < maxUint64) (hnode : env.node = c.node)
    (hctx : env.rangeCtx = none) (hcalm : ∀ r, e.ctx r = none)
    (hfree : ∀ n b k served, m.bundles.get? n = some b → k ≤ c.head →
      f.fetchBlock env k = .ok served → b.block.hash = served.block.hash →
        b.content = served.content) :
    ∃ result m', s.syncMemory env e m = (.ok result, m') ∧
      result.head = ⟨c.head, (c.block c.head).hash⟩ ∧
      Spans m'.bundles (windowStart c.head s.config.blockWindow) c.head ∧
      ∀ n, windowStart c.head s.config.blockWindow ≤ n → n ≤ c.head →
        ∃ b served, m'.bundles.get? n = some b ∧ f.fetchBlock env n = .ok served ∧
          b.content = served.content := by
  have hinv := hm.invariant
  have hS := Memory.lawful e
  obtain ⟨_, -, hid, -, hw, hwmax, -⟩ := validateSyncOnceConfig_eq_ok_iff.1 hs
  obtain ⟨hhead, hnumber⟩ := hc.hashLinked.selectedHead_eq hnode s.config
  obtain ⟨tip, htip, hplanned⟩ := exists_plan_memory hinv hc.hashLinked hnode hcalm
  obtain ⟨plan, hplan⟩ := hplanned fun _ => (UInt64.ne_of_lt hmax)
  have hbounds := (ensures_replacementStart tip (windowStart_le hw)).run hplan
  have hcases := confirmed_of_run_replacementStart hS hinv.memory htip hplan
  -- the fetch
  obtain ⟨bundles, hfetch⟩ := exists_fetchCanonical hf hc hnode hctx plan.replaceFrom
    fun hle => by
      have hsub := UInt64.toNat_sub_of_le _ _ hle
      have hstart := toNat_windowStart (h := c.head) hw
      have h1 := UInt64.le_iff_toNat_le.1 hbounds.1
      have h2 := UInt64.le_iff_toNat_le.1 hwmax
      change s.config.blockWindow.toNat ≤ 50 at h2
      rw [maxInt]
      omega
  have hu := fits_of_fetchCanonical ⟨c.head, (c.block c.head).hash⟩ hbounds hfetch
  have hnew : ∀ b ∈ bundles, f.fetchBlock env b.block.number = .ok b :=
    fun b hb => fetchBlock_of_mem_fetchCanonical hf hfetch hb
  set u : CanonicalUpdate :=
    { chainID := s.config.chainID, replaceFrom := plan.replaceFrom
      retainFrom := windowStart c.head s.config.blockWindow
      blocks := bundles, syncedAt := env.now } with hudef
  -- what the update leaves is the chain's
  have hspans : Spans (m.bundles.replace u) u.retainFrom c.head := by
    rcases hcases with ⟨heq, -⟩ | ⟨n, hn, heq⟩
    · exact (spans_replace_iff hu hw hinv.memory.canonical).2 (Or.inl heq)
    · exact (spans_replace_iff_of_confirmed hu hw hinv.memory.canonical hn heq).2
        (hinv.windowed.retain_mem hw hn)
  have hserved : Served (m.bundles.replace u) c f env :=
    served_replace hc hnode hinv.memory.canonical hfree hu hnew hcases
  have hcanonical : Canonical (m.bundles.replace u) :=
    canonical_of_served hc hnode hserved fun {i j n} hi hj hin hnj => (hspans n).2
      ⟨UInt64.le_trans ((hspans i).1 hi).1 hin, UInt64.le_trans hnj ((hspans j).1 hj).2⟩
  -- so the store takes it
  have hacc : m.Accepts u := ⟨hid, hu.le, hu.consecutive, hinv.chain, hcanonical⟩
  have happ : (Memory.indexStore e).applyCanonicalUpdate u m =
      (.ok (), Memory.after (e.order (.applyCanonicalUpdate u)) m u) := by
    simp only [Memory.indexStore, hcalm]
    exact Memory.applyCanonicalUpdate_of_accepts _ hacc
  have hget : ∀ n, (Memory.candidate (e.order (.applyCanonicalUpdate u)) m u).get? n = _ :=
    Memory.get?_candidate hacc.consecutive
  refine ⟨_, _, run_syncOnce_eq_ok_iff.2 ⟨_, _, _, _, _, _, hs, hhead, hnumber, htip, hplan, hfetch,
    happ, rfl⟩, rfl, fun n => ?_, fun n h1 h2 => ?_⟩
  · rw [← hspans n, GoMap.mem_iff_get?, GoMap.mem_iff_get?]
    simp [Memory.after, hget]
  · obtain ⟨b, hb⟩ := GoMap.mem_iff_get?.1 ((hspans n).2 ⟨h1, h2⟩)
    obtain ⟨served, -, hfetched, hcontent⟩ := hserved hb
    refine ⟨cloneBundle b, served, ?_, hfetched, (content_cloneBundle b).trans hcontent⟩
    rw [Memory.after, hget, hb, Option.map_some]

/-- A store that was synchronized to block 4. -/
def syncedFour : Memory :=
  (threeBlocks.syncMemory (EthChain.bare 4 fun n => .spelling n.toNat).env .calm Memory.new).2

/-- The store after one synchronization with the chain of four. -/
theorem syncReachable_syncedFour : SyncReachable threeBlocks syncedFour :=
  SyncReachable.new.sync _ _

theorem get?_syncedFour {n : UInt64} {b : BlockBundle} (h : syncedFour.bundles.get? n = some b) :
    (2 ≤ n ∧ n ≤ 4) ∧
      b.content = (EthChain.bareBundle (fun n => .spelling n.toNat) 0 n).content := by
  -- read off the run
  have hall : ((ascending BlockBundle).keys syncedFour.bundles).all (fun n =>
      decide (2 ≤ n ∧ n ≤ 4) && decide ((syncedFour.bundles.get n).content =
        (EthChain.bareBundle (fun n => .spelling n.toNat) 0 n).content)) = true := by
    decide +kernel
  have hn := List.all_eq_true.1 hall n (((ascending BlockBundle).mem_keys_iff_get? _ _).2 ⟨b, h⟩)
  rw [GoMap.get_of_get? h, Bool.and_eq_true, decide_eq_true_iff, decide_eq_true_iff] at hn
  exact hn

/-- Convergence at work: a store of blocks 2 to 4 meets a chain that has
another block 4 and a block 5. -/
theorem syncMemory_converges_reorg :
    let before := EthChain.bare 4 fun n => .spelling n.toNat
    let after := EthChain.bare 5 fun n => .spelling (if n < 4 then n.toNat else n.toNat + 100)
    ∃ result m', threeBlocks.syncMemory after.env .calm
        (threeBlocks.syncMemory before.env .calm Memory.new).2 = (.ok result, m') ∧
      result.head.number = 5 ∧ Spans m'.bundles 3 5 := by
  intro before after
  -- the chain has the blocks 2 and 3 among them, and no other hash of theirs
  have hfree : ∀ n b k served, (threeBlocks.syncMemory before.env .calm Memory.new).2.bundles.get? n
      = some b → k ≤ after.head → Fetcher.fetchBlock ⟨some 1⟩ after.env k = .ok served →
        b.block.hash = served.block.hash → b.content = served.content := by
    intro n b k served hb hk hserved hhash
    dsimp only [before] at hb
    rw [← syncedFour] at hb
    obtain ⟨hn, hcontent⟩ := get?_syncedFour hb
    rw [EthChain.fetchBlock_bare _ rfl hk] at hserved
    cases hserved
    have hbhash : b.block.hash = .spelling n.toNat := congrArg (fun b => b.block.hash) hcontent
    rw [hbhash] at hhash
    have hk' : k.toNat ≤ 5 := UInt64.le_iff_toNat_le.1 hk
    have hn' : n.toNat ≤ 4 := UInt64.le_iff_toNat_le.1 hn.2
    have hnat := Hash.spelling_inj (by omega) (by split <;> omega) hhash
    rw [hcontent]
    split at hnat
    · rename_i hlt
      obtain rfl := UInt64.toNat_inj.1 hnat
      have hpred : n - 1 < 4 := by
        have h1 : 1 < n := UInt64.lt_of_lt_of_le (by decide) hn.1
        have hsub := toNat_pred_of_lt h1
        exact UInt64.lt_iff_toNat_lt.2 (by change _ < 4; omega)
      simp only [EthChain.bareBundle, if_pos hlt, if_pos hpred]
      rfl
    · omega
  have hm := SyncReachable.new.sync (s := threeBlocks) before.env .calm
  have hnode : after.env.node = after.node := rfl
  obtain ⟨result, m', hrun, hhead, hspans, -⟩ := hm.syncMemory_converges (f := ⟨some 1⟩)
    (c := after) (e := .calm) threeBlocks_valid rfl (EthChain.bare_valid _ _ _) (by decide) hnode
    rfl (fun _ => rfl) hfree
  have hstart : windowStart after.head threeBlocks.config.blockWindow = 3 := by decide
  rw [hstart] at hspans
  exact ⟨result, m', hrun, by rw [hhead]; rfl, hspans⟩

end EthIndexer
