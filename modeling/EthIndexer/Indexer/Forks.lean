import EthIndexer.Indexer.Failures
import EthIndexer.Indexer.Safety
/-!
# A chain that moves under a synchronization

Each answer of the node may come from another fork. Most switches are
caught where they can be retried: a head that became another block, a
range whose blocks do not name each other. One is not. The search asks for
the header of the ancestor, the fetch starts at the block above it, and
nothing compares the two before the store does; the store's refusal counts
as permanent.

`ForkedAbove` is that switch, in terms of the node's answers and the store
before the call, and it is the only way a valid syncer fails for good. The
proof needs that a hash determines the block it belongs to: then a linked
window below a block of a valid chain is a window of that chain, and
repeats no transaction.
-/

namespace EthIndexer

/-! ## Blocks and their hashes -/

/-- What the hash of a block stands for: its parent and its
transactions. -/
abbrev Commitment := Hash × List (Option Hash)

def BlockBundle.commitment (b : BlockBundle) : Commitment :=
  (b.block.parentHash, b.transactions.map fun t => some t.hash)

def EthBlock.commitment (b : EthBlock) : Commitment :=
  (b.parentHash, b.transactions.map fun t => t.map EthTransaction.hash)

/-- **A valid chain under a hash function**: its blocks stand behind their
hashes. -/
structure EthChain.Committed (c : EthChain) (f : Fetcher) (commit : Hash → Commitment) : Prop where
  valid : c.Valid f
  commit : ∀ n ≤ c.head, commit (c.block n).hash = (c.block n).commitment

/-- **Every answer is some chain's**, and each may be another one's. -/
structure Node.FromForks (node : Node) (P : EthChain → Prop) : Prop where
  header : ∀ selector header, node.headerByNumber selector = .ok (some header) →
    ∃ c, P c ∧ c.node.headerByNumber selector = .ok (some header)
  block : ∀ n block, node.blockByNumber n = .ok (some block) →
    ∃ c, P c ∧ n ≤ c.head ∧ c.block n = block
  logs : ∀ n hash logs, node.logsByBlockHash n hash = .ok logs →
    ∃ c, P c ∧ c.node.logsByBlockHash n hash = .ok logs

section Committed

variable {f : Fetcher} {env : Env} {c : EthChain} {commit : Hash → Commitment} {B : BundleMap}

/-- A fetched bundle has the hash and the commitment of the block it was
made from. -/
theorem commitment_of_fetchBlock {n : UInt64} {b : BlockBundle}
    (h : f.fetchBlock env n = .ok b) : ∃ block, env.node.blockByNumber n = .ok (some block) ∧
      b.block.hash = block.hash ∧ b.commitment = block.commitment := by
  obtain ⟨block, positions, logs, events, hblock, -, htx, -, -, -, hb⟩ := fetchBlock_eq_ok h
  refine ⟨block, hblock, by rw [hb], ?_⟩
  rw [Fetcher.mapTransactions] at htx
  split at htx
  · cases htx
  · rw [BlockBundle.commitment, EthBlock.commitment, map_hash_of_mapTransactionsFrom htx, hb]

/-- **A linked window below a block of a chain is a window of that
chain**: it has its commitments. -/
theorem EthChain.Committed.commitment_eq (hc : c.Committed f commit)
    (hinterval : ∀ {i j n : UInt64}, i ∈ B → j ∈ B → i ≤ n → n ≤ j → n ∈ B)
    (hlinked : ∀ {n m b b'}, m.toNat = n.toNat + 1 → B.get? n = some b → B.get? m = some b' →
      b'.block.parentHash = b.block.hash)
    (hcommit : ∀ n b, B.get? n = some b → commit b.block.hash = b.commitment)
    {top : UInt64} (htop : top ≤ c.head) {b : BlockBundle} (hb : B.get? top = some b)
    (hhash : b.block.hash = (c.block top).hash) {n : UInt64} (hn : n ≤ top) {b' : BlockBundle}
    (hb' : B.get? n = some b') : b'.commitment = (c.block n).commitment := by
  -- both windows, as hashes with the commitments behind them
  let w : UInt64 → Option (Hash × Commitment) := fun n =>
    (B.get? n).map fun b => (b.block.hash, b.commitment)
  let w' : UInt64 → Option (Hash × Commitment) := fun n =>
    if n ≤ c.head then some ((c.block n).hash, (c.block n).commitment) else none
  have hw : ∀ {n x}, w n = some x → commit x.1 = x.2 := by
    intro n x hx
    obtain ⟨b, hb, rfl⟩ := Option.map_eq_some_iff.1 hx
    exact hcommit n b hb
  have hw' : ∀ {n x}, w' n = some x → n ≤ c.head ∧ x = ((c.block n).hash, (c.block n).commitment) := by
    intro n x hx
    simp only [w', Option.ite_none_right_eq_some, Option.some.injEq] at hx
    exact ⟨hx.1, hx.2.symm⟩
  have hconnected : HashChain.Connected w := by
    intro i j k hi hj hik hkj
    simp only [w, Option.isSome_map, GoMap.isSome_get?_iff] at hi hj ⊢
    exact hinterval hi hj (UInt64.le_iff_toNat_le.2 hik) (UInt64.le_iff_toNat_le.2 hkj)
  have hconnected' : HashChain.Connected w' := by
    intro i j k _ hj _ hkj
    obtain ⟨x, hx⟩ := Option.isSome_iff_exists.1 hj
    have hk : k ≤ c.head := UInt64.le_trans (UInt64.le_iff_toNat_le.2 hkj) (hw' hx).1
    simp [w', hk]
  have hl : HashChain.Linked Prod.fst (fun x => x.2.1) w := by
    intro i j x y hij hx hy
    obtain ⟨b, hb, rfl⟩ := Option.map_eq_some_iff.1 hx
    obtain ⟨b', hb', rfl⟩ := Option.map_eq_some_iff.1 hy
    exact hlinked hij hb hb'
  have hl' : HashChain.Linked Prod.fst (fun x => x.2.1) w' := by
    intro i j x y hij hx hy
    obtain ⟨-, rfl⟩ := hw' hx
    obtain ⟨hj, rfl⟩ := hw' hy
    exact hc.valid.linked hij hj
  have hparent : ∀ x y : Hash × Commitment, x.2 = y.2 → x.2.1 = y.2.1 := fun _ _ h =>
    congrArg Prod.fst h
  have hagree := HashChain.agree_below hparent hconnected hconnected' hl hl'
    (fun i j x y hx hy hxy => by
      obtain ⟨hj, rfl⟩ := hw' hy
      rw [← hw hx, hxy]
      exact hc.commit j hj)
    (k := top) (b := (b.block.hash, b.commitment)) (by simp [w, hb]) (if_pos htop) hhash
    (UInt64.le_iff_toNat_le.1 hn) (show w n = some (b'.block.hash, b'.commitment) by simp [w, hb'])
    (if_pos (UInt64.le_trans hn htop))
  exact hagree.2

/-- So it repeats no transaction. -/
theorem EthChain.Committed.distinct (hc : c.Committed f commit) {n m : UInt64}
    (hn : n ≤ c.head) (hm : m ≤ c.head) {x y : BlockBundle}
    (hx : x.commitment = (c.block n).commitment) (hy : y.commitment = (c.block m).commitment)
    {t v : Transaction} (ht : t ∈ x.transactions) (hv : v ∈ y.transactions)
    (htv : t.hash = v.hash) : n = m := by
  have hmem : ∀ {k : UInt64} {z : BlockBundle} {t : Transaction},
      z.commitment = (c.block k).commitment → t ∈ z.transactions →
        ∃ e, some e ∈ (c.block k).transactions ∧ e.hash = t.hash := by
    intro k z t hz ht
    have hmem : some t.hash ∈ z.commitment.2 := List.mem_map_of_mem (f := fun t => some t.hash) ht
    rw [hz] at hmem
    obtain ⟨o, ho, hoh⟩ := List.mem_map.1 hmem
    obtain ⟨e, rfl, heq⟩ := Option.map_eq_some_iff.1 hoh
    exact ⟨e, ho, heq⟩
  obtain ⟨e, he, heq⟩ := hmem hx ht
  obtain ⟨e', he', heq'⟩ := hmem hy hv
  exact hc.valid.distinct hn hm he he' (by rw [heq, heq', htv])

end Committed

/-! ## When the store takes the update -/

section Update

variable {f : Fetcher} {env : Env} {commit : Hash → Commitment} {B : BundleMap} {config : Config}
  {head : ChainTip} {u : CanonicalUpdate}

/-- Blocks that replace the whole window continue nothing. -/
theorem continues_of_replaceFrom_eq (h : u.replaceFrom = u.retainFrom) : Continues B u where
  mem _ _ _ h1 h2 := absurd (UInt64.lt_of_le_of_lt h1 h2) (h ▸ UInt64.lt_irrefl _)
  parentHash _ _ _ hlt := absurd hlt (h ▸ UInt64.lt_irrefl _)

/-- Blocks continue a stored one that the first of them has as parent. -/
theorem continues_of_get? (hu : Consecutive u.replaceFrom u.blocks) {a : UInt64}
    (ha : a + 1 = u.replaceFrom) {b : BlockBundle} (hb : B.get? a = some b)
    (hparent : ∀ first rest, u.blocks = first :: rest → first.block.parentHash = b.block.hash) :
    Continues B u := by
  have hpred : u.replaceFrom - 1 = a := by grind
  refine ⟨fun _ _ _ _ _ => hpred ▸ GoMap.mem_of_get? hb, fun b' hb' hn _ c hc => ?_⟩
  rw [hpred, hb] at hc
  cases hc
  cases hblocks : u.blocks with
  | nil =>
    rw [hblocks] at hb'
    exact absurd hb' List.not_mem_nil
  | cons first rest =>
    rw [hblocks] at hu hb'
    rw [hu.eq_of_number_eq hb' List.mem_cons_self (hn.trans hu.number_head.symm)]
    exact hparent first rest hblocks

/-- Dropping blocks at both ends keeps a window canonical. -/
theorem canonical_replace_of_blocks_eq_nil (hB : Canonical B) (hnil : u.blocks = []) :
    Canonical (B.replace u) := by
  have hu : Consecutive u.replaceFrom u.blocks := hnil ▸ consecutive_nil _
  have hmem : ∀ b, b ∉ u.blocks := fun b hb => by
    rw [hnil] at hb
    exact List.not_mem_nil hb
  refine (canonical_replace_iff hB hu).2 ⟨?_, ⟨fun hne => absurd hnil hne,
    fun b hb => absurd hb (hmem b)⟩, fun b hb => absurd hb (hmem b)⟩
  have hempty : BundleMap.replace ∅ u = ∅ := GoMap.ext_get? fun n => by
    rw [GoMap.get?_empty, Option.eq_none_iff_forall_ne_some]
    exact fun b hb => hmem b ((get?_replace_empty_eq_some_iff hu).1 hb).1
  rw [hempty]
  exact Canonical.empty

/-- **Blocks of forks that name each other make a canonical window**, with
the stored block they continue. -/
theorem canonical_replace_of_forks (hB : Canonical B) (hu : Fits config head u)
    (hnode : env.node.FromForks fun c => c.Committed f commit)
    (hstored : ∀ n b, B.get? n = some b → commit b.block.hash = b.commitment)
    (hfetched : ∀ b ∈ u.blocks, f.fetchBlock env b.block.number = .ok b)
    (hcontinues : Continues B u) : Canonical (B.replace u) := by
  by_cases hnil : u.blocks = []
  · exact canonical_replace_of_blocks_eq_nil hB hnil
  have hinterval := fun {i j n} => interval_replace (i := i) (j := j) (n := n) hB hu.consecutive
    hcontinues
  have hlinked := fun {n m b c} => linked_replace (n := n) (m := m) (b := b) (c := c) hB
    hu.consecutive hcontinues fun b hb c hc => hu.consecutive.linked hu.chain hb hc
  have hcommit : ∀ n b, (B.replace u).get? n = some b → commit b.block.hash = b.commitment := by
    intro n b hb
    rcases (get?_replace_eq_some_iff hu.consecutive).1 hb with ⟨hnew, rfl⟩ | ⟨hold, -⟩
    · obtain ⟨block, hblock, hhash, heq⟩ := commitment_of_fetchBlock (hfetched b hnew)
      obtain ⟨c, hc, hn, rfl⟩ := hnode.block _ _ hblock
      rw [hhash, heq]
      exact hc.commit _ hn
    · exact hstored n b hold
  -- the top block is some chain's, so the whole window is
  obtain ⟨top, htop, -⟩ := get?_replace_head (B := B) hu hnil
  have hle : ∀ {n}, n ∈ B.replace u → n ≤ head.number := by
    intro n hn
    have hreach := hu.reach
    rcases (mem_replace_iff hu.consecutive).1 hn with ⟨-, h⟩ | ⟨-, -, h⟩
    · exact UInt64.le_iff_toNat_le.2 (by omega)
    · rw [UInt64.lt_iff_toNat_lt] at h
      have hpos := List.length_pos_iff.2 hnil
      exact UInt64.le_iff_toNat_le.2 (by omega)
  obtain ⟨block, hblock, hhash⟩ : ∃ block, env.node.blockByNumber head.number = .ok (some block) ∧
      top.block.hash = block.hash := by
    rcases (get?_replace_eq_some_iff hu.consecutive).1 htop with ⟨hb, hn⟩ | ⟨-, -, hlt⟩
    · obtain ⟨block, hblock, hhash, -⟩ := commitment_of_fetchBlock (hfetched top hb)
      exact ⟨block, hn ▸ hblock, hhash⟩
    · have hreach := hu.reach
      have hpos := List.length_pos_iff.2 hnil
      rw [UInt64.lt_iff_toNat_lt] at hlt
      omega
  obtain ⟨c, hc, hheadc, rfl⟩ := hnode.block _ _ hblock
  have hserved : ∀ {n b}, (B.replace u).get? n = some b →
      n ≤ c.head ∧ b.commitment = (c.block n).commitment := fun hb =>
    have hn := hle (GoMap.mem_of_get? hb)
    ⟨UInt64.le_trans hn hheadc,
      hc.commitment_eq hinterval hlinked hcommit hheadc htop hhash hn hb⟩
  refine ⟨fun hb => ?_, fun hb => ?_, hinterval, hlinked, fun hb hb' ht hv htv =>
    hc.distinct (hserved hb).1 (hserved hb').1 (hserved hb).2 (hserved hb').2 ht hv htv⟩
  · rcases (get?_replace_eq_some_iff hu.consecutive).1 hb with ⟨-, h⟩ | ⟨h, -⟩
    · exact h
    · exact hB.number h
  · rcases (get?_replace_eq_some_iff hu.consecutive).1 hb with ⟨h, -⟩ | ⟨h, -⟩
    · exact wellFormed_of_fetchBlock (hfetched _ h)
    · exact hB.wellFormed h

end Update

/-! ## The switch that is not caught -/

/-- **The chain switches above the ancestor**: the search ends at the
stored block `b` at height `a` below the head, which the node confirmed;
the blocks above it are served, name each other and end in the selected
head; and the first of them has another parent than `b`. -/
def ForkedAbove (s : Syncer) (env : Env) (e : MemoryEnv) (m : Memory) : Prop :=
  ∃ header headNumber tip a b first rest,
    s.config.selectedHead env.node = .ok header ∧ validHeaderNumber header = .ok headNumber ∧
    e.ctx .canonicalTip = none ∧ IsTip m.bundles tip ∧
    Ancestor (Memory.indexStore e) m tip m.bundles env.node headNumber header.hash
      (windowStart headNumber s.config.blockWindow) a b ∧ a < headNumber ∧
    s.fetchCanonical env (a + 1) headNumber header.hash = .ok (first :: rest) ∧
    first.block.parentHash ≠ b.block.hash ∧
    e.ctx (.applyCanonicalUpdate (s.update env headNumber (a + 1) (first :: rest))) = none

section Call

variable {s : Syncer} {f : Fetcher} {env : Env} {e : MemoryEnv} {m : Memory}
  {commit : Hash → Commitment}

/-- The store refuses an update whose first block has another parent than
the block it is put on. -/
theorem ForkedAbove.not_transient (hs : s.validateSyncOnceConfig = .ok ())
    (hm : SyncInvariant s m) (h : ForkedAbove s env e m) :
    ∃ err m', s.syncMemory env e m = (.error err, m') ∧ ¬ Transient err := by
  obtain ⟨header, headNumber, tip, a, b, first, rest, hhead, hnumber, hctx, htip, ha, hlt, hfetch,
    hparent, happ⟩ := h
  obtain ⟨-, -, -, -, hw, -⟩ := validateSyncOnceConfig_eq_ok_iff.1 hs
  obtain ⟨plan, hplan, hfrom⟩ := run_replacementStart_of_ancestor hm.memory.canonical htip ha hlt
  have hread : (Memory.indexStore e).canonicalTip m = .ok (some tip.chainTip) := by
    simp only [Memory.indexStore, hctx]
    rcases Memory.canonicalTip_cases (e.order .canonicalTip) hm.memory.canonical with
      ⟨hempty, -⟩ | ⟨tip', htip', heq⟩
    · have := htip.get?
      rw [hempty] at this
      simp at this
    · rw [heq, htip.eq htip']
  set u := s.update env headNumber (a + 1) (first :: rest) with hu
  have hmax := toNat_succ_of_lt hlt
  have hnot : ¬ m.Accepts u := by
    intro hacc
    have hcont := ((canonical_replace_iff hm.memory.canonical hacc.consecutive).1 hacc.canonical).2.1
    have hpred : u.replaceFrom - 1 = a := by
      change a + 1 - 1 = a
      grind
    refine hparent (hcont.parentHash first List.mem_cons_self hacc.consecutive.number_head ?_ b
      (hpred ▸ ha.block))
    have hretain := UInt64.le_iff_toNat_le.1 ha.retain
    exact UInt64.lt_iff_toNat_lt.2 (by
      change (windowStart headNumber s.config.blockWindow).toNat < (a + 1).toNat
      omega)
  obtain ⟨err, hrefuse, hcauses⟩ := Memory.applyCanonicalUpdate_of_not_accepts
    (e.order (.applyCanonicalUpdate u)) hnot
  have hrefused : Refused (Memory.indexStore e) s env m header headNumber plan (first :: rest) err :=
    ⟨hhead, hnumber, ⟨_, hread, hplan⟩, hfrom ▸ hfetch, by
      rw [hfrom]
      simp only [Memory.indexStore, ← hu, happ, hrefuse]⟩
  obtain ⟨context, m', hrun⟩ := hrefused.run hs
  exact ⟨_, m', hrun, fun h => not_transient_of_causes hcauses (transient_wrap_iff.1 h)⟩

/-- An error of the in-memory store that is not retried is a refusal. -/
theorem Memory.not_accepts_of_not_transient {u : CanonicalUpdate} {err : Fault}
    (h : ((Memory.indexStore e).applyCanonicalUpdate u m).1 = .error err)
    (herr : ¬ Transient err) : e.ctx (.applyCanonicalUpdate u) = none ∧ ¬ m.Accepts u := by
  cases hctx : e.ctx (.applyCanonicalUpdate u) with
  | some cause =>
    simp only [Memory.indexStore, hctx] at h
    cases h
    exact absurd (transient_fault cause) herr
  | none =>
    refine ⟨rfl, fun hacc => ?_⟩
    simp only [Memory.indexStore, hctx, Memory.applyCanonicalUpdate_of_accepts _ hacc] at h
    cases h

/-- **When a call cannot fail for good.** With a node whose every answer
is some valid chain's, the errors of a call are all retried if and only if
the chain does not switch above the ancestor. -/
theorem SyncReachable.syncMemory_transient_iff (hm : SyncReachable s m)
    (hs : s.validateSyncOnceConfig = .ok ()) (hf : s.fetcher = some f)
    (hnode : env.node.FromForks fun c => c.Committed f commit)
    (hstored : ∀ n b, m.bundles.get? n = some b → commit b.block.hash = b.commitment) :
    (∀ err m', s.syncMemory env e m = (.error err, m') → Transient err) ↔
      ¬ ForkedAbove s env e m := by
  have hinv := hm.invariant
  have hB := hinv.memory.canonical
  obtain ⟨_, -, hid, -, hw, -⟩ := validateSyncOnceConfig_eq_ok_iff.1 hs
  constructor
  · intro h hforked
    obtain ⟨err, m', hrun, hnot⟩ := hforked.not_transient hs hinv
    exact hnot (h err m' hrun)
  · intro hforked err m' hrun
    by_contra herr
    obtain ⟨header, headNumber, plan, bundles, err', hrefused, herr'⟩ :=
      refused_of_not_transient hs (transientReads_memory e) hrun herr
    obtain ⟨storedTip, htip, hplan⟩ := hrefused.planned
    have hbounds := (ensures_replacementStart storedTip (windowStart_le hw)).run hplan
    have hfits : Fits s.config ⟨headNumber, header.hash⟩
        (s.update env headNumber plan.replaceFrom bundles) :=
      fits_of_fetchCanonical ⟨headNumber, header.hash⟩ hbounds hrefused.fetch
    have hfetched : ∀ b ∈ bundles, f.fetchBlock env b.block.number = .ok b :=
      fun b hb => fetchBlock_of_mem_fetchCanonical hf hrefused.fetch hb
    obtain ⟨hctx, hnacc⟩ := Memory.not_accepts_of_not_transient hrefused.refuse herr'
    have hnot : ¬ Continues m.bundles (s.update env headNumber plan.replaceFrom bundles) :=
      fun hcont => hnacc ⟨hid, hfits.le, hfits.consecutive, hinv.chain,
        canonical_replace_of_forks hB hfits hnode hstored hfetched hcont⟩
    rcases (run_replacementStart_eq_ok (Memory.lawful e) hinv.memory htip hplan).2 with
      ⟨heq, -⟩ | ⟨tip, a, b, htip', ha, heq⟩
    · exact hnot (continues_of_replaceFrom_eq heq)
    · -- there is an ancestor, and the first block has another parent
      have ha' : plan.replaceFrom = a + 1 := UInt64.toNat_inj.1 (by
        have := plan.replaceFrom.toNat_lt
        rw [UInt64.toNat_add, heq]
        change _ = (a.toNat + 1) % 2 ^ 64
        omega)
      refine hnot (continues_of_get? hfits.consecutive ha'.symm ha.block fun first rest hblocks => ?_)
      obtain rfl : bundles = first :: rest := hblocks
      by_contra hparent
      have hreach := hfits.reach
      refine hforked ⟨header, headNumber, tip, a, b, first, rest, hrefused.head, hrefused.number,
        ?_, htip', ha, UInt64.lt_iff_toNat_lt.2 ?_, ha' ▸ hrefused.fetch, hparent, ha' ▸ hctx⟩
      · by_contra hsome
        obtain ⟨err, herr⟩ := Option.ne_none_iff_exists'.1 hsome
        simp only [Memory.indexStore, herr] at htip
        cases htip
      · change plan.replaceFrom.toNat + (rest.length + 1) = headNumber.toNat + 1 at hreach
        omega

end Call

/-! ## A switch between the search and the fetch -/

/-- A chain up to block 4, and a fork of it with another block 4 and a
block 5. -/
def stayed : EthChain := .bare 4 fun n => .spelling n.toNat

def moved : EthChain :=
  .bare 5 fun n => .spelling (if n = 4 ∨ n = 5 then n.toNat + 100 else n.toNat)

/-- The store that was synchronized to the first chain. -/
def storedStayed : Memory := (threeBlocks.syncMemory stayed.env .calm Memory.new).2

/-- A node that serves headers of heights from the chain up to block 4 and
everything else from the fork. -/
def switching : Env :=
  { moved.env with
    node := { moved.node with
      headerByNumber
        | .number n => stayed.node.headerByNumber (.number n)
        | selector => moved.node.headerByNumber selector } }

/-- The blocks behind the hashes of both chains. -/
def forkCommitment (hash : Hash) : Commitment :=
  ((List.range 5).map (fun n => stayed.block (.ofNat n)) ++
    (List.range 6).map fun n => moved.block (.ofNat n)).find? (·.hash = hash) |>.elim
      (hash, []) EthBlock.commitment

theorem committed_stayed (f : Fetcher) : stayed.Committed f forkCommitment where
  valid := EthChain.bare_valid _ _ f
  commit n hn := by
    have hall : ∀ k < 5, forkCommitment (stayed.block (.ofNat k)).hash =
        (stayed.block (.ofNat k)).commitment := by decide +kernel
    have hn' : n.toNat ≤ 4 := UInt64.le_iff_toNat_le.1 hn
    have := hall n.toNat (by omega)
    rwa [UInt64.ofNat_toNat] at this

theorem committed_moved (f : Fetcher) : moved.Committed f forkCommitment where
  valid := EthChain.bare_valid _ _ f
  commit n hn := by
    have hall : ∀ k < 6, forkCommitment (moved.block (.ofNat k)).hash =
        (moved.block (.ofNat k)).commitment := by decide +kernel
    have hn' : n.toNat ≤ 5 := UInt64.le_iff_toNat_le.1 hn
    have := hall n.toNat (by omega)
    rwa [UInt64.ofNat_toNat] at this

theorem fromForks_switching (f : Fetcher) :
    switching.node.FromForks fun c => c.Committed f forkCommitment where
  header selector header h := by
    cases selector with
    | number n => exact ⟨stayed, committed_stayed f, h⟩
    | latest => exact ⟨moved, committed_moved f, h⟩
    | safe => exact ⟨moved, committed_moved f, h⟩
    | finalized => exact ⟨moved, committed_moved f, h⟩
  block n block h := by
    refine ⟨moved, committed_moved f, ?_⟩
    change (if n ≤ moved.head then _ else _) = _ at h
    split at h
    · rename_i hn
      cases h
      exact ⟨hn, rfl⟩
    · cases h
  logs n hash logs h := ⟨moved, committed_moved f, h⟩

theorem commitment_storedStayed (n : UInt64) (b : BlockBundle)
    (h : storedStayed.bundles.get? n = some b) : forkCommitment b.block.hash = b.commitment := by
  have hall : ((ascending BlockBundle).keys storedStayed.bundles).all (fun n =>
      decide (forkCommitment (storedStayed.bundles.get n).block.hash =
        (storedStayed.bundles.get n).commitment)) = true := by decide +kernel
  have hn := List.all_eq_true.1 hall n (((ascending BlockBundle).mem_keys_iff_get? _ _).2 ⟨b, h⟩)
  rwa [GoMap.get_of_get? h, decide_eq_true_iff] at hn

/-- The call failed with an error that is not retried. -/
def failedForGood : Go SyncResult → Bool
  | .error err => isPermanentSyncError err
  | .ok _ => false

/-- The call that meets the switch is refused by the store. -/
theorem exists_syncMemory_switching : ∃ err m',
    threeBlocks.syncMemory switching .calm storedStayed = (.error err, m') ∧
      isPermanentSyncError err = true := by
  have hrun : failedForGood (threeBlocks.syncMemory switching .calm storedStayed).1 = true := by
    decide +kernel
  rcases hcall : threeBlocks.syncMemory switching .calm storedStayed with ⟨err | result, m'⟩
  · rw [hcall] at hrun
    exact ⟨err, m', rfl, hrun⟩
  · rw [hcall] at hrun
    cases hrun

/-- **A moving chain can fail a synchronization for good**, although every
answer of the node is a valid chain's. -/
theorem syncMemory_permanent_switch :
    SyncReachable threeBlocks storedStayed ∧ threeBlocks.validateSyncOnceConfig = .ok () ∧
    (switching.node.FromForks fun c => c.Committed ⟨some 1⟩ forkCommitment) ∧
    (∀ n b, storedStayed.bundles.get? n = some b → forkCommitment b.block.hash = b.commitment) ∧
    ∃ err m', threeBlocks.syncMemory switching .calm storedStayed = (.error err, m') ∧
      isPermanentSyncError err = true :=
  ⟨SyncReachable.new.sync _ _, threeBlocks_valid, fromForks_switching _, commitment_storedStayed,
    exists_syncMemory_switching⟩

/-- That call is one where the chain switches above the ancestor. -/
theorem forkedAbove_switching : ForkedAbove threeBlocks switching .calm storedStayed := by
  have hiff := (SyncReachable.new.sync stayed.env .calm).syncMemory_transient_iff (e := .calm)
    threeBlocks_valid (f := ⟨some 1⟩) rfl (fromForks_switching _) commitment_storedStayed
  by_contra hnot
  obtain ⟨err, m', hrun, hperm⟩ := exists_syncMemory_switching
  have htransient := hiff.2 hnot err m' hrun
  cases err with
  | error causes text => exact absurd hperm (by rw [show _ = false from htransient]; decide)
  | panic text => exact htransient

end EthIndexer
