import EthIndexer.Indexer.Chain
import EthIndexer.Indexer.Logs
import EthIndexer.Store.Memory
/-!
# What the fetcher emits the store accepts

The fetcher checks what it receives and the store checks what it is given,
in separate functions. A fetched range passes the store's checks, whatever
the node answered: its blocks are well formed, consecutive and linked. The
one check of the store without a counterpart is that no transaction is in
two blocks, which nothing in the fetcher compares.
-/

namespace EthIndexer

variable {f : Fetcher} {env : Env} {number : UInt64} {blockHash : Hash}

/-! ## Byte fields -/

theorem input_of_mapTransactionsFrom {ts : List (Option EthTransaction)} {index : ℕ}
    {positions positions' : GoMap Hash UInt32} {transactions : List Transaction}
    (h : f.mapTransactionsFrom number blockHash index positions ts =
      .ok (transactions, positions')) : ∀ t ∈ transactions, t.input ≠ none := by
  induction ts generalizing index positions positions' transactions with
  | nil =>
    simp only [Fetcher.mapTransactionsFrom, Except.ok.injEq, Prod.mk.injEq] at h
    rw [← h.1]
    exact List.forall_mem_nil _
  | cons t ts ih =>
    cases t with
    | none => simp [Fetcher.mapTransactionsFrom] at h
    | some t =>
      simp only [Fetcher.mapTransactionsFrom, Go.bind_eq_ok_iff, Go.pure_eq_ok_iff,
        Prod.mk.injEq] at h
      obtain ⟨-, -, sender, -, -, -, ⟨rest, positions''⟩, hrest, rfl, -⟩ := h
      exact List.forall_mem_cons.2 ⟨Option.some_ne_none _, ih hrest⟩

/-- **No byte field of a fetched bundle is nil.** -/
theorem bytes_of_fetchBlock {b : BlockBundle} (h : f.fetchBlock env number = .ok b) :
    (∀ t ∈ b.transactions, t.input ≠ none) ∧ ∀ e ∈ b.events, e.topics ≠ none ∧ e.data ≠ none := by
  obtain ⟨block, positions, logs, events, -, -, htx, -, hlogs, hevents, -⟩ := fetchBlock_eq_ok h
  constructor
  · rw [Fetcher.mapTransactions] at htx
    split at htx
    · cases htx
    · exact input_of_mapTransactionsFrom htx
  · intro e he
    obtain ⟨-, -, -, rfl⟩ := mapLogs_eq_ok_iff.1 hlogs
    rw [hevents, mem_sortSlice] at he
    obtain ⟨log, -, rfl⟩ := List.mem_map.1 he
    exact ⟨Option.some_ne_none _, Option.some_ne_none _⟩

/-! ## Whole updates -/

section Update

variable {u : CanonicalUpdate} {B : BundleMap}

/-- An update that retains nothing leaves its own blocks. -/
theorem replace_of_retainFrom_eq (hu : Consecutive u.replaceFrom u.blocks)
    (h : u.retainFrom = u.replaceFrom) : B.replace u = BundleMap.replace ∅ u :=
  GoMap.ext_get? fun n => Option.ext fun b => by
    rw [get?_replace_eq_some_iff hu, get?_replace_empty_eq_some_iff hu, h]
    refine or_iff_left fun ⟨_, h1, h2⟩ => ?_
    exact UInt64.lt_irrefl _ (UInt64.lt_of_le_of_lt h1 h2)

/-- Consecutive, linked and well-formed blocks that share no transaction
are canonical. -/
theorem canonical_replace_empty (hu : Consecutive u.replaceFrom u.blocks)
    (hchain : u.blocks.IsChain BlockBundle.Extends) (hwf : ∀ b ∈ u.blocks, WellFormed b)
    (hdistinct : u.blocks.Pairwise fun b c =>
      ∀ t ∈ b.transactions, ∀ v ∈ c.transactions, t.hash ≠ v.hash) :
    Canonical (BundleMap.replace ∅ u) := by
  have hget := fun {n b} => get?_replace_empty_eq_some_iff (n := n) (b := b) hu
  have hcontinues : Continues ∅ u := ⟨fun _ n hn => absurd hn Finmap.notMem_empty,
    fun _ _ _ _ c hc => by simp at hc⟩
  refine ⟨fun hb => (hget.1 hb).2, fun hb => hwf _ (hget.1 hb).1,
    interval_replace Canonical.empty hu hcontinues,
    linked_replace Canonical.empty hu hcontinues fun b hb c hc => hu.linked hchain hb hc,
    fun {n m b c t v} hb hc ht hv htv => ?_⟩
  obtain ⟨hbu, rfl⟩ := hget.1 hb
  obtain ⟨hcu, rfl⟩ := hget.1 hc
  by_contra hne
  have hsymm : Std.Symm fun b c : BlockBundle =>
      ∀ t ∈ b.transactions, ∀ v ∈ c.transactions, t.hash ≠ v.hash :=
    ⟨fun b c h t ht v hv => (h v hv t ht).symm⟩
  exact hdistinct.forall hbu hcu (fun heq => hne (by rw [heq])) t ht v hv htv

end Update

/-- **What the fetcher emits the store accepts.** A fetched range in which
no transaction is in two blocks passes the store's checks as an update
that replaces everything; a memory store of the same chain takes it, in
whatever state; and none of its byte fields is nil. -/
theorem fetched_range_accepted {start stop : UInt64} {bundles : List BlockBundle}
    (h : f.fetchRange env start stop = .ok bundles)
    (hdistinct : bundles.Pairwise fun b c =>
      ∀ t ∈ b.transactions, ∀ v ∈ c.transactions, t.hash ≠ v.hash)
    {u : CanonicalUpdate} (hblocks : u.blocks = bundles) (hreplace : u.replaceFrom = start)
    (hretain : u.retainFrom = start) :
    validateReplacement u = .ok () ∧
    (∀ ord, validateCanonicalBundles ord
      ((∅ : BundleMap).setAll (fun bundle => bundle.block.number) u.blocks) = .ok ()) ∧
    (∀ ord m, u.chainID ≠ 0 → m.chainID = 0 ∨ m.chainID = u.chainID →
      (Memory.applyCanonicalUpdate ord none m u).1 = .ok ()) ∧
    (∀ b ∈ u.blocks, (∀ t ∈ b.transactions, t.input ≠ none) ∧
      ∀ e ∈ b.events, e.topics ≠ none ∧ e.data ≠ none) := by
  subst hblocks
  have hcons : Consecutive u.replaceFrom u.blocks := by
    rw [hreplace]
    exact (consecutive_of_fetchRange h).1
  have hchain := (fetchRange_eq_ok_iff.1 h).2.2.2.2
  have hcanonical := canonical_replace_empty hcons hchain
    (fun b hb => wellFormed_of_fetchBlock (fetchBlock_of_mem_fetchRange h hb)) hdistinct
  have heq : u.retainFrom = u.replaceFrom := hretain.trans hreplace.symm
  refine ⟨(validateReplacement_eq_ok_iff u).2 hcons, fun ord => ?_, fun ord m hid hchainID => ?_,
    fun b hb => bytes_of_fetchBlock (fetchBlock_of_mem_fetchRange h hb)⟩
  · refine (validateCanonicalBundles_eq_ok_iff ord _ ()).2 ?_
    rwa [setAll_empty_eq_replace]
  · have haccepts : Memory.Accepts m u := ⟨hid, UInt64.le_of_eq heq, hcons, hchainID, by
      rwa [replace_of_retainFrom_eq hcons heq]⟩
    rw [Memory.applyCanonicalUpdate_of_accepts ord haccepts]

/-- A transaction of the main chain without input. -/
def payment (hash : Hash) (type : UInt8) : EthTransaction :=
  { hash := hash, isProtected := true, chainId := 1, sender := .ok default, type := type, nonce := 0
    recipient := none, value := 0, gas := 21000, gasPrice := 1, gasFeeCap := 2, gasTipCap := 1
    data := [] }

/-- A chain whose blocks have two transactions each, a legacy one and one
with a fee cap. Each has emitted a log without topics and without data,
and the node lists the logs backwards. -/
def EthChain.busy (head : UInt64) : EthChain where
  head := head
  block n :=
    { number := some n.toNat, hash := .spelling n.toNat, parentHash := .spelling (n - 1).toNat
      time := 0, gasLimit := 42000, gasUsed := 42000, baseFee := some 1
      transactions := [some (payment (.spelling (10 * n.toNat)) 0),
        some (payment (.spelling (10 * n.toNat + 1)) 2)] }
  logs n := [1, 0].map fun i =>
    { address := default, topics := [], data := [], blockNumber := n, blockHash := .spelling n.toNat
      txHash := .spelling (10 * n.toNat + i), txIndex := UInt64.ofNat i, index := UInt64.ofNat i
      removed := false }

/-- Two blocks with two transactions and two logs each. -/
theorem fetched_range_accepted_busy :
    ∃ bundles, Fetcher.fetchRange ⟨some 1⟩ (EthChain.busy 8).env 7 8 = .ok bundles ∧
      (bundles.map fun b => (b.transactions.length, b.events.length)) = [(2, 2), (2, 2)] ∧
      (Memory.applyCanonicalUpdate (ascending BlockBundle) none .new ⟨1, 7, 7, bundles, 0⟩).1 =
        .ok () ∧
      ∀ b ∈ bundles, (∀ t ∈ b.transactions, t.input ≠ none) ∧
        ∀ e ∈ b.events, e.topics ≠ none ∧ e.data ≠ none := by
  have hchecked : ((Fetcher.fetchRange ⟨some 1⟩ (EthChain.busy 8).env 7 8).toOption.any fun bundles =>
      decide ((bundles.map fun b => (b.transactions.length, b.events.length)) = [(2, 2), (2, 2)]) &&
        decide (bundles.Pairwise fun b c =>
          ∀ t ∈ b.transactions, ∀ v ∈ c.transactions, t.hash ≠ v.hash)) = true := by
    decide +kernel
  rcases hfetch : Fetcher.fetchRange ⟨some 1⟩ (EthChain.busy 8).env 7 8 with err | bundles
  · rw [hfetch] at hchecked
    cases hchecked
  · rw [hfetch] at hchecked
    obtain ⟨hlengths, hdistinct⟩ := (Bool.and_eq_true _ _).mp hchecked
    obtain ⟨-, -, htaken, hbytes⟩ := fetched_range_accepted hfetch (of_decide_eq_true hdistinct)
      (u := ⟨1, 7, 7, bundles, 0⟩) rfl rfl rfl
    exact ⟨bundles, rfl, of_decide_eq_true hlengths,
      htaken _ _ (by change (1 : UInt64) ≠ 0; decide) (Or.inl rfl), hbytes⟩

end EthIndexer
