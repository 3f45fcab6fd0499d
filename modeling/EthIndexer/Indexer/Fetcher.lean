import EthIndexer.Indexer.Logs
/-!
# What the fetcher returns

A bundle that `FetchBlock` returns has the number that was asked for and
is well formed, whatever the node answered: the loops over transactions
and logs refuse everything the store's loops would. `FetchRange` succeeds
exactly when every height does and each block names the one before.
-/

namespace EthIndexer

/-! ## One block -/

theorem asUint64_eq_some_iff {n : Option ℤ} {k : UInt64} :
    asUint64 n = some k ↔ n = some (k.toNat : ℤ) := by
  cases n with
  | none => simp [asUint64]
  | some n =>
    simp only [asUint64, Option.bind_some]
    split
    · rename_i h
      rw [Option.some.injEq, Option.some.injEq, ← UInt64.toNat_inj,
        UInt64.toNat_ofNat_of_lt' (by simp only [UInt64.size]; omega)]
      omega
    · rename_i h
      have := k.toNat_lt
      simp only [reduceCtorEq, Option.some.injEq, false_iff]
      omega

variable {f : Fetcher} {env : Env} {number : UInt64} {blockHash : Hash}

/-- The store's transaction loop passes what the fetcher's emits, with the
same positions. -/
theorem validateTransactions_of_mapTransactionsFrom {ts : List (Option EthTransaction)} {index : ℕ}
    {positions positions' : GoMap Hash UInt32} {seen : Finset Hash} {transactions : List Transaction}
    (hseen : ∀ h, h ∈ seen ↔ positions.get? h ≠ none)
    (h : f.mapTransactionsFrom number blockHash index positions ts =
      .ok (transactions, positions')) :
    ∃ seen', validateTransactions number blockHash index seen positions transactions =
      .ok (seen', positions') := by
  induction ts generalizing index positions positions' seen transactions with
  | nil =>
    simp only [Fetcher.mapTransactionsFrom, Except.ok.injEq, Prod.mk.injEq] at h
    obtain ⟨rfl, rfl⟩ := h
    exact ⟨seen, rfl⟩
  | cons t ts ih =>
    cases t with
    | none => simp [Fetcher.mapTransactionsFrom] at h
    | some t =>
      simp only [Fetcher.mapTransactionsFrom, Go.bind_eq_ok_iff, Go.failIf_eq_ok_iff,
        Go.pure_eq_ok_iff, Prod.mk.injEq, ne_eq, not_not] at h
      obtain ⟨-, -, sender, -, -, hfresh, ⟨rest, positions''⟩, hrest, rfl, rfl⟩ := h
      have hseen' : ∀ h, h ∈ insert t.hash seen ↔
          (positions.set t.hash (UInt32.ofNat index)).get? h ≠ none := by
        intro h
        rw [Finset.mem_insert, hseen, GoMap.get?_set]
        by_cases hh : h = t.hash <;> simp [hh]
      obtain ⟨seen', hok⟩ := ih hseen' hrest
      refine ⟨seen', ?_⟩
      have hnot : t.hash ∉ seen := by
        rw [hseen, hfresh]
        simp
      simpa [validateTransactions, EthTransaction.mapped, hnot] using hok

/-- One record comes out for each transaction, under its hash. -/
theorem map_hash_of_mapTransactionsFrom {ts : List (Option EthTransaction)} {index : ℕ}
    {positions positions' : GoMap Hash UInt32} {transactions : List Transaction}
    (h : f.mapTransactionsFrom number blockHash index positions ts =
      .ok (transactions, positions')) :
    transactions.map (fun t => some t.hash) = ts.map fun t => t.map EthTransaction.hash := by
  induction ts generalizing index positions positions' transactions with
  | nil =>
    simp only [Fetcher.mapTransactionsFrom, Except.ok.injEq, Prod.mk.injEq] at h
    rw [← h.1]
    rfl
  | cons t ts ih =>
    cases t with
    | none => simp [Fetcher.mapTransactionsFrom] at h
    | some t =>
      simp only [Fetcher.mapTransactionsFrom, Go.bind_eq_ok_iff, Go.pure_eq_ok_iff,
        Prod.mk.injEq] at h
      obtain ⟨-, -, sender, -, -, -, ⟨rest, positions''⟩, hrest, rfl, -⟩ := h
      rw [List.map_cons, List.map_cons, ih hrest]
      rfl

/-- And so does its event loop: what a log has to meet is what its event
is checked for. -/
theorem validateEvents_of_mapLogs {positions : GoMap Hash UInt32} {logs : List Log}
    {events : List Event} (h : mapLogs number blockHash positions ∅ logs = .ok events) :
    validateEvents number blockHash positions ∅ events = .ok () := by
  obtain ⟨hall, hnodup, -, rfl⟩ := mapLogs_eq_ok_iff.1 h
  refine (validateEvents_eq_ok_iff ..).2 ⟨fun e he => ?_, ?_, fun e _ => Finset.notMem_empty _⟩
  · obtain ⟨log, hlog, rfl⟩ := List.mem_map.1 he
    obtain ⟨-, -, -, htopics, hposition⟩ := Log.belongs_iff.1 (hall log hlog)
    exact ⟨hposition, rfl, rfl, not_lt.1 htopics⟩
  · rw [List.map_map]
    exact hnodup

theorem validateEvents_of_perm {positions : GoMap Hash UInt32} {es es' : List Event}
    (hp : es.Perm es') (h : validateEvents number blockHash positions ∅ es = .ok ()) :
    validateEvents number blockHash positions ∅ es' = .ok () := by
  rw [validateEvents_eq_ok_iff] at h ⊢
  refine ⟨fun e he => h.1 e (hp.mem_iff.2 he), ?_, fun e he => h.2.2 e (hp.mem_iff.2 he)⟩
  exact (hp.map Event.logIndex).nodup_iff.1 h.2.1

/-- What `FetchBlock` returns, read back to the node's answers. -/
theorem fetchBlock_eq_ok {b : BlockBundle} (h : f.fetchBlock env number = .ok b) :
    ∃ block positions logs events,
      env.node.blockByNumber number = .ok (some block) ∧ block.number = some (number.toNat : ℤ) ∧
      f.mapTransactions number block = .ok (b.transactions, positions) ∧
      env.node.logsByBlockHash number block.hash = .ok logs ∧
      mapLogs number block.hash positions ∅ logs = .ok events ∧
      b.events = sortSlice (fun left right => decide (left.logIndex < right.logIndex)) events ∧
      b.block =
        { number := number, hash := block.hash, parentHash := block.parentHash
          timestamp := block.time, gasLimit := block.gasLimit, gasUsed := block.gasUsed
          baseFeePerGas := block.baseFee, transactionCount := b.transactions.length
          indexedAt := env.fetchedAt number } := by
  have hext : ∀ {α : Type} {x : Except String α} {context : String} {a : α},
      (Go.ofExternal x).wrap context = .ok a → x = .ok a := by
    intro α x context a h
    cases x with
    | error e => cases h
    | ok a' => cases h; rfl
  simp only [Fetcher.fetchBlock, Go.bind_eq_ok_iff] at h
  obtain ⟨answer, hanswer, h⟩ := h
  cases answer with
  | none => cases h
  | some block =>
    simp only [Go.bind_eq_ok_iff, Go.pure_eq_ok_iff, validateBlockNumber, Go.failIf_eq_ok_iff,
      ne_eq, not_not, mapEvents] at h
    obtain ⟨-, hnumber, ⟨transactions, positions⟩, htx, logs, hlogs, -, ⟨events, hevents, rfl⟩,
      rfl⟩ := h
    exact ⟨block, positions, logs, events, hext hanswer, asUint64_eq_some_iff.1 hnumber, htx,
      hext hlogs, hevents, rfl, rfl⟩

/-- Only the answers at its own height count. -/
theorem fetchBlock_congr {env' : Env}
    (hblock : env'.node.blockByNumber number = env.node.blockByNumber number)
    (hlogs : env'.node.logsByBlockHash number = env.node.logsByBlockHash number)
    (hat : env'.fetchedAt number = env.fetchedAt number) :
    f.fetchBlock env' number = f.fetchBlock env number := by
  simp only [Fetcher.fetchBlock, hblock, hlogs, hat]

/-- The bundle is the block of the height that was asked for. -/
theorem number_of_fetchBlock {b : BlockBundle} (h : f.fetchBlock env number = .ok b) :
    b.block.number = number := by
  obtain ⟨block, positions, logs, events, -, -, -, -, -, -, hb⟩ := fetchBlock_eq_ok h
  rw [hb]

/-- **What the fetcher returns is well formed.** -/
theorem wellFormed_of_fetchBlock {b : BlockBundle} (h : f.fetchBlock env number = .ok b) :
    WellFormed b := by
  obtain ⟨block, positions, logs, events, -, -, htx, -, hlogs, hevents, hb⟩ := fetchBlock_eq_ok h
  rw [Fetcher.mapTransactions] at htx
  split at htx
  · cases htx
  · rename_i hlen
    have hseen : ∀ h : Hash, h ∈ (∅ : Finset Hash) ↔ (∅ : GoMap Hash UInt32).get? h ≠ none := by simp
    obtain ⟨seen', htx'⟩ := validateTransactions_of_mapTransactionsFrom hseen htx
    have hlength : b.transactions.length ≤ 2 ^ 32 - 1 := by
      have := congrArg List.length (map_hash_of_mapTransactionsFrom htx)
      rw [List.length_map, List.length_map] at this
      omega
    have hperm : events.Perm b.events := by
      rw [hevents]
      exact (perm_sortSlice _ events).symm
    have hev := validateEvents_of_perm hperm (validateEvents_of_mapLogs hlogs)
    have hvalid : validateBundle b.block.number b ∅ = .ok seen' := by
      simp only [validateBundle, Go.bind_eq_ok_iff, Go.failIf_eq_ok_iff, Go.pure_eq_ok_iff]
      refine ⟨(), by simp [hb], (), by omega, (seen', positions), ?_, (), ?_, rfl⟩
      · simpa [hb] using htx'
      · simpa [hb] using hev
    exact ((validateBundle_eq_ok_iff b ∅ seen').1 hvalid).1

/-- Its transactions are the block's. -/
theorem exists_transaction_of_fetchBlock {b : BlockBundle} (h : f.fetchBlock env number = .ok b)
    {t : Transaction} (ht : t ∈ b.transactions) : ∃ block e,
      env.node.blockByNumber number = .ok (some block) ∧ some e ∈ block.transactions ∧
        e.hash = t.hash := by
  obtain ⟨block, positions, logs, events, hblock, -, htx, -⟩ := fetchBlock_eq_ok h
  rw [Fetcher.mapTransactions] at htx
  split at htx
  · cases htx
  · have hmem : some t.hash ∈ b.transactions.map fun t => some t.hash := List.mem_map_of_mem ht
    rw [map_hash_of_mapTransactionsFrom htx] at hmem
    obtain ⟨e, he, heq⟩ := List.mem_map.1 hmem
    obtain ⟨e', rfl, hh⟩ := Option.map_eq_some_iff.1 heq
    exact ⟨block, e', hblock, he, hh⟩

/-! ## A range -/

/-- `child` names `parent` as its parent. -/
def BlockBundle.Extends (parent child : BlockBundle) : Prop :=
  child.block.parentHash = parent.block.hash

/-- In a linked run each block names the one below. -/
theorem Consecutive.linked {start : UInt64} {blocks : List BlockBundle}
    (h : Consecutive start blocks) (hchain : blocks.IsChain BlockBundle.Extends) {b c : BlockBundle}
    (hb : b ∈ blocks) (hc : c ∈ blocks) (hbc : c.block.number.toNat = b.block.number.toNat + 1) :
    c.block.parentHash = b.block.hash := by
  obtain ⟨i, hi, rfl⟩ := List.getElem_of_mem hb
  obtain ⟨j, hj, rfl⟩ := List.getElem_of_mem hc
  obtain rfl : j = i + 1 := by
    have h1 := h i hi
    have h2 := h j hj
    omega
  exact List.isChain_iff_getElem.1 hchain i hj

theorem validateFetchedFrom_eq_ok_iff (start : UInt64) (bundles : List BlockBundle) (i : ℕ)
    (previous : Option BlockBundle) (u : Unit) :
    validateFetchedFrom start i previous bundles = .ok u ↔
      (∀ (j : ℕ) (h : j < bundles.length),
        bundles[j].block.number = start + UInt64.ofNat (i + j)) ∧
      (previous.toList ++ bundles).IsChain BlockBundle.Extends := by
  induction bundles generalizing i previous with
  | nil => cases previous <;> simp [validateFetchedFrom]
  | cons b rest ih =>
    have hnumbers : (∀ (j : ℕ) (h : j < (b :: rest).length),
        (b :: rest)[j].block.number = start + UInt64.ofNat (i + j)) ↔
        b.block.number = start + UInt64.ofNat i ∧ ∀ (j : ℕ) (h : j < rest.length),
          rest[j].block.number = start + UInt64.ofNat (i + 1 + j) := by
      constructor
      · intro h
        refine ⟨h 0 (by simp), fun j hj => ?_⟩
        have := h (j + 1) (by simpa using hj)
        rwa [List.getElem_cons_succ, show i + (j + 1) = i + 1 + j by omega] at this
      · rintro ⟨h0, h⟩ j hj
        cases j with
        | zero => exact h0
        | succ j =>
          rw [List.getElem_cons_succ, show i + (j + 1) = i + 1 + j by omega]
          exact h j (by simpa using hj)
    rw [hnumbers]
    simp only [validateFetchedFrom, Go.bind_eq_ok_iff, Go.failIf_eq_ok_iff, ne_eq, not_not,
      exists_const]
    cases previous with
    | none =>
      simp only [ih, Option.toList, List.singleton_append, List.nil_append, and_assoc]
    | some p =>
      simp only [ih, Go.bind_eq_ok_iff, Go.failIf_eq_ok_iff, exists_const, Option.toList,
        List.singleton_append, List.isChain_cons_cons, BlockBundle.Extends, not_not]
      tauto

theorem mem_rangeNumbers_iff {start n : UInt64} {count : ℕ} (h : start.toNat + count ≤ 2 ^ 64) :
    n ∈ rangeNumbers start count ↔ start.toNat ≤ n.toNat ∧ n.toNat < start.toNat + count := by
  rw [rangeNumbers, List.mem_map]
  constructor
  · rintro ⟨i, hi, rfl⟩
    rw [List.mem_range] at hi
    rw [UInt64.toNat_add, UInt64.toNat_ofNat_of_lt' (by simp only [UInt64.size]; omega)]
    omega
  · rintro ⟨h1, h2⟩
    refine ⟨n.toNat - start.toNat, List.mem_range.2 (by omega), UInt64.toNat_inj.1 ?_⟩
    rw [UInt64.toNat_add, UInt64.toNat_ofNat_of_lt' (by simp only [UInt64.size]; omega)]
    omega

theorem failure_eq_none_iff {n : UInt64} :
    f.failure env n = none ↔ ∃ b, f.fetchBlock env n = .ok b := by
  unfold Fetcher.failure
  cases f.fetchBlock env n <;> simp

/-- Where every height succeeds, the bundles are its results in order. -/
theorem map_fetchBlock_eq {numbers : List UInt64}
    (h : ∀ n ∈ numbers, ∃ b, f.fetchBlock env n = .ok b) :
    numbers.map (f.fetchBlock env) =
      (numbers.filterMap fun n => (f.fetchBlock env n).toOption).map .ok := by
  induction numbers with
  | nil => rfl
  | cons n numbers ih =>
    obtain ⟨b, hb⟩ := h n List.mem_cons_self
    rw [List.map_cons, ih fun m hm => h m (List.mem_cons_of_mem _ hm), List.filterMap_cons, hb]
    rfl

/-- The results carry the numbers that were asked for. -/
theorem map_number_of_map_fetchBlock {numbers : List UInt64} {bundles : List BlockBundle}
    (h : numbers.map (f.fetchBlock env) = bundles.map .ok) :
    bundles.map (fun b => b.block.number) = numbers := by
  induction numbers generalizing bundles with
  | nil => simpa using h.symm
  | cons n numbers ih =>
    cases bundles with
    | nil => simp at h
    | cons b bundles =>
      rw [List.map_cons, List.map_cons, List.cons.injEq] at h
      rw [List.map_cons, ih h.2, number_of_fetchBlock h.1]

theorem validateFetchedBundles_eq_ok_iff {start : UInt64} {count : ℕ} {bundles : List BlockBundle}
    (h : bundles.map (fun b => b.block.number) = rangeNumbers start count) (u : Unit) :
    validateFetchedBundles bundles start = .ok u ↔ bundles.IsChain BlockBundle.Extends := by
  rw [validateFetchedBundles, validateFetchedFrom_eq_ok_iff, Option.toList, List.nil_append,
    and_iff_right_iff_imp]
  intro _ j hj
  have hlt : j < count := by
    have := congrArg List.length h
    simp only [List.length_map, rangeNumbers, List.length_range] at this
    omega
  have hget := congrArg (fun l => l[j]?) h
  simp only [List.getElem?_map, List.getElem?_eq_getElem hj, Option.map_some, rangeNumbers,
    List.getElem?_range hlt, Option.some.injEq] at hget
  rw [hget, Nat.zero_add]

theorem validated_eq_ok_iff {start : UInt64} {bundles bundles' : List BlockBundle} :
    (do validateFetchedBundles bundles start; return bundles : Go (List BlockBundle)) =
        .ok bundles' ↔
      validateFetchedBundles bundles start = .ok () ∧ bundles = bundles' := by
  rw [Go.seq_eq_ok_iff, Go.pure_eq_ok_iff]

/-- Where every height succeeds, what is left is the context and the
checks. -/
theorem fetchRange_of_map_fetchBlock {start stop : UInt64} {bundles : List BlockBundle}
    (hle : start ≤ stop) (hsmall : (stop - start).toNat < maxInt)
    (h : (rangeNumbers start ((stop - start).toNat + 1)).map (f.fetchBlock env) =
      bundles.map .ok) :
    f.fetchRange env start stop =
      match env.rangeCtx with
      | some err => .error err.fault
      | none => do
        validateFetchedBundles bundles start
        return bundles := by
  set numbers := rangeNumbers start ((stop - start).toNat + 1) with hnumbers
  have hall : ∀ n ∈ numbers, ∃ b, f.fetchBlock env n = .ok b := by
    intro n hn
    have hok : f.fetchBlock env n ∈ bundles.map Except.ok := by
      rw [← h]
      exact List.mem_map_of_mem hn
    obtain ⟨b, -, hb⟩ := List.mem_map.1 hok
    exact ⟨b, hb.symm⟩
  have hnone : (numbers.filter (· = env.first) ++ numbers).findSome? (f.failure env) = none := by
    refine List.findSome?_eq_none_iff.2 fun n hn => failure_eq_none_iff.2 (hall n ?_)
    rcases List.mem_append.1 hn with hn | hn
    · exact (List.mem_filter.1 hn).1
    · exact hn
  have hbundles : numbers.filterMap (fun n => (f.fetchBlock env n).toOption) = bundles := by
    have hmap := (map_fetchBlock_eq hall).symm.trans h
    exact List.map_injective_iff.2 (fun _ _ => Except.ok.inj) hmap
  rw [Fetcher.fetchRange, if_neg (UInt64.not_lt.2 hle), if_neg (not_le.2 hsmall)]
  cases env.rangeCtx <;> simp only [← hnumbers, hnone, hbundles]

/-- The failure of the height that is first is the one returned. -/
theorem fetchRange_of_first {start stop : UInt64} {err : Fault} (hle : start ≤ stop)
    (hsmall : (stop - start).toNat < maxInt)
    (hmem : env.first ∈ rangeNumbers start ((stop - start).toNat + 1))
    (hfail : f.failure env env.first = some err) : f.fetchRange env start stop = .error err := by
  have hfind : ((rangeNumbers start ((stop - start).toNat + 1)).filter (· = env.first)).findSome?
      (f.failure env) = some err := by
    have hfirst : env.first ∈
        (rangeNumbers start ((stop - start).toNat + 1)).filter (· = env.first) :=
      List.mem_filter.2 ⟨hmem, decide_eq_true rfl⟩
    cases hl : (rangeNumbers start ((stop - start).toNat + 1)).filter (· = env.first) with
    | nil => rw [hl] at hfirst; cases hfirst
    | cons n rest =>
      have hn : n ∈ (rangeNumbers start ((stop - start).toNat + 1)).filter (· = env.first) := by
        rw [hl]
        exact List.mem_cons_self
      rw [of_decide_eq_true (List.mem_filter.1 hn).2, List.findSome?_cons, hfail]
  rw [Fetcher.fetchRange, if_neg (UInt64.not_lt.2 hle), if_neg (not_le.2 hsmall)]
  simp only [List.findSome?_append, hfind, Option.some_or]

/-- **When a range is fetched**: every height is, in order, and each block
names the one before. -/
theorem fetchRange_eq_ok_iff {start stop : UInt64} {bundles : List BlockBundle} :
    f.fetchRange env start stop = .ok bundles ↔
      start ≤ stop ∧ (stop - start).toNat < maxInt ∧ env.rangeCtx = none ∧
      (rangeNumbers start ((stop - start).toNat + 1)).map (f.fetchBlock env) = bundles.map .ok ∧
      bundles.IsChain BlockBundle.Extends := by
  constructor
  · intro h
    dsimp only [Fetcher.fetchRange] at h
    split at h
    · cases h
    rename_i hle
    split at h
    · cases h
    rename_i hsmall
    split at h
    · cases h
    rename_i hnone
    rw [List.findSome?_eq_none_iff] at hnone
    have hall := map_fetchBlock_eq fun n hn =>
      failure_eq_none_iff.1 (hnone n (List.mem_append_right _ hn))
    split at h
    · cases h
    rename_i hctx
    obtain ⟨hvalid, rfl⟩ := validated_eq_ok_iff.1 h
    exact ⟨UInt64.not_lt.1 hle, not_le.1 hsmall, hctx, hall,
      (validateFetchedBundles_eq_ok_iff (map_number_of_map_fetchBlock hall) ()).1 hvalid⟩
  · rintro ⟨hle, hsmall, hctx, hall, hchain⟩
    rw [fetchRange_of_map_fetchBlock hle hsmall hall, hctx]
    exact validated_eq_ok_iff.2 ⟨(validateFetchedBundles_eq_ok_iff
      (map_number_of_map_fetchBlock hall) ()).2 hchain, rfl⟩

/-- Bundles under the numbers of a range are consecutive. -/
theorem consecutive_of_map_number {start : UInt64} {count : ℕ} {bundles : List BlockBundle}
    (hfit : start.toNat + count ≤ 2 ^ 64)
    (h : bundles.map (fun b => b.block.number) = rangeNumbers start count) :
    Consecutive start bundles := by
  have hlen := congrArg List.length h
  simp only [List.length_map, rangeNumbers, List.length_range] at hlen
  intro i hi
  have hget := congrArg (fun l => l[i]?) h
  simp only [List.getElem?_map, List.getElem?_eq_getElem hi, Option.map_some, rangeNumbers,
    List.getElem?_range (show i < count by omega), Option.some.injEq] at hget
  rw [hget, UInt64.toNat_add, UInt64.toNat_ofNat_of_lt' (by simp only [UInt64.size]; omega)]
  omega

/-- A fetched range runs from `start` to `stop`. -/
theorem consecutive_of_fetchRange {start stop : UInt64} {bundles : List BlockBundle}
    (h : f.fetchRange env start stop = .ok bundles) :
    Consecutive start bundles ∧ start.toNat + bundles.length = stop.toNat + 1 := by
  obtain ⟨hle, -, -, hall, -⟩ := fetchRange_eq_ok_iff.1 h
  have hnumbers := map_number_of_map_fetchBlock hall
  have hsub := UInt64.toNat_sub_of_le _ _ hle
  have hstop := stop.toNat_lt
  rw [UInt64.le_iff_toNat_le] at hle
  have hlen := congrArg List.length hnumbers
  simp only [List.length_map, rangeNumbers, List.length_range] at hlen
  exact ⟨consecutive_of_map_number (by omega) hnumbers, by omega⟩

/-- Every bundle of a fetched range is the result of its own height. -/
theorem fetchBlock_of_mem_fetchRange {start stop : UInt64} {bundles : List BlockBundle}
    (h : f.fetchRange env start stop = .ok bundles) {b : BlockBundle} (hb : b ∈ bundles) :
    f.fetchBlock env b.block.number = .ok b := by
  obtain ⟨-, -, -, hall, -⟩ := fetchRange_eq_ok_iff.1 h
  have hok : (.ok b : Go BlockBundle) ∈ bundles.map Except.ok := List.mem_map_of_mem hb
  rw [← hall] at hok
  obtain ⟨n, -, hn⟩ := List.mem_map.1 hok
  rw [number_of_fetchBlock hn, hn]

end EthIndexer
