import EthIndexer.Store.Pagination
/-!
# The endpoints agree

A block lists its transactions by position, a transaction names its block
and its position, and an event names its transaction. The three queries
read these fields in different directions; on a canonical window they
come to the same.
-/

namespace EthIndexer

namespace Memory

variable {m : Memory} {ord : RangeOrder UInt64 BlockBundle}

/-! ## Blocks and transactions -/

theorem blockByNumber_eq_ok_iff {n : UInt64} {r : BlockResult} :
    m.blockByNumber none n = .ok r ↔ ∃ b, m.bundles.get? n = some b ∧
      r = { block := b.block, transactionHashes := b.transactions.map Transaction.hash } := by
  unfold blockByNumber
  cases m.bundles.get? n <;> simp [eq_comm]

theorem Invariant.cloneTransaction_eq (hm : m.Invariant) {n : UInt64} {b : BlockBundle}
    (hb : m.bundles.get? n = some b) {t : Transaction} (ht : t ∈ b.transactions) :
    cloneTransaction t = t := by
  have hclone : b.transactions.map cloneTransaction = b.transactions :=
    congrArg BlockBundle.transactions (hm.cloned hb)
  exact List.map_inj_left.1 (hclone.trans (List.map_id b.transactions).symm) t ht

/-- **No two stored transactions have one hash.** -/
theorem Invariant.eq_of_hash_eq (hm : m.Invariant) {n n' : UInt64} {b b' : BlockBundle}
    (hb : m.bundles.get? n = some b) (hb' : m.bundles.get? n' = some b') {t t' : Transaction}
    (ht : t ∈ b.transactions) (ht' : t' ∈ b'.transactions) (h : t.hash = t'.hash) :
    n = n' ∧ b = b' ∧ t = t' := by
  obtain rfl := hm.canonical.distinct hb hb' ht ht' h
  rw [hb] at hb'
  cases hb'
  exact ⟨rfl, rfl, List.inj_on_of_nodup_map (hm.canonical.wellFormed hb).hash_nodup ht ht' h⟩

/-- A stored transaction is where it says it is. -/
theorem Invariant.transaction_spec (hm : m.Invariant) {n : UInt64} {b : BlockBundle}
    (hb : m.bundles.get? n = some b) {t : Transaction} (ht : t ∈ b.transactions) :
    b.transactions[t.index.toNat]? = some t ∧ t.blockNumber = n ∧ t.blockHash = b.block.hash := by
  obtain ⟨i, hi, rfl⟩ := List.getElem_of_mem ht
  obtain ⟨hindex, hnumber, hhash⟩ := (hm.canonical.wellFormed hb).transaction i hi
  refine ⟨?_, hnumber.trans (hm.canonical.number hb), hhash⟩
  rw [hindex, List.getElem?_eq_getElem hi]

/-- What is answered for a transaction of a block. -/
def transactionAnswer (b : BlockBundle) (t : Transaction) : TransactionResult where
  transaction := t
  events := sortSlice byLogIndex (b.events.filter fun e => e.transactionHash = t.hash)

/-- The search through the map, in any order. -/
theorem findSome?_keys_eq_some (hm : m.Invariant) {n : UInt64} {b : BlockBundle}
    (hb : m.bundles.get? n = some b) {t : Transaction} (ht : t ∈ b.transactions) :
    ((ord.keys m.bundles).findSome? fun number =>
      ((m.bundles.get number).transactions.find? fun t' => t'.hash = t.hash).map fun t' =>
        (m.bundles.get number, t')) = some (b, t) := by
  cases hfind : (ord.keys m.bundles).findSome? fun number =>
      ((m.bundles.get number).transactions.find? fun t' => t'.hash = t.hash).map fun t' =>
        (m.bundles.get number, t') with
  | none =>
    have hn := List.findSome?_eq_none_iff.1 hfind n ((ord.mem_keys_iff_get? _ _).2 ⟨b, hb⟩)
    rw [GoMap.get_of_get? hb, Option.map_eq_none_iff, List.find?_eq_none] at hn
    exact absurd (decide_eq_true rfl) (hn t ht)
  | some p =>
    obtain ⟨k, hk, hp⟩ := List.exists_of_findSome?_eq_some hfind
    obtain ⟨b', hb'⟩ := (ord.mem_keys_iff_get? _ _).1 hk
    rw [GoMap.get_of_get? hb'] at hp
    obtain ⟨t', ht', rfl⟩ := Option.map_eq_some_iff.1 hp
    have hhash : t'.hash = t.hash := by simpa using List.find?_some ht'
    obtain ⟨-, rfl, rfl⟩ := hm.eq_of_hash_eq hb hb' ht (List.mem_of_find?_eq_some ht') hhash.symm
    rfl

theorem transactionByHash_of_mem (hm : m.Invariant) {n : UInt64} {b : BlockBundle}
    (hb : m.bundles.get? n = some b) {t : Transaction} (ht : t ∈ b.transactions) :
    m.transactionByHash ord none t.hash = .ok (transactionAnswer b t) := by
  simp only [transactionByHash, findSome?_keys_eq_some hm hb ht, transactionAnswer,
    hm.cloneTransaction_eq hb ht]
  congr 3
  exact (List.map_congr_left fun e he => hm.cloneEvent_eq
    ⟨n, b, hb, (List.mem_filter.1 he).1⟩).trans (List.map_id _)

theorem transactionByHash_of_not_mem {hash : Hash}
    (h : ∀ n b, m.bundles.get? n = some b → ∀ t ∈ b.transactions, t.hash ≠ hash) :
    m.transactionByHash ord none hash = .error (.ofSentinel .notFound) := by
  have hnone : ((ord.keys m.bundles).findSome? fun number =>
      ((m.bundles.get number).transactions.find? fun t => t.hash = hash).map fun t =>
        (m.bundles.get number, t)) = none := by
    refine List.findSome?_eq_none_iff.2 fun n hn => ?_
    obtain ⟨b, hb⟩ := (ord.mem_keys_iff_get? _ _).1 hn
    rw [GoMap.get_of_get? hb, Option.map_eq_none_iff, List.find?_eq_none]
    exact fun t ht => by simpa using h n b hb t ht
  simp only [transactionByHash, hnone]

/-- **What `TransactionByHash` answers.** -/
theorem transactionByHash_eq_ok_iff (hm : m.Invariant) {hash : Hash} {r : TransactionResult} :
    m.transactionByHash ord none hash = .ok r ↔ ∃ n b t, m.bundles.get? n = some b ∧
      t ∈ b.transactions ∧ t.hash = hash ∧ r = transactionAnswer b t := by
  by_cases h : ∃ n b t, m.bundles.get? n = some b ∧ t ∈ b.transactions ∧ t.hash = hash
  · obtain ⟨n, b, t, hb, ht, rfl⟩ := h
    rw [transactionByHash_of_mem hm hb ht, Except.ok.injEq]
    constructor
    · rintro rfl
      exact ⟨n, b, t, hb, ht, rfl, rfl⟩
    · rintro ⟨n', b', t', hb', ht', hh, rfl⟩
      obtain ⟨-, rfl, rfl⟩ := hm.eq_of_hash_eq hb hb' ht ht' hh.symm
      rfl
  · rw [transactionByHash_of_not_mem fun n b hb t ht hh => h ⟨n, b, t, hb, ht, hh⟩]
    refine iff_of_false (nomatch ·) ?_
    rintro ⟨n, b, t, hb, ht, hh, -⟩
    exact h ⟨n, b, t, hb, ht, hh⟩

/-- The events of a transaction are in strictly increasing log order. -/
theorem pairwise_transactionAnswer (hm : m.Invariant) {n : UInt64} {b : BlockBundle}
    (hb : m.bundles.get? n = some b) (t : Transaction) :
    (transactionAnswer b t).events.Pairwise fun e e' => e.logIndex < e'.logIndex := by
  exact (pairwise_byLogIndex (hm.canonical.wellFormed hb) _).imp UInt32.lt_iff_toNat_lt.2

theorem mem_transactionAnswer {b : BlockBundle} {t : Transaction} {e : Event} :
    e ∈ (transactionAnswer b t).events ↔ e ∈ b.events ∧ e.transactionHash = t.hash := by
  rw [transactionAnswer, mem_sortSlice, List.mem_filter, decide_eq_true_iff]

/-- A stored event is answered with its transaction. -/
theorem Invariant.transactionByHash_of_holds (hm : m.Invariant) {e : Event} (he : m.Holds e) :
    ∃ r, m.transactionByHash ord none e.transactionHash = .ok r ∧ e ∈ r.events ∧
      e.transactionIndex = r.transaction.index := by
  obtain ⟨n, b, hb, he⟩ := he
  obtain ⟨⟨t, ht, hhash, hindex⟩, -⟩ := (hm.canonical.wellFormed hb).event e he
  refine ⟨transactionAnswer b t, hhash ▸ transactionByHash_of_mem hm hb ht, ?_, hindex.symm⟩
  exact mem_transactionAnswer.2 ⟨he, hhash.symm⟩

/-! ## Following the cursors -/

/-- At most `n` pages, each with the cursor of the one before. The limits
and the orders the map is visited in may differ from page to page. -/
def follow (m : Memory) (orders : ℕ → RangeOrder UInt64 BlockBundle) (limits : ℕ → UInt32)
    (address : Address) : ℕ → Option EventCursor → Go (List Event)
  | 0, _ => .ok []
  | n + 1, before => do
    let page ← m.eventsByAddress (orders n) none
      { address := address, limit := limits n, before := before }
    match page.nextCursor with
    | none => return page.events
    | some cursor => return page.events ++ (← m.follow orders limits address n (some cursor))

section Follow

variable {orders : ℕ → RangeOrder UInt64 BlockBundle} {limits : ℕ → UInt32} {address : Address}

/-- **A page of a store at rest**: it is the last one and has all that is
left, or it names the cursor of a stored event, and what is left below
that is shorter. -/
theorem page_cases (hm : m.Invariant) {limit : UInt32} (hlimit : 1 ≤ limit)
    {before : Option EventCursor} {l : List Event}
    (hl : Paging.below Event.position (before.map EventCursor.position) (m.listed address) = l) :
    (answer (Paging.page limit.toNat l) = ⟨l, none⟩) ∨
    ∃ events c, answer (Paging.page limit.toNat l) = ⟨events, some c⟩ ∧ m.Knows c ∧
      ∃ rest, Paging.below Event.position ((some c).map EventCursor.position) (m.listed address) =
        rest ∧ rest.length < l.length ∧ events ++ rest = l := by
  have hd := (descending_listed hm address).below (before.map EventCursor.position)
  rw [hl] at hd
  cases hlast : (Paging.page limit.toNat l).2 with
  | none =>
    have hpos := UInt32.le_iff_toNat_le.1 hlimit
    refine Or.inl ?_
    rw [answer, Paging.page_fst_of_snd_eq_none hpos hlast, hlast]
    rfl
  | some a =>
    have ha : a ∈ l := (Paging.page_fst_sublist _ _).subset (Paging.mem_of_page_snd hlast)
    have ha' := ha
    rw [← hl, Paging.mem_below, mem_listed hm] at ha'
    have hrest : Paging.below Event.position ((some (cursorOf a)).map EventCursor.position)
        (m.listed address) = Paging.below Event.position (some a.position) l := by
      rw [← hl]
      exact (Paging.below_below (fun k hk => (ha'.2 k hk).le) _).symm
    refine Or.inr ⟨_, cursorOf a, ?_, hm.knows_cursorOf ha'.1.1, _, hrest,
      Paging.length_below_lt ha, Paging.page_append_below hd hlast⟩
    rw [answer, hlast]
    rfl

/-- **Pagination of a store at rest** comes to an end and returns the
whole listing. -/
theorem follow_eq (hm : m.Invariant) (hlimits : ∀ i, 1 ≤ limits i ∧ limits i ≤ maxEventPageSize)
    (n : ℕ) {before : Option EventCursor} (hbefore : ∀ c ∈ before, m.Knows c)
    (hn : (Paging.below Event.position (before.map EventCursor.position)
      (m.listed address)).length < n) :
    m.follow orders limits address n before =
      .ok (Paging.below Event.position (before.map EventCursor.position) (m.listed address)) := by
  induction n generalizing before with
  | zero => omega
  | succ n ih =>
    have hpage : m.eventsByAddress (orders n) none ⟨address, limits n, before⟩ = _ :=
      eventsByAddress_of_knows hm (hlimits n).2 hbefore
    simp only [follow, hpage, Go.ok_bind]
    generalize hl : Paging.below Event.position (before.map EventCursor.position)
      (m.listed address) = l at hn ⊢
    rcases page_cases hm (hlimits n).1 hl with
      hanswer | ⟨events, c, hanswer, hknows, rest, hrest, hlength, happend⟩
    · rw [hanswer]
      rfl
    · rw [hanswer]
      dsimp only
      rw [ih (fun _ hc => Option.some.inj hc ▸ hknows) (by rw [hrest]; omega), hrest]
      exact congrArg Except.ok happend

end Follow

/-! ## Agreement -/

/-- **The endpoints agree with each other.** A transaction is found by its
hash exactly when a block lists it, and then at one position of one block,
the ones it names. An event listed for an address is among the events of
the transaction it names, and every event of a transaction is returned by
following the cursors on its address, whatever the limits. -/
theorem Reachable.endpoints_agree (hm : m.Reachable) (ord : RangeOrder UInt64 BlockBundle) :
    (∀ hash, (∃ r, m.transactionByHash ord none hash = .ok r) ↔
      ∃ n r, m.blockByNumber none n = .ok r ∧ hash ∈ r.transactionHashes) ∧
    (∀ hash r, m.transactionByHash ord none hash = .ok r →
      (∃ block, m.blockByNumber none r.transaction.blockNumber = .ok block ∧
        block.block.hash = r.transaction.blockHash ∧
        block.transactionHashes[r.transaction.index.toNat]? = some hash ∧
        block.block.transactionCount = block.transactionHashes.length) ∧
      (∀ n block i, m.blockByNumber none n = .ok block → block.transactionHashes[i]? = some hash →
        n = r.transaction.blockNumber ∧ i = r.transaction.index.toNat) ∧
      (r.events.Pairwise fun e e' => e.logIndex < e'.logIndex) ∧
      ∀ e ∈ r.events, ∀ (orders : ℕ → RangeOrder UInt64 BlockBundle) (limits : ℕ → UInt32),
        (∀ i, 1 ≤ limits i ∧ limits i ≤ maxEventPageSize) →
          ∃ pages, ∀ n ≥ pages, ∃ events, m.follow orders limits e.address n none = .ok events ∧
            e ∈ events) ∧
    ∀ ctx order query page, m.eventsByAddress order ctx query = .ok page → ∀ e ∈ page.events,
      ∃ r, m.transactionByHash ord none e.transactionHash = .ok r ∧ e ∈ r.events ∧
        e.transactionIndex = r.transaction.index := by
  have hinv := hm.invariant
  refine ⟨fun hash => ?_, fun hash r hr => ?_, fun ctx order query page hpage e he => ?_⟩
  -- both lookups read the same bundles
  · simp only [transactionByHash_eq_ok_iff hinv, blockByNumber_eq_ok_iff]
    constructor
    · rintro ⟨_, n, b, t, hb, ht, rfl, rfl⟩
      exact ⟨n, _, ⟨b, hb, rfl⟩, List.mem_map_of_mem ht⟩
    · rintro ⟨n, _, ⟨b, hb, rfl⟩, hmem⟩
      obtain ⟨t, ht, rfl⟩ := List.mem_map.1 hmem
      exact ⟨_, n, b, t, hb, ht, rfl, rfl⟩
  · obtain ⟨n, b, t, hb, ht, rfl, rfl⟩ := (transactionByHash_eq_ok_iff hinv).1 hr
    obtain ⟨hget, rfl, hhash⟩ := hinv.transaction_spec hb ht
    refine ⟨⟨_, blockByNumber_eq_ok_iff.2 ⟨b, hb, rfl⟩, hhash.symm, ?_, ?_⟩,
      fun k block i hblock hi => ?_, pairwise_transactionAnswer hinv hb t,
      fun e he orders limits hlimits => ?_⟩
    · exact (List.getElem?_map ..).trans (congrArg (Option.map Transaction.hash) hget)
    · rw [(hinv.canonical.wellFormed hb).count, List.length_map]
    -- a second place of the hash would be a second transaction with it
    · obtain ⟨b', hb', rfl⟩ := blockByNumber_eq_ok_iff.1 hblock
      rw [List.getElem?_map] at hi
      obtain ⟨t', ht', hh⟩ := Option.map_eq_some_iff.1 hi
      obtain ⟨rfl, rfl, rfl⟩ := hinv.eq_of_hash_eq hb hb' ht (List.mem_of_getElem? ht') hh.symm
      obtain ⟨hlt, hget'⟩ := List.getElem?_eq_some_iff.1 ht'
      refine ⟨rfl, ?_⟩
      have hindex := ((hinv.canonical.wellFormed hb).transaction i hlt).1
      rw [hget'] at hindex
      exact hindex.symm
    -- one page more than there are events is always enough
    · obtain ⟨hmem, -⟩ := mem_transactionAnswer.1 he
      refine ⟨(m.listed e.address).length + 1, fun k hk => ⟨m.listed e.address, ?_, ?_⟩⟩
      · have hbelow : Paging.below Event.position (Option.map EventCursor.position none)
            (m.listed e.address) = m.listed e.address := Paging.below_none _
        have hknows : ∀ c ∈ (none : Option EventCursor), m.Knows c := fun _ hc =>
          absurd hc (Option.not_mem_none _)
        rw [follow_eq hinv hlimits k hknows (by rwa [hbelow]), hbelow]
      · exact (mem_listed hinv).2 ⟨⟨_, b, hb, hmem⟩, rfl⟩
  · cases ctx with
    | some err => cases hpage
    | none =>
      obtain ⟨-, -, rfl⟩ := (eventsByAddress_eq_ok_iff hinv).1 hpage
      have hmem := (Paging.mem_below.1 ((Paging.page_fst_sublist _ _).subset he)).1
      exact hinv.transactionByHash_of_holds ((mem_listed hinv).1 hmem).1

/-- Both events of block 7 are found on every side. -/
theorem endpoints_agree_seven : ∃ r, storedSeven.transactionByHash (ascending BlockBundle) none
    (.spelling 70) = .ok r ∧ r.events.length = 2 ∧
      r.events.Pairwise fun e e' => e.logIndex < e'.logIndex := by
  have hreachable : storedSeven.Reachable := .apply _ _ _ .new
  have hfound : storedSeven.transactionByHash (ascending BlockBundle) none (.spelling 70) =
      .ok ⟨twoEvents.transactions[0], twoEvents.events⟩ := by decide +kernel
  exact ⟨_, hfound, rfl,
    ((hreachable.endpoints_agree (ascending BlockBundle)).2.1 _ _ hfound).2.2.1⟩

end Memory

end EthIndexer
