import EthIndexer.Common.Uint
import EthIndexer.Store.Model.Validate
import Mathlib.Tactic.Tauto
/-!
# The canonical window

`Canonical` says what a map of bundles has to be: every bundle well
formed on its own, the numbers one interval, each block naming the one
below, and no transaction in two blocks. `validateCanonicalBundles`
decides it (`validateCanonicalBundles_eq_ok_iff`), whatever the order the
map is visited in. Everything the stores keep rests on this predicate,
and no later file looks inside the loops again.
-/

namespace EthIndexer

/-- **A bundle that agrees with itself.** -/
structure WellFormed (b : BlockBundle) : Prop where
  count : b.block.transactionCount = b.transactions.length
  length_lt : b.transactions.length < 2 ^ 32
  transaction : ∀ (i : ℕ) (h : i < b.transactions.length),
    b.transactions[i].index.toNat = i ∧ b.transactions[i].blockNumber = b.block.number ∧
      b.transactions[i].blockHash = b.block.hash
  hash_nodup : (b.transactions.map Transaction.hash).Nodup
  event : ∀ e ∈ b.events, (∃ t ∈ b.transactions, t.hash = e.transactionHash ∧
    t.index = e.transactionIndex) ∧ e.blockNumber = b.block.number ∧
      e.blockHash = b.block.hash ∧ e.topics.elems.length ≤ 4
  logIndex_nodup : (b.events.map Event.logIndex).Nodup

/-- The count of a well-formed bundle's transactions is no negative
number. -/
theorem WellFormed.count_nonneg {b : BlockBundle} (h : WellFormed b) :
    0 ≤ b.block.transactionCount := by
  rw [h.count]
  exact Int.natCast_nonneg _

/-- **The canonical window**: well-formed bundles at their own numbers,
one interval, one chain, and no transaction twice. -/
structure Canonical (bundles : BundleMap) : Prop where
  number : ∀ {n b}, bundles.get? n = some b → b.block.number = n
  wellFormed : ∀ {n b}, bundles.get? n = some b → WellFormed b
  interval : ∀ {i j n : UInt64}, i ∈ bundles → j ∈ bundles → i ≤ n → n ≤ j → n ∈ bundles
  linked : ∀ {n m b c}, m.toNat = n.toNat + 1 → bundles.get? n = some b →
    bundles.get? m = some c → c.block.parentHash = b.block.hash
  distinct : ∀ {n m b c t u}, bundles.get? n = some b → bundles.get? m = some c →
    t ∈ b.transactions → u ∈ c.transactions → t.hash = u.hash → n = m

theorem Canonical.empty : Canonical ∅ where
  number h := by simp at h
  wellFormed h := by simp at h
  interval h := absurd h Finmap.notMem_empty
  linked _ h := by simp at h
  distinct h := by simp at h

/-- As a window of a hash-linked chain it has no gap. -/
theorem Canonical.connected {B : BundleMap} (h : Canonical B) :
    HashChain.Connected fun n => B.get? n := by
  intro i j k hi hj hik hkj
  exact GoMap.isSome_get?_iff.2 (h.interval (GoMap.isSome_get?_iff.1 hi)
    (GoMap.isSome_get?_iff.1 hj) (UInt64.le_iff_toNat_le.2 hik) (UInt64.le_iff_toNat_le.2 hkj))

/-- A chain is linked, as a window of hashes. -/
theorem Canonical.linkedWindow {B : BundleMap} (h : Canonical B) :
    HashChain.Linked (fun b : BlockBundle => b.block.hash) (fun b => b.block.parentHash)
      fun n => B.get? n := fun _ _ _ _ => h.linked

/-- A block as the tip of a chain. -/
abbrev BlockBundle.chainTip (b : BlockBundle) : ChainTip := ⟨b.block.number, b.block.hash⟩

/-- The highest block of a map. -/
structure IsTip (B : BundleMap) (b : BlockBundle) : Prop where
  get? : B.get? b.block.number = some b
  le : ∀ n ∈ B, n ≤ b.block.number

theorem IsTip.eq {B : BundleMap} {b c : BlockBundle} (hb : IsTip B b) (hc : IsTip B c) : b = c := by
  have hnumber := UInt64.le_antisymm (hc.le _ (GoMap.mem_of_get? hb.get?))
    (hb.le _ (GoMap.mem_of_get? hc.get?))
  exact Option.some.inj (hb.get?.symm.trans (hnumber ▸ hc.get?))

/-! ## The replacement blocks -/

/-- The blocks carry the numbers from `start` on, one after the other. -/
def Consecutive (start : UInt64) (blocks : List BlockBundle) : Prop :=
  ∀ (i : ℕ) (h : i < blocks.length), blocks[i].block.number.toNat = start.toNat + i

theorem consecutive_nil (start : UInt64) : Consecutive start [] :=
  fun i hi => absurd hi (Nat.not_lt_zero i)

theorem consecutive_cons_iff {start : UInt64} {b c : BlockBundle} {rest : List BlockBundle} :
    Consecutive start (b :: c :: rest) ↔
      b.block.number = start ∧ c.block.number.toNat = start.toNat + 1 ∧
        Consecutive c.block.number (c :: rest) := by
  constructor
  · intro h
    have h0 := h 0 (by simp)
    have h1 := h 1 (by simp)
    simp only [List.getElem_cons_zero, List.getElem_cons_succ, Nat.add_zero] at h0 h1
    refine ⟨UInt64.toNat_inj.1 h0, h1, fun i hi => ?_⟩
    have := h (i + 1) (by simpa using hi)
    rw [List.getElem_cons_succ] at this
    omega
  · rintro ⟨h0, h1, h⟩ i hi
    cases i with
    | zero => rw [List.getElem_cons_zero, h0, Nat.add_zero]
    | succ i =>
      rw [List.getElem_cons_succ, h i (by simpa using hi)]
      omega

theorem validateContiguous_eq_ok_iff (b : BlockBundle) (rest : List BlockBundle) :
    validateContiguous b rest = .ok () ↔ Consecutive b.block.number (b :: rest) := by
  induction rest generalizing b with
  | nil =>
    refine ⟨fun _ i hi => ?_, fun _ => rfl⟩
    obtain rfl : i = 0 := by simpa using hi
    rfl
  | cons c rest ih =>
    rw [consecutive_cons_iff, validateContiguous, ← ih c]
    split
    · rename_i hbad
      simp only [reduceCtorEq, true_and, false_iff, not_and]
      rintro hnext -
      rcases hbad with hmax | hne
      · have := c.block.number.toNat_lt
        rw [hmax] at hnext
        simp [maxUint64] at hnext
        omega
      · exact hne ((succ_eq_iff_of_lt (UInt64.lt_iff_toNat_lt.2 (by omega))).2 hnext)
    · rename_i hgood
      simp only [not_or, ne_eq, not_not] at hgood
      have hnext : c.block.number.toNat = b.block.number.toNat + 1 := by
        rw [hgood.2]; exact toNat_succ_of_ne hgood.1
      simp [hnext]

/-- **`validateReplacement` accepts the consecutive runs from
`replaceFrom`.** -/
theorem validateReplacement_eq_ok_iff (update : CanonicalUpdate) :
    validateReplacement update = .ok () ↔ Consecutive update.replaceFrom update.blocks := by
  unfold validateReplacement
  cases hblocks : update.blocks with
  | nil => exact ⟨fun _ i hi => by simp at hi, fun _ => rfl⟩
  | cons b rest =>
    simp only
    split
    · rename_i hne
      refine ⟨fun h => by simp at h, fun h => absurd ?_ hne⟩
      exact UInt64.toNat_inj.1 (h 0 (by simp))
    · rename_i heq
      rw [ne_eq, not_not] at heq
      rw [validateContiguous_eq_ok_iff, heq]

/-! ## One block -/

/-- The transaction loop passes exactly the transactions that sit at their
index in this block and repeat no hash, and returns the sets it has
built. -/
theorem validateTransactions_eq_ok_iff (number : UInt64) (blockHash : Hash)
    (ts : List Transaction) (index : ℕ) (seen : Finset Hash) (positions : GoMap Hash UInt32)
    (r : Finset Hash × GoMap Hash UInt32) :
    validateTransactions number blockHash index seen positions ts = .ok r ↔
      (∀ (i : ℕ) (h : i < ts.length), ts[i].blockNumber = number ∧ ts[i].blockHash = blockHash ∧
        ts[i].index = UInt32.ofNat (index + i)) ∧
      (ts.map Transaction.hash).Nodup ∧ (∀ t ∈ ts, t.hash ∉ seen) ∧
      r = (seen ∪ (ts.map Transaction.hash).toFinset,
        ts.foldl (fun m t => m.set t.hash t.index) positions) := by
  induction ts generalizing index seen positions with
  | nil => simp [validateTransactions, eq_comm]
  | cons t ts ih =>
    -- the checks of the rest count from one index further
    have hhead : (∀ (i : ℕ) (h : i < (t :: ts).length), (t :: ts)[i].blockNumber = number ∧
        (t :: ts)[i].blockHash = blockHash ∧ (t :: ts)[i].index = UInt32.ofNat (index + i)) ↔
        (t.blockNumber = number ∧ t.blockHash = blockHash ∧ t.index = UInt32.ofNat index) ∧
        ∀ (i : ℕ) (h : i < ts.length), ts[i].blockNumber = number ∧ ts[i].blockHash = blockHash ∧
          ts[i].index = UInt32.ofNat (index + 1 + i) := by
      constructor
      · intro h
        refine ⟨h 0 (by simp), fun i hi => ?_⟩
        have := h (i + 1) (by simpa using hi)
        rwa [List.getElem_cons_succ, show index + (i + 1) = index + 1 + i by omega] at this
      · rintro ⟨h0, h⟩ i hi
        cases i with
        | zero => exact h0
        | succ i =>
          rw [List.getElem_cons_succ, show index + (i + 1) = index + 1 + i by omega]
          exact h i (by simpa using hi)
    rw [hhead, validateTransactions]
    split
    · rename_i hbad
      simp only [reduceCtorEq, false_iff]
      tauto
    · rename_i hmeta
      simp only [not_or, ne_eq, not_not] at hmeta
      split
      · rename_i hseen
        simp only [reduceCtorEq, List.mem_cons, false_iff]
        exact fun h => h.2.2.1 t (Or.inl rfl) hseen
      · rename_i hseen
        rw [ih]
        simp only [List.map_cons, List.nodup_cons, List.toFinset_cons, List.foldl_cons,
          List.forall_mem_cons, Finset.mem_insert, not_or, List.mem_map, not_exists, not_and,
          Finset.insert_union, Finset.union_insert]
        constructor
        · rintro ⟨h1, h2, h3, h4⟩
          exact ⟨⟨hmeta, h1⟩, ⟨fun u hu heq => (h3 u hu).1 heq, h2⟩, ⟨hseen, fun u hu => (h3 u hu).2⟩,
            h4⟩
        · rintro ⟨⟨-, h1⟩, ⟨h2, h2'⟩, ⟨-, h3⟩, h4⟩
          exact ⟨h1, h2', fun u hu => ⟨fun heq => h2 u hu heq, h3 u hu⟩, h4⟩

/-- What the positions map answers once every transaction is stored. -/
theorem get?_positions_iff {ts : List Transaction} (hts : (ts.map Transaction.hash).Nodup)
    (h : Hash) (i : UInt32) (positions : GoMap Hash UInt32) :
    (ts.foldl (fun m t => m.set t.hash t.index) positions).get? h = some i ↔
      (∃ t ∈ ts, t.hash = h ∧ t.index = i) ∨
        ((∀ t ∈ ts, t.hash ≠ h) ∧ positions.get? h = some i) := by
  induction ts generalizing positions with
  | nil => simp
  | cons t ts ih =>
    rw [List.map_cons, List.nodup_cons] at hts
    rw [List.foldl_cons, ih hts.2, GoMap.get?_set]
    simp only [List.mem_cons, exists_eq_or_imp, forall_eq_or_imp]
    by_cases hth : h = t.hash
    · rw [if_pos hth]
      have hno : ∀ u ∈ ts, u.hash ≠ h := fun u hu heq =>
        hts.1 (List.mem_map.2 ⟨u, hu, heq.trans hth⟩)
      have hnex : ¬ ∃ u ∈ ts, u.hash = h ∧ u.index = i := by
        rintro ⟨u, hu, heq, -⟩
        exact hno u hu heq
      simp only [hnex, hth.symm, Option.some.injEq, or_false, false_or, ne_eq,
        not_true_eq_false, false_and, true_and]
      exact ⟨fun hi => hi.2, fun hi => ⟨fun u hu => hno u hu, hi⟩⟩
    · rw [if_neg hth]
      have hne : t.hash ≠ h := fun heq => hth heq.symm
      simp only [hne, false_and, false_or, ne_eq, not_false_eq_true, true_and]

/-- The event loop passes exactly the events that name a known position of
this block, have at most four topics and repeat no log index. -/
theorem validateEvents_eq_ok_iff (number : UInt64) (blockHash : Hash)
    (positions : GoMap Hash UInt32) (es : List Event) (seenLogs : Finset UInt32) (u : Unit) :
    validateEvents number blockHash positions seenLogs es = .ok u ↔
      (∀ e ∈ es, positions.get? e.transactionHash = some e.transactionIndex ∧
        e.blockNumber = number ∧ e.blockHash = blockHash ∧ e.topics.elems.length ≤ 4) ∧
      (es.map Event.logIndex).Nodup ∧ ∀ e ∈ es, e.logIndex ∉ seenLogs := by
  induction es generalizing seenLogs with
  | nil => simp [validateEvents]
  | cons e es ih =>
    rw [validateEvents]
    simp only [List.forall_mem_cons, List.map_cons, List.nodup_cons, List.mem_map, not_exists,
      not_and]
    split
    · simp_all
    · rename_i hpos
      rw [ne_eq, not_not] at hpos
      split
      · simp only [reduceCtorEq, false_iff]
        tauto
      · rename_i hmeta
        simp only [not_or, ne_eq, not_not] at hmeta
        split
        · simp only [reduceCtorEq, false_iff]
          rintro ⟨⟨⟨-, -, -, h⟩, -⟩, -⟩
          omega
        · rename_i htopics
          split
          · simp_all
          · rename_i hseen
            rw [ih]
            simp only [Finset.mem_insert, not_or]
            constructor
            · rintro ⟨h1, h2, h3⟩
              exact ⟨⟨⟨hpos, hmeta.1, hmeta.2, by omega⟩, h1⟩,
                ⟨fun u hu heq => (h3 u hu).1 heq, h2⟩, hseen, fun u hu => (h3 u hu).2⟩
            · rintro ⟨⟨-, h1⟩, ⟨h2, h2'⟩, -, h3⟩
              exact ⟨h1, h2', fun u hu => ⟨fun heq => h2 u hu heq, h3 u hu⟩⟩

/-- **One block's checks**: the bundle is well formed, none of its
transactions was seen before, and its hashes are seen from here on. -/
theorem validateBundle_eq_ok_iff (b : BlockBundle) (seen seen' : Finset Hash) :
    validateBundle b.block.number b seen = .ok seen' ↔
      WellFormed b ∧ (∀ t ∈ b.transactions, t.hash ∉ seen) ∧
        seen' = seen ∪ (b.transactions.map Transaction.hash).toFinset := by
  have hpos : (b.transactions.map Transaction.hash).Nodup → ∀ (h : Hash) (i : UInt32),
      (b.transactions.foldl (fun m t => m.set t.hash t.index) (∅ : GoMap Hash UInt32)).get? h =
        some i ↔ ∃ t ∈ b.transactions, t.hash = h ∧ t.index = i := by
    intro hnodup h i
    rw [get?_positions_iff hnodup]
    simp
  simp only [validateBundle, Go.bind_eq_ok_iff, Go.failIf_eq_ok_iff, Go.pure_eq_ok_iff,
    validateTransactions_eq_ok_iff, validateEvents_eq_ok_iff]
  constructor
  · rintro ⟨-, hcount, -, hlen, _, ⟨hmeta, hnodup, hseen, rfl⟩, -, ⟨hevent, hlog, -⟩, rfl⟩
    refine ⟨⟨not_not.1 hcount, by omega, fun i hi => ?_, hnodup, fun e he => ?_, hlog⟩, hseen, rfl⟩
    · refine ⟨?_, (hmeta i hi).1, (hmeta i hi).2.1⟩
      rw [(hmeta i hi).2.2, Nat.zero_add,
        UInt32.toNat_ofNat_of_lt' (by simp only [UInt32.size]; omega)]
    · exact ⟨(hpos hnodup _ _).1 (hevent e he).1, (hevent e he).2⟩
  · rintro ⟨hwf, hseen, rfl⟩
    have hlen := hwf.length_lt
    refine ⟨(), not_not.2 hwf.count, (), by omega, _, ⟨fun i hi => ?_, hwf.hash_nodup, hseen, rfl⟩,
      (), ⟨fun e he => ?_, hwf.logIndex_nodup, by simp⟩, rfl⟩
    · refine ⟨(hwf.transaction i hi).2.1, (hwf.transaction i hi).2.2, ?_⟩
      rw [Nat.zero_add, ← UInt32.toNat_inj, (hwf.transaction i hi).1,
        UInt32.toNat_ofNat_of_lt' (by simp only [UInt32.size]; omega)]
    · exact ⟨(hpos hwf.hash_nodup _ _).2 (hwf.event e he).1, (hwf.event e he).2⟩

/-! ## The whole map -/

theorem validateLink_eq_ok_iff (previous : Option Block) (number : UInt64) (block : Block) (u : Unit) :
    validateLink previous number block = .ok u ↔
      ∀ p ∈ previous, number = p.number + 1 ∧ block.parentHash = p.hash := by
  cases previous with
  | none => simp [validateLink]
  | some p =>
    simp only [validateLink, Go.failIf_eq_ok_iff, Option.mem_some_iff, forall_eq', not_or, ne_eq,
      not_not]

/-- Each number follows the block before it, by number and by hash. -/
def LinksFrom (bundles : BundleMap) : Option Block → List UInt64 → Prop
  | _, [] => True
  | previous, n :: rest =>
    (∀ p ∈ previous, n = p.number + 1 ∧ (bundles.get n).block.parentHash = p.hash) ∧
      LinksFrom bundles (some (bundles.get n).block) rest

/-- The transaction hashes of a run of numbers, in order. -/
def hashesOf (bundles : BundleMap) (numbers : List UInt64) : List Hash :=
  numbers.flatMap fun n => (bundles.get n).transactions.map Transaction.hash

/-- The outer loop passes exactly the runs of well-formed, linked bundles
in which no transaction hash comes twice. -/
theorem validateNumbers_eq_ok_iff (bundles : BundleMap) (numbers : List UInt64)
    (previous : Option Block) (seen : Finset Hash) (u : Unit) :
    validateNumbers bundles previous seen numbers = .ok u ↔
      (∀ n ∈ numbers, (bundles.get n).block.number = n ∧ WellFormed (bundles.get n)) ∧
      LinksFrom bundles previous numbers ∧ (hashesOf bundles numbers).Nodup ∧
      ∀ h ∈ hashesOf bundles numbers, h ∉ seen := by
  induction numbers generalizing previous seen with
  | nil => simp [validateNumbers, LinksFrom, hashesOf]
  | cons n rest ih =>
    have hcons : hashesOf bundles (n :: rest) =
        (bundles.get n).transactions.map Transaction.hash ++ hashesOf bundles rest :=
      List.flatMap_cons
    have hbundle : ∀ seen', (bundles.get n).block.number = n →
        (validateBundle n (bundles.get n) seen = .ok seen' ↔ WellFormed (bundles.get n) ∧
          (∀ t ∈ (bundles.get n).transactions, t.hash ∉ seen) ∧ seen' = seen ∪
            ((bundles.get n).transactions.map Transaction.hash).toFinset) := by
      intro seen' hnum
      have := validateBundle_eq_ok_iff (bundles.get n) seen seen'
      rwa [hnum] at this
    simp only [validateNumbers, Go.bind_eq_ok_iff, Go.failIf_eq_ok_iff, validateLink_eq_ok_iff,
      ih, hcons, List.forall_mem_cons, LinksFrom, List.nodup_append, List.mem_append,
      List.mem_map]
    constructor
    · rintro ⟨-, hnum, -, hlink, seen', hok, hrest, hlinks, hnodup, hfresh⟩
      rw [not_not] at hnum
      obtain ⟨hwf, hseen, rfl⟩ := (hbundle seen' hnum).1 hok
      refine ⟨⟨⟨hnum, hwf⟩, hrest⟩, ⟨hlink, hlinks⟩, ⟨hwf.hash_nodup, hnodup, ?_⟩, ?_⟩
      · rintro h ⟨t, ht, rfl⟩ h' hh' rfl
        exact hfresh _ hh' (Finset.mem_union_right _ (by simpa using ⟨t, ht, rfl⟩))
      · rintro h (⟨t, ht, rfl⟩ | hh)
        · exact hseen t ht
        · exact fun hs => hfresh h hh (Finset.mem_union_left _ hs)
    · rintro ⟨⟨⟨hnum, hwf⟩, hrest⟩, ⟨hlink, hlinks⟩, ⟨-, hnodup, hdisj⟩, hfresh⟩
      refine ⟨(), not_not.2 hnum, (), hlink, _, (hbundle _ hnum).2
        ⟨hwf, fun t ht => hfresh _ (Or.inl ⟨t, ht, rfl⟩), rfl⟩, hrest, hlinks, hnodup, ?_⟩
      intro h hh hs
      rcases Finset.mem_union.1 hs with hs | hs
      · exact hfresh h (Or.inr hh) hs
      · exact hdisj h (by simpa using hs) h hh rfl

section Sorted

variable (ord : RangeOrder UInt64 BlockBundle) (bundles : BundleMap)

/-- The numbers that are checked are the stored ones. -/
theorem mem_sortedBlockNumbers (n : UInt64) : n ∈ sortedBlockNumbers ord bundles ↔ n ∈ bundles := by
  rw [sortedBlockNumbers, mem_sortSlice, ord.mem_keys]

theorem pairwise_sortedBlockNumbers :
    (sortedBlockNumbers ord bundles).Pairwise fun a b => a.toNat < b.toNat :=
  pairwise_lt_sortSlice comparesBy_uint64
    ((ord.nodup bundles).map fun _ _ h => UInt64.toNat_inj.1 h)

end Sorted

section Links

variable {bundles : BundleMap}

/-- A linked run above `p` leaves no number out. -/
theorem LinksFrom.mem_of_le {numbers : List UInt64} {p : Block}
    (hnum : ∀ n ∈ numbers, (bundles.get n).block.number = n)
    (h : LinksFrom bundles (some p) numbers)
    (hsorted : (p.number :: numbers).Pairwise fun a b => a.toNat < b.toNat)
    {j n : UInt64} (hj : j ∈ numbers) (hn : p.number.toNat < n.toNat) (hnj : n.toNat ≤ j.toNat) :
    n ∈ numbers := by
  induction numbers generalizing p with
  | nil => exact absurd hj List.not_mem_nil
  | cons a rest ih =>
    obtain ⟨hp, hrest⟩ := h
    have hpa : p.number.toNat < a.toNat := (List.pairwise_cons.1 hsorted).1 a List.mem_cons_self
    have ha : a.toNat = p.number.toNat + 1 :=
      (succ_eq_iff_of_lt (UInt64.lt_iff_toNat_lt.2 hpa)).1 (hp p rfl).1
    have hnuma : (bundles.get a).block.number = a := hnum a List.mem_cons_self
    rcases Nat.eq_or_lt_of_le (show a.toNat ≤ n.toNat by omega) with heq | hlt
    · rw [UInt64.toNat_inj.1 heq]
      exact List.mem_cons_self
    · rcases List.mem_cons.1 hj with rfl | hj
      · omega
      · refine List.mem_cons_of_mem _ (ih (fun m hm => hnum m (List.mem_cons_of_mem _ hm)) hrest ?_ hj
          (by rw [hnuma]; exact hlt))
        rw [hnuma]
        exact (List.pairwise_cons.1 hsorted).2

/-- And two neighbours of it are linked by hash. -/
theorem LinksFrom.parentHash_eq {numbers : List UInt64} {p : Block}
    (hnum : ∀ n ∈ numbers, (bundles.get n).block.number = n)
    (hp : (bundles.get p.number).block = p) (h : LinksFrom bundles (some p) numbers)
    (hsorted : (p.number :: numbers).Pairwise fun a b => a.toNat < b.toNat)
    {n m : UInt64} (hn : n ∈ p.number :: numbers) (hm : m ∈ numbers)
    (hnm : m.toNat = n.toNat + 1) :
    (bundles.get m).block.parentHash = (bundles.get n).block.hash := by
  induction numbers generalizing p with
  | nil => exact absurd hm List.not_mem_nil
  | cons a rest ih =>
    obtain ⟨hlink, hrest⟩ := h
    have hpa : p.number.toNat < a.toNat := (List.pairwise_cons.1 hsorted).1 a List.mem_cons_self
    have ha : a.toNat = p.number.toNat + 1 :=
      (succ_eq_iff_of_lt (UInt64.lt_iff_toNat_lt.2 hpa)).1 (hlink p rfl).1
    have hnuma : (bundles.get a).block.number = a := hnum a List.mem_cons_self
    have htail := (List.pairwise_cons.1 hsorted).2
    rcases List.mem_cons.1 hn with rfl | hn
    · obtain rfl : m = a := UInt64.toNat_inj.1 (by omega)
      rw [hp]
      exact (hlink p rfl).2
    · have hma : m ∈ rest := by
        rcases List.mem_cons.1 hm with rfl | hm
        · rcases List.mem_cons.1 hn with rfl | hn
          · omega
          · have := (List.pairwise_cons.1 htail).1 n hn
            omega
        · exact hm
      refine ih (fun k hk => hnum k (List.mem_cons_of_mem _ hk)) (by rw [hnuma]) hrest ?_ ?_ hma
      · rw [hnuma]; exact htail
      · rw [hnuma]; exact hn

/-- Conversely the numbers of one linked interval above `p` are a linked
run. -/
theorem Canonical.linksFrom (hc : Canonical bundles) {numbers : List UInt64} {p : BlockBundle}
    (hp : bundles.get? p.block.number = some p)
    (hsorted : (p.block.number :: numbers).Pairwise fun a b => a.toNat < b.toNat)
    (hmem : ∀ n ∈ numbers, n ∈ bundles)
    (hall : ∀ n ∈ bundles, p.block.number.toNat < n.toNat → n ∈ numbers) :
    LinksFrom bundles (some p.block) numbers := by
  induction numbers generalizing p with
  | nil => trivial
  | cons a rest ih =>
    obtain ⟨hlt, htail⟩ := List.pairwise_cons.1 hsorted
    have hpa : p.block.number.toNat < a.toNat := hlt a List.mem_cons_self
    obtain ⟨b, hb⟩ := GoMap.mem_iff_get?.1 (hmem a List.mem_cons_self)
    have hget : bundles.get a = b := GoMap.get_of_get? hb
    have hnumb : b.block.number = a := hc.number hb
    -- the successor of `p` is in the interval, and `a` is the least above `p`
    have hsucc := toNat_succ_of_lt (UInt64.lt_iff_toNat_lt.2 hpa)
    have hin : p.block.number + 1 ∈ bundles :=
      hc.interval (GoMap.mem_of_get? hp) (GoMap.mem_of_get? hb)
        (UInt64.le_iff_toNat_le.2 (by omega)) (UInt64.le_iff_toNat_le.2 (by omega))
    have ha : a.toNat = p.block.number.toNat + 1 := by
      rcases List.mem_cons.1 (hall _ hin (by omega)) with heq | hrest
      · rw [← heq]; exact hsucc
      · have := (List.pairwise_cons.1 htail).1 _ hrest
        omega
    refine ⟨?_, ?_⟩
    · rintro _ ⟨⟩
      exact ⟨(succ_eq_iff_of_lt (UInt64.lt_iff_toNat_lt.2 hpa)).2 ha,
        by rw [hget]; exact hc.linked ha hp hb⟩
    · rw [hget]
      refine ih (by rw [hnumb]; exact hb) (by rw [hnumb]; exact htail)
        (fun n hn => hmem n (List.mem_cons_of_mem _ hn)) fun n hn hlt' => ?_
      rw [hnumb] at hlt'
      rcases List.mem_cons.1 (hall n hn (by omega)) with rfl | hrest
      · omega
      · exact hrest

section Run

variable {numbers : List UInt64}

/-- A linked run of all numbers of the map is one interval. -/
theorem LinksFrom.interval (h : LinksFrom bundles none numbers)
    (hsorted : numbers.Pairwise fun a b => a.toNat < b.toNat)
    (hmem : ∀ n, n ∈ numbers ↔ n ∈ bundles)
    (hnum : ∀ n ∈ numbers, (bundles.get n).block.number = n) {i j n : UInt64} (hi : i ∈ bundles)
    (hj : j ∈ bundles) (hin : i ≤ n) (hnj : n ≤ j) : n ∈ bundles := by
  rw [← hmem] at hi hj ⊢
  rw [UInt64.le_iff_toNat_le] at hin hnj
  cases numbers with
  | nil => exact absurd hi List.not_mem_nil
  | cons a rest =>
    obtain ⟨hnuma, hnumrest⟩ := List.forall_mem_cons.1 hnum
    obtain ⟨hlt, -⟩ := List.pairwise_cons.1 hsorted
    have hle : ∀ k ∈ a :: rest, a.toNat ≤ k.toNat :=
      List.forall_mem_cons.2 ⟨le_rfl, fun k hk => (hlt k hk).le⟩
    -- `n` is where the run starts, or above, and `j` is above too
    rcases Nat.eq_or_lt_of_le ((hle i hi).trans hin) with heq | hlt'
    · rw [UInt64.toNat_inj.1 heq.symm]
      exact List.mem_cons_self
    · rcases List.mem_cons.1 hj with rfl | hj
      · omega
      · exact List.mem_cons_of_mem _ (LinksFrom.mem_of_le hnumrest h.2 (by rw [hnuma]; exact hsorted)
          hj (by rw [hnuma]; exact hlt') hnj)

/-- And each block of it names the one below. -/
theorem LinksFrom.linked (h : LinksFrom bundles none numbers)
    (hsorted : numbers.Pairwise fun a b => a.toNat < b.toNat)
    (hnum : ∀ n ∈ numbers, (bundles.get n).block.number = n) {n m : UInt64} (hn : n ∈ numbers)
    (hm : m ∈ numbers) (hnm : m.toNat = n.toNat + 1) :
    (bundles.get m).block.parentHash = (bundles.get n).block.hash := by
  cases numbers with
  | nil => exact absurd hn List.not_mem_nil
  | cons a rest =>
    obtain ⟨hnuma, hnumrest⟩ := List.forall_mem_cons.1 hnum
    obtain ⟨hlt, -⟩ := List.pairwise_cons.1 hsorted
    have hle : ∀ k ∈ a :: rest, a.toNat ≤ k.toNat :=
      List.forall_mem_cons.2 ⟨le_rfl, fun k hk => (hlt k hk).le⟩
    have hmrest : m ∈ rest := by
      rcases List.mem_cons.1 hm with rfl | hm
      · have := hle n hn
        omega
      · exact hm
    exact LinksFrom.parentHash_eq hnumrest (by rw [hnuma]) h.2 (by rw [hnuma]; exact hsorted)
      (by rw [hnuma]; exact hn) hmrest hnm

/-- Conversely the numbers of a canonical window are a linked run. -/
theorem Canonical.linksFrom_none (hc : Canonical bundles)
    (hsorted : numbers.Pairwise fun a b => a.toNat < b.toNat)
    (hmem : ∀ n, n ∈ numbers ↔ n ∈ bundles) : LinksFrom bundles none numbers := by
  cases numbers with
  | nil => trivial
  | cons a rest =>
    obtain ⟨b, hb⟩ := GoMap.mem_iff_get?.1 ((hmem a).1 List.mem_cons_self)
    have hnumb := hc.number hb
    refine ⟨fun _ h => (by cases h), ?_⟩
    rw [GoMap.get_of_get? hb]
    refine hc.linksFrom (by rw [hnumb]; exact hb) (by rw [hnumb]; exact hsorted)
      (fun n hn => (hmem n).1 (List.mem_cons_of_mem _ hn)) fun n hn hlt => ?_
    rcases List.mem_cons.1 ((hmem n).2 hn) with rfl | hrest
    · rw [hnumb] at hlt
      omega
    · exact hrest

end Run

end Links

/-- The hashes of a run repeat nothing exactly when no block repeats one
of its own and no two blocks share one. -/
theorem hashesOf_nodup_iff (bundles : BundleMap) {numbers : List UInt64} (hnodup : numbers.Nodup) :
    (hashesOf bundles numbers).Nodup ↔
      (∀ n ∈ numbers, ((bundles.get n).transactions.map Transaction.hash).Nodup) ∧
      ∀ n ∈ numbers, ∀ m ∈ numbers, ∀ t ∈ (bundles.get n).transactions,
        ∀ u ∈ (bundles.get m).transactions, t.hash = u.hash → n = m := by
  rw [hashesOf, List.nodup_flatMap]
  refine and_congr Iff.rfl ⟨fun h n hn m hm t ht u hu htu => ?_, fun h => ?_⟩
  · by_contra hne
    have hsymm : Std.Symm (Function.onFun List.Disjoint fun n =>
        (bundles.get n).transactions.map Transaction.hash) := ⟨fun _ _ hd => hd.symm⟩
    exact h.forall hn hm hne (List.mem_map_of_mem ht) (by rw [htu]; exact List.mem_map_of_mem hu)
  · refine hnodup.imp_of_mem fun {n m} hn hm hne => ?_
    intro x hx hx'
    obtain ⟨t, ht, rfl⟩ := List.mem_map.1 hx
    obtain ⟨u, hu, hut⟩ := List.mem_map.1 hx'
    exact hne (h n hn m hm t ht u hu hut.symm)

/-- **The check decides the predicate**, in every order of the map. -/
theorem validateCanonicalBundles_eq_ok_iff (ord : RangeOrder UInt64 BlockBundle)
    (bundles : BundleMap) (u : Unit) :
    validateCanonicalBundles ord bundles = .ok u ↔ Canonical bundles := by
  have hsorted := pairwise_sortedBlockNumbers ord bundles
  have hmem := mem_sortedBlockNumbers ord bundles
  have hnodup : (sortedBlockNumbers ord bundles).Nodup :=
    hsorted.imp fun hab heq => by rw [heq] at hab; omega
  rw [validateCanonicalBundles, validateNumbers_eq_ok_iff, hashesOf_nodup_iff bundles hnodup]
  constructor
  · rintro ⟨hwf, hlinks, ⟨-, hdisj⟩, -⟩
    have hget : ∀ {n b}, bundles.get? n = some b →
        n ∈ sortedBlockNumbers ord bundles ∧ bundles.get n = b := fun hb =>
      ⟨(hmem _).2 (GoMap.mem_of_get? hb), GoMap.get_of_get? hb⟩
    have hnum := fun n hn => (hwf n hn).1
    refine ⟨fun hb => ?_, fun hb => ?_, fun hi hj => hlinks.interval hsorted hmem hnum hi hj,
      fun {n m b c} hnm hb hc => ?_, fun {n m b c t v} hb hc ht hv htv => ?_⟩
    · rw [← (hget hb).2]
      exact hnum _ (hget hb).1
    · rw [← (hget hb).2]
      exact (hwf _ (hget hb).1).2
    · have hlinked := hlinks.linked hsorted hnum (hget hb).1 (hget hc).1 hnm
      rwa [(hget hb).2, (hget hc).2] at hlinked
    · exact hdisj n (hget hb).1 m (hget hc).1 t (by rw [(hget hb).2]; exact ht) v
        (by rw [(hget hc).2]; exact hv) htv
  · intro hc
    have hget : ∀ n ∈ sortedBlockNumbers ord bundles, ∃ b, bundles.get? n = some b ∧
        bundles.get n = b := fun n hn => by
      obtain ⟨b, hb⟩ := GoMap.mem_iff_get?.1 ((hmem n).1 hn)
      exact ⟨b, hb, GoMap.get_of_get? hb⟩
    refine ⟨fun n hn => ?_, hc.linksFrom_none hsorted hmem,
      ⟨fun n hn => ?_, fun n hn m hm t ht v hv htv => ?_⟩, by simp⟩
    · obtain ⟨b, hb, hgb⟩ := hget n hn
      rw [hgb]
      exact ⟨hc.number hb, hc.wellFormed hb⟩
    · obtain ⟨b, hb, hgb⟩ := hget n hn
      rw [hgb]
      exact (hc.wellFormed hb).hash_nodup
    · obtain ⟨b, hb, hgb⟩ := hget n hn
      obtain ⟨c, hc', hgc⟩ := hget m hm
      rw [hgb] at ht
      rw [hgc] at hv
      exact hc.distinct hb hc' ht hv htv

/-! ## Position by position -/

/-- The key is at one position only. -/
theorem nodup_map_iff_getElem? {α β : Type} {f : α → β} {l : List α} :
    (l.map f).Nodup ↔ ∀ (i j : ℕ) (a b : α), l[i]? = some a → l[j]? = some b → f a = f b →
      i = j := by
  constructor
  · intro h i j a b ha hb hab
    obtain ⟨hi, rfl⟩ := List.getElem?_eq_some_iff.1 ha
    obtain ⟨hj, rfl⟩ := List.getElem?_eq_some_iff.1 hb
    have hi' : i < (l.map f).length := by rwa [List.length_map]
    have hj' : j < (l.map f).length := by rwa [List.length_map]
    have hij : (l.map f)[i] = (l.map f)[j] := by simpa using hab
    exact h.getElem_inj_iff.1 hij
  · intro h
    refine List.nodup_iff_injective_getElem.2 fun ⟨i, hi⟩ ⟨j, hj⟩ hij => Fin.ext ?_
    rw [List.length_map] at hi hj
    exact h i j _ _ (List.getElem?_eq_getElem hi) (List.getElem?_eq_getElem hj)
      (by simpa using hij)

/-- **The validator decides the canonical window**, spelled out over the
positions of transactions and events. -/
theorem validateCanonicalBundles_decides (ord : RangeOrder UInt64 BlockBundle)
    (bundles : BundleMap) :
    validateCanonicalBundles ord bundles = .ok () ↔
      -- every bundle is at its number, and the numbers have no gap
      (∀ n b, bundles.get? n = some b → b.block.number = n) ∧
      (∀ i j n : UInt64, i ∈ bundles → j ∈ bundles → i ≤ n → n ≤ j → n ∈ bundles) ∧
      -- every block names the one below
      (∀ n m b c, m.toNat = n.toNat + 1 → bundles.get? n = some b → bundles.get? m = some c →
        c.block.parentHash = b.block.hash) ∧
      -- the transactions are counted, numbered and those of the block
      (∀ n b, bundles.get? n = some b → b.block.transactionCount = b.transactions.length ∧
        b.transactions.length < 2 ^ 32 ∧
        ∀ (i : ℕ) t, b.transactions[i]? = some t → t.index.toNat = i ∧
          t.blockNumber = b.block.number ∧ t.blockHash = b.block.hash) ∧
      -- no transaction is at two positions of the map
      (∀ n m b c (i j : ℕ) t u, bundles.get? n = some b → bundles.get? m = some c →
        b.transactions[i]? = some t → c.transactions[j]? = some u → t.hash = u.hash →
          n = m ∧ i = j) ∧
      -- the events are those of the block and of its transactions
      (∀ n b, bundles.get? n = some b → ∀ e ∈ b.events,
        (∃ t ∈ b.transactions, t.hash = e.transactionHash ∧ t.index = e.transactionIndex) ∧
        e.blockNumber = b.block.number ∧ e.blockHash = b.block.hash ∧
        e.topics.elems.length ≤ 4) ∧
      (∀ n b, bundles.get? n = some b → ∀ (i j : ℕ) d e, b.events[i]? = some d →
        b.events[j]? = some e → d.logIndex = e.logIndex → i = j) := by
  rw [validateCanonicalBundles_eq_ok_iff]
  constructor
  · intro h
    refine ⟨fun _ _ => h.number, fun _ _ _ => h.interval, fun _ _ _ _ => h.linked,
      fun n b hb => ?_, fun n m b c i j t u hb hc ht hu htu => ?_,
      fun n b hb => (h.wellFormed hb).event,
      fun n b hb => nodup_map_iff_getElem?.1 (h.wellFormed hb).logIndex_nodup⟩
    · have hwf := h.wellFormed hb
      refine ⟨hwf.count, hwf.length_lt, fun i t ht => ?_⟩
      obtain ⟨hi, rfl⟩ := List.getElem?_eq_some_iff.1 ht
      exact hwf.transaction i hi
    · obtain rfl := h.distinct hb hc (List.mem_of_getElem? ht) (List.mem_of_getElem? hu) htu
      cases hb.symm.trans hc
      exact ⟨rfl, nodup_map_iff_getElem?.1 (h.wellFormed hb).hash_nodup i j t u ht hu htu⟩
  · rintro ⟨hnumber, hinterval, hlinked, htransactions, hdistinct, hevents, hlogs⟩
    refine ⟨hnumber _ _, fun {n b} hb => ?_, hinterval _ _ _, hlinked _ _ _ _,
      fun {n m b c t u} hb hc ht hu htu => ?_⟩
    · obtain ⟨hcount, hlength, htransaction⟩ := htransactions n b hb
      refine ⟨hcount, hlength, fun i hi => htransaction i _ (List.getElem?_eq_getElem hi), ?_,
        hevents n b hb, nodup_map_iff_getElem?.2 (hlogs n b hb)⟩
      exact nodup_map_iff_getElem?.2 fun i j t u ht hu htu =>
        (hdistinct n n b b i j t u hb hb ht hu htu).2
    · obtain ⟨i, hi⟩ := List.mem_iff_getElem?.1 ht
      obtain ⟨j, hj⟩ := List.mem_iff_getElem?.1 hu
      exact (hdistinct n m b c i j t u hb hc hi hj htu).1

/-! ## How a check fails

Every check of the two validators answers with the same sentinel. -/

section Failures

open Go

/-- A range that makes no sense is an invalid update. -/
theorem failsWith_validateReplacement (update : CanonicalUpdate) :
    FailsWith .invalidCanonicalUpdate (validateReplacement update) := by
  have hloop : ∀ (rest : List BlockBundle) (b : BlockBundle),
      FailsWith .invalidCanonicalUpdate (validateContiguous b rest) := by
    intro rest
    induction rest with
    | nil => exact fun _ => failsAs_ok ()
    | cons c rest ih =>
      intro b
      unfold validateContiguous
      split
      · exact failsWith_because _
      · exact ih c
  unfold validateReplacement
  split
  · exact failsAs_ok ()
  · split
    · exact failsWith_because _
    · exact hloop _ _

theorem failsWith_validateTransactions (number : UInt64) (blockHash : Hash) (index : ℕ)
    (seen : Finset Hash) (positions : GoMap Hash UInt32) (transactions : List Transaction) :
    FailsWith .invalidCanonicalUpdate
      (validateTransactions number blockHash index seen positions transactions) := by
  induction transactions generalizing index seen positions with
  | nil => exact failsAs_ok _
  | cons t rest ih =>
    unfold validateTransactions
    split
    · exact failsWith_because _
    · split
      · exact failsWith_because _
      · exact ih _ _ _

theorem failsWith_validateEvents (number : UInt64) (blockHash : Hash)
    (positions : GoMap Hash UInt32) (seenLogs : Finset UInt32) (events : List Event) :
    FailsWith .invalidCanonicalUpdate
      (validateEvents number blockHash positions seenLogs events) := by
  induction events generalizing seenLogs with
  | nil => exact failsAs_ok _
  | cons e rest ih =>
    unfold validateEvents
    repeat' split
    all_goals first | exact failsWith_because _ | exact ih _

theorem failsWith_validateBundle (number : UInt64) (bundle : BlockBundle) (seen : Finset Hash) :
    FailsWith .invalidCanonicalUpdate (validateBundle number bundle seen) :=
  (failsWith_failIf _ _).bind fun _ => (failsWith_failIf _ _).bind fun _ =>
    (failsWith_validateTransactions _ _ _ _ _ _).bind fun _ =>
      (failsWith_validateEvents _ _ _ _ _).bind fun _ => failsAs_ok _

/-- **Everything that the check refuses is an invalid update.** -/
theorem failsWith_validateCanonicalBundles (ord : RangeOrder UInt64 BlockBundle)
    (bundles : BundleMap) :
    FailsWith .invalidCanonicalUpdate (validateCanonicalBundles ord bundles) := by
  have hloop : ∀ (numbers : List UInt64) (previous : Option Block) (seen : Finset Hash),
      FailsWith .invalidCanonicalUpdate (validateNumbers bundles previous seen numbers) := by
    intro numbers
    induction numbers with
    | nil => exact fun _ _ => failsAs_ok ()
    | cons number rest ih =>
      intro previous seen
      refine (failsWith_failIf _ _).bind fun _ => FailsAs.bind ?_ fun _ =>
        (failsWith_validateBundle _ _ _).bind fun _ => ih _ _
      cases previous with
      | none => exact failsAs_ok ()
      | some previous => exact failsWith_failIf _ _
  exact hloop _ _ _

end Failures

end EthIndexer
