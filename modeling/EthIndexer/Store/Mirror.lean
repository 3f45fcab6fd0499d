import EthIndexer.Store.Inserts
import EthIndexer.Store.Update
/-!
# Tables that mirror a map

The tables hold the rows of a map of bundles when each row of the map is
there once and nothing else is (`Mirrors`). A map can be held like that
when its records fit, its bundles are well formed, and no block hash and
no transaction hash comes twice (`Storable`). Deleting a range mirrors
the deletion in the map (`Mirrors.deleteCanonicalRange`), and inserting
the bundles of new heights succeeds exactly when the map with them is
still storable (`foldlM_flatMap_bundleStatements_iff`).
-/

namespace EthIndexer

open Go

/-! ## Maps the tables can hold -/

/-- **A map of bundles the constraints allow.** -/
structure Storable (B : BundleMap) : Prop where
  number : ∀ {n b}, B.get? n = some b → b.block.number = n
  wellFormed : ∀ {n b}, B.get? n = some b → WellFormed b
  fits : ∀ {n b}, B.get? n = some b → b.Fits
  nonNil : ∀ {n b}, B.get? n = some b → b.NonNil
  hash : ∀ {n m b c}, B.get? n = some b → B.get? m = some c → b.block.hash = c.block.hash → n = m
  distinct : ∀ {n m b c t v}, B.get? n = some b → B.get? m = some c → t ∈ b.transactions →
    v ∈ c.transactions → t.hash = v.hash → n = m

/-- The empty window can be stored. -/
theorem Storable.empty : Storable ∅ := by
  constructor <;> intros <;> simp_all

/-- A part of it can be held as well. -/
theorem Storable.mono {B B' : BundleMap} (h : Storable B')
    (hsub : ∀ n b, B.get? n = some b → B'.get? n = some b) : Storable B where
  number hb := h.number (hsub _ _ hb)
  wellFormed hb := h.wellFormed (hsub _ _ hb)
  fits hb := h.fits (hsub _ _ hb)
  nonNil hb := h.nonNil (hsub _ _ hb)
  hash hb hc := h.hash (hsub _ _ hb) (hsub _ _ hc)
  distinct hb hc := h.distinct (hsub _ _ hb) (hsub _ _ hc)

section Insertable

variable {B : BundleMap} {b : BlockBundle}

theorem get?_set_eq_some_iff (hn : B.get? b.block.number = none) {m : UInt64} {c : BlockBundle} :
    (B.set b.block.number b).get? m = some c ↔
      (m = b.block.number ∧ c = b) ∨ B.get? m = some c := by
  rw [GoMap.get?_set]
  by_cases hm : m = b.block.number
  · subst hm
    simp [hn, eq_comm]
  · simp [hm]

/-- **A bundle of a new height that can be added.** -/
structure Insertable (B : BundleMap) (b : BlockBundle) : Prop where
  nonNil : b.NonNil
  hash : ∀ m c, B.get? m = some c → c.block.hash ≠ b.block.hash
  distinct : ∀ m c, B.get? m = some c → ∀ t ∈ b.transactions, ∀ v ∈ c.transactions, v.hash ≠ t.hash

/-- **When one more block can be stored.** -/
theorem storable_set_iff (hB : Storable B) (hn : B.get? b.block.number = none)
    (hwf : WellFormed b) (hfits : b.Fits) :
    Storable (B.set b.block.number b) ↔ Insertable B b := by
  have hget := fun {m c} => get?_set_eq_some_iff (m := m) (c := c) hn
  have hne : ∀ m c, B.get? m = some c → m ≠ b.block.number := by
    rintro m c hc rfl
    rw [hn] at hc
    cases hc
  constructor
  · intro h
    have hb := hget.2 (Or.inl ⟨rfl, rfl⟩)
    exact ⟨h.nonNil hb, fun m c hc heq => hne m c hc (h.hash (hget.2 (Or.inr hc)) hb heq),
      fun m c hc t ht v hv heq => hne m c hc (h.distinct (hget.2 (Or.inr hc)) hb hv ht heq)⟩
  · intro h
    refine ⟨fun hb => ?_, fun hb => ?_, fun hb => ?_, fun hb => ?_, fun hb hc heq => ?_,
      fun hb hc ht hv heq => ?_⟩
    · rcases hget.1 hb with ⟨rfl, rfl⟩ | hb
      · rfl
      · exact hB.number hb
    · rcases hget.1 hb with ⟨rfl, rfl⟩ | hb
      · exact hwf
      · exact hB.wellFormed hb
    · rcases hget.1 hb with ⟨rfl, rfl⟩ | hb
      · exact hfits
      · exact hB.fits hb
    · rcases hget.1 hb with ⟨rfl, rfl⟩ | hb
      · exact h.nonNil
      · exact hB.nonNil hb
    · rcases hget.1 hb with ⟨rfl, rfl⟩ | hb' <;> rcases hget.1 hc with ⟨rfl, rfl⟩ | hc'
      · rfl
      · exact absurd heq.symm (h.hash _ _ hc')
      · exact absurd heq (h.hash _ _ hb')
      · exact hB.hash hb' hc' heq
    · rcases hget.1 hb with ⟨rfl, rfl⟩ | hb' <;> rcases hget.1 hc with ⟨rfl, rfl⟩ | hc'
      · rfl
      · exact absurd heq.symm (h.distinct _ _ hc' _ ht _ hv)
      · exact absurd heq (h.distinct _ _ hb' _ hv _ ht)
      · exact hB.distinct hb' hc' ht hv heq

end Insertable

/-! ## The mirror -/

/-- Some bundle of the map has it. -/
def BundleMap.Has (B : BundleMap) (P : BlockBundle → Prop) : Prop := ∃ n b, B.get? n = some b ∧ P b

/-- **The tables hold the rows of the map**, each once. -/
structure Mirrors (T : Tables) (B : BundleMap) : Prop where
  storable : Storable B
  blocks : Lists T.blocks fun r => B.Has fun b => b.block.row = r
  transactions : Lists T.transactions fun r => B.Has fun b => ∃ t ∈ b.transactions, t.row = r
  eventLogs : Lists T.eventLogs fun r => B.Has fun b => ∃ e ∈ b.events, e.row = r

theorem mirrors_empty : Mirrors Tables.empty ∅ := by
  refine ⟨Storable.empty, Lists.nil.congr ?_, Lists.nil.congr ?_, Lists.nil.congr ?_⟩ <;>
    simp [BundleMap.Has]

theorem has_set_iff {B : BundleMap} {b : BlockBundle} (hn : B.get? b.block.number = none)
    {P : BlockBundle → Prop} : BundleMap.Has (B.set b.block.number b) P ↔ B.Has P ∨ P b := by
  simp only [BundleMap.Has, get?_set_eq_some_iff hn]
  constructor
  · rintro ⟨n, c, ⟨rfl, rfl⟩ | hc, h⟩
    · exact Or.inr h
    · exact Or.inl ⟨n, c, hc, h⟩
  · rintro (⟨n, c, hc, h⟩ | h)
    · exact ⟨n, c, Or.inr hc, h⟩
    · exact ⟨_, b, Or.inl ⟨rfl, rfl⟩, h⟩

theorem row_number_inj {a b : UInt64} (h : (a.toNat : ℤ) = b.toNat) : a = b :=
  UInt64.toNat_inj.1 (Int.ofNat.inj h)

/-- A transaction of a well-formed bundle names the number of its block. -/
theorem WellFormed.blockNumber_eq {b : BlockBundle} (h : WellFormed b) {t : Transaction}
    (ht : t ∈ b.transactions) : t.blockNumber = b.block.number := by
  obtain ⟨i, hi, rfl⟩ := List.getElem_of_mem ht
  exact (h.transaction i hi).2.1

theorem WellFormed.blockHash_eq {b : BlockBundle} (h : WellFormed b) {t : Transaction}
    (ht : t ∈ b.transactions) : t.blockHash = b.block.hash := by
  obtain ⟨i, hi, rfl⟩ := List.getElem_of_mem ht
  exact (h.transaction i hi).2.2

/-- The transactions stand in the order of their indices. -/
theorem WellFormed.pairwise_index {b : BlockBundle} (h : WellFormed b) :
    b.transactions.Pairwise fun t v => t.index.toNat < v.index.toNat := by
  rw [List.pairwise_iff_getElem]
  intro i j hi hj hij
  rw [(h.transaction i hi).1, (h.transaction j hj).1]
  exact hij

theorem WellFormed.index_nodup {b : BlockBundle} (h : WellFormed b) :
    (b.transactions.map Transaction.index).Nodup :=
  List.pairwise_map.2 (h.pairwise_index.imp fun hlt heq => by
    rw [heq] at hlt
    exact lt_irrefl _ hlt)

section Insert

variable {T T' : Tables} {B : BundleMap} {b : BlockBundle}

/-- A stored bundle has another block number than one of a new height. -/
theorem Mirrors.rowNumber_ne (h : Mirrors T B) (hn : B.get? b.block.number = none) {m : UInt64}
    {c : BlockBundle} (hc : B.get? m = some c) :
    (c.block.number.toNat : ℤ) ≠ b.block.number.toNat := by
  intro heq
  rw [← row_number_inj heq, h.storable.number hc, hc] at hn
  cases hn

/-- So do the rows of its transactions. -/
theorem Mirrors.transaction_rowNumber_ne (h : Mirrors T B) (hn : B.get? b.block.number = none)
    (hwf : WellFormed b) {t : Transaction} (ht : t ∈ b.transactions) {r : TransactionRow}
    (hr : r ∈ T.transactions) : r.blockNumber ≠ t.row.blockNumber := by
  obtain ⟨m, c, hc, v, hv, rfl⟩ := (h.transactions.mem r).1 hr
  intro heq
  refine h.rowNumber_ne hn hc ?_
  rw [← (h.storable.wellFormed hc).blockNumber_eq hv, ← hwf.blockNumber_eq ht]
  exact heq

/-- And the rows of its events. -/
theorem Mirrors.event_rowNumber_ne (h : Mirrors T B) (hn : B.get? b.block.number = none)
    (hwf : WellFormed b) {e : Event} (he : e ∈ b.events) {r : EventLogRow}
    (hr : r ∈ T.eventLogs) : r.blockNumber ≠ e.row.blockNumber := by
  obtain ⟨m, c, hc, f, hf, rfl⟩ := (h.eventLogs.mem r).1 hr
  intro heq
  refine h.rowNumber_ne hn hc ?_
  rw [← ((h.storable.wellFormed hc).event f hf).2.1, ← (hwf.event e he).2.1]
  exact heq

/-- A hash is new to the table if it is new to the window. -/
theorem Mirrors.forall_blockHash_ne_iff (h : Mirrors T B) :
    (∀ r ∈ T.blocks, r.hash ≠ b.block.row.hash) ↔
      ∀ m c, B.get? m = some c → c.block.hash ≠ b.block.hash := by
  refine ⟨fun H m c hc heq => H c.block.row ((h.blocks.mem _).2 ⟨m, c, hc, rfl⟩)
    (congrArg Subtype.val heq), fun H r hr heq => ?_⟩
  obtain ⟨m, c, hc, rfl⟩ := (h.blocks.mem r).1 hr
  exact H m c hc (Subtype.ext heq)

theorem Mirrors.forall_transactionHash_ne_iff (h : Mirrors T B) :
    (∀ t ∈ b.transactions, ∀ r ∈ T.transactions, r.hash ≠ t.row.hash) ↔
      ∀ m c, B.get? m = some c → ∀ t ∈ b.transactions, ∀ v ∈ c.transactions, v.hash ≠ t.hash := by
  refine ⟨fun H m c hc t ht v hv heq => H t ht v.row
    ((h.transactions.mem _).2 ⟨m, c, hc, v, hv, rfl⟩) (congrArg Subtype.val heq),
    fun H t ht r hr heq => ?_⟩
  obtain ⟨m, c, hc, v, hv, rfl⟩ := (h.transactions.mem r).1 hr
  exact H m c hc t ht v hv (Subtype.ext heq)

/-- The rows of a bundle of a new height. -/
theorem Mirrors.addBundle (h : Mirrors T B) (hn : B.get? b.block.number = none)
    (hset : Storable (B.set b.block.number b)) :
    Mirrors (T.addBundle b) (B.set b.block.number b) := by
  have hwf := hset.wellFormed (GoMap.get?_set_self B b.block.number b)
  refine ⟨hset, ?_, ?_, ?_⟩
  · refine (h.blocks.append (Lists.singleton b.block.row) ?_).congr fun r => ?_
    · rintro r ⟨m, c, hc, rfl⟩ heq
      exact h.rowNumber_ne hn hc (congrArg BlockRow.number heq)
    · rw [has_set_iff hn, eq_comm (a := r)]
  · refine (h.transactions.append (Lists.map hwf.hash_nodup
      fun t v heq => Subtype.ext (congrArg TransactionRow.hash heq)) ?_).congr fun r => ?_
    · rintro r hr ⟨v, hv, rfl⟩
      exact h.transaction_rowNumber_ne hn hwf hv ((h.transactions.mem _).2 hr) rfl
    · rw [has_set_iff hn]
  · refine (h.eventLogs.append (Lists.map hwf.logIndex_nodup
      fun e f heq => UInt32.toNat_inj.1 (Int.ofNat.inj (congrArg EventLogRow.logIndex heq)))
      ?_).congr fun r => ?_
    · rintro r hr ⟨f, hf, rfl⟩
      exact h.event_rowNumber_ne hn hwf hf ((h.eventLogs.mem _).2 hr) rfl
    · rw [has_set_iff hn]

/-- **One bundle goes in** exactly when the map with it can be held. -/
theorem foldlM_bundleStatements_iff (h : Mirrors T B) (hn : B.get? b.block.number = none)
    (hwf : WellFormed b) (hfits : b.Fits) :
    (bundleStatements b).foldlM Tables.execute T = .ok T' ↔
      Storable (B.set b.block.number b) ∧ T' = T.addBundle b := by
  have hcount := hwf.count_nonneg
  have hnumber : ∀ r ∈ T.blocks, r.number ≠ b.block.row.number := by
    intro r hr
    obtain ⟨m, c, hc, rfl⟩ := (h.blocks.mem r).1 hr
    exact h.rowNumber_ne hn hc
  have hblock : ∀ n : UInt64, n = b.block.number →
      ∃ r ∈ T.blocks ++ [b.block.row], r.number = n.toNat := fun n hn' =>
    ⟨b.block.row, by simp, by rw [hn']; rfl⟩
  -- the rows of the block are in, then those of its transactions
  let T₁ : Tables := { T with blocks := T.blocks ++ [b.block.row] }
  let T₂ : Tables := { T₁ with transactions := T.transactions ++ b.transactions.map Transaction.row }
  have htransactions : ∀ T', (b.transactions.map fun t => Statement.insertTransaction t.row).foldlM
      Tables.execute T₁ = .ok T' ↔ _ := fun T' =>
    foldlM_insertTransactions_iff b.transactions hfits.transaction
      (fun t ht => hblock _ (hwf.blockNumber_eq ht))
      (fun t ht r hr heq => h.transaction_rowNumber_ne hn hwf ht hr heq.1)
      hwf.index_nodup hwf.hash_nodup
  have hevents : (b.events.map fun e => Statement.insertEvent e.row).foldlM Tables.execute T₂ =
      .ok T' ↔ _ :=
    foldlM_insertEvents_iff b.events (fun e he => (hwf.event e he).2.2.2)
      (fun e he => hblock _ (hwf.event e he).2.1)
      (fun e he => by
        obtain ⟨t, ht, heq, -⟩ := (hwf.event e he).1
        exact ⟨t.row, List.mem_append_right _ (List.mem_map_of_mem ht), congrArg Subtype.val heq⟩)
      (fun e he r hr heq => h.event_rowNumber_ne hn hwf he hr heq.1) hwf.logIndex_nodup
  rw [bundleStatements, foldlM_cons_eq_ok_iff, storable_set_iff h.storable hn hwf hfits]
  constructor
  · rintro ⟨_, h1, h2⟩
    obtain ⟨-, hhash, rfl⟩ := (execute_insertBlock_iff hfits.block hcount).1 h1
    obtain ⟨_, h2, h3⟩ := foldlM_append_eq_ok_iff.1 h2
    obtain ⟨hinput, hfresh, rfl⟩ := (htransactions _).1 h2
    obtain ⟨hdata, rfl⟩ := hevents.1 h3
    exact ⟨⟨⟨hinput, hdata⟩, h.forall_blockHash_ne_iff.1 hhash,
      h.forall_transactionHash_ne_iff.1 hfresh⟩, rfl⟩
  · rintro ⟨⟨⟨hinput, hdata⟩, hhash, hfresh⟩, rfl⟩
    exact ⟨T₁, (execute_insertBlock_iff hfits.block hcount).2
        ⟨hnumber, h.forall_blockHash_ne_iff.2 hhash, rfl⟩,
      foldlM_append_eq_ok_iff.2 ⟨T₂, (htransactions _).2
        ⟨hinput, h.forall_transactionHash_ne_iff.2 hfresh, rfl⟩, hevents.2 ⟨hdata, rfl⟩⟩⟩

/-- The number of a bundle, under which it is stored. -/
abbrev numberOf (b : BlockBundle) : UInt64 := b.block.number

section Bundles

variable {blocks : List BlockBundle}

/-- What is in after the first bundle stays. -/
theorem get?_setAll_of_get?_set (hnodup : ((b :: blocks).map numberOf).Nodup)
    (hnew : ∀ c ∈ b :: blocks, B.get? c.block.number = none) {n : UInt64} {c : BlockBundle}
    (hc : (B.set b.block.number b).get? n = some c) :
    (B.setAll numberOf (b :: blocks)).get? n = some c := by
  rw [List.map_cons, List.nodup_cons] at hnodup
  change ((B.set b.block.number b).setAll numberOf blocks).get? n = some c
  rw [GoMap.get?_setAll_of_notMem, hc]
  rintro d hd rfl
  rcases (get?_set_eq_some_iff (hnew b List.mem_cons_self)).1 hc with ⟨heq, -⟩ | hc
  · exact hnodup.1 (List.mem_map.2 ⟨d, hd, heq⟩)
  · rw [hnew d (List.mem_cons_of_mem _ hd)] at hc
    cases hc

/-- The later blocks of an update are still new. -/
theorem get?_set_eq_none (hnodup : ((b :: blocks).map numberOf).Nodup)
    (hnew : ∀ c ∈ b :: blocks, B.get? c.block.number = none) :
    ∀ c ∈ blocks, (B.set b.block.number b).get? c.block.number = none := by
  intro c hc
  rw [List.map_cons, List.nodup_cons] at hnodup
  rw [GoMap.get?_set_of_ne B b fun heq => hnodup.1 (List.mem_map.2 ⟨c, hc, heq⟩)]
  exact hnew c (List.mem_cons_of_mem _ hc)

/-- The rows of bundles of new heights. -/
theorem Mirrors.addBundles (h : Mirrors T B) (hnodup : (blocks.map numberOf).Nodup)
    (hnew : ∀ b ∈ blocks, B.get? b.block.number = none) (hall : Storable (B.setAll numberOf blocks)) :
    Mirrors (blocks.foldl Tables.addBundle T) (B.setAll numberOf blocks) := by
  induction blocks generalizing T B with
  | nil => exact h
  | cons b blocks ih =>
    have hset : Storable (B.set b.block.number b) :=
      hall.mono fun n c => get?_setAll_of_get?_set hnodup hnew
    exact ih (h.addBundle (hnew b List.mem_cons_self) hset) (List.nodup_cons.1 hnodup).2
      (get?_set_eq_none hnodup hnew) hall

/-- **The bundles of new heights go in** exactly when the map with all of
them can be held. -/
theorem foldlM_flatMap_bundleStatements_iff (h : Mirrors T B)
    (hnodup : (blocks.map numberOf).Nodup) (hnew : ∀ b ∈ blocks, B.get? b.block.number = none)
    (hwf : ∀ b ∈ blocks, WellFormed b) (hfits : ∀ b ∈ blocks, b.Fits) :
    (blocks.flatMap bundleStatements).foldlM Tables.execute T = .ok T' ↔
      Storable (B.setAll numberOf blocks) ∧ T' = blocks.foldl Tables.addBundle T := by
  induction blocks generalizing T B with
  | nil =>
    rw [List.flatMap_nil, List.foldlM_nil, pure_eq_ok_iff, eq_comm]
    exact ⟨fun heq => ⟨h.storable, heq⟩, And.right⟩
  | cons b blocks ih =>
    have hone : ∀ T₁, (bundleStatements b).foldlM Tables.execute T = .ok T₁ ↔ _ := fun T₁ =>
      foldlM_bundleStatements_iff h (hnew b List.mem_cons_self) (hwf b List.mem_cons_self)
        (hfits b List.mem_cons_self)
    have hrest := fun hset => ih (h.addBundle (hnew b List.mem_cons_self) hset)
      (List.nodup_cons.1 hnodup).2 (get?_set_eq_none hnodup hnew)
      (fun c hc => hwf c (List.mem_cons_of_mem _ hc)) fun c hc => hfits c (List.mem_cons_of_mem _ hc)
    rw [List.flatMap_cons, foldlM_append_eq_ok_iff]
    constructor
    · rintro ⟨T₁, h1, h2⟩
      obtain ⟨hset, rfl⟩ := (hone T₁).1 h1
      exact (hrest hset).1 h2
    · rintro ⟨hall, rfl⟩
      have hset : Storable (B.set b.block.number b) :=
        hall.mono fun n c => get?_setAll_of_get?_set hnodup hnew
      exact ⟨T.addBundle b, (hone _).2 ⟨hset, rfl⟩, (hrest hset).2 ⟨hall, rfl⟩⟩

end Bundles

end Insert

/-! ## Deleting a range -/

section Delete

variable {T : Tables} {B : BundleMap}

/-- The heights an update keeps of a map. -/
def BundleMap.keep (B : BundleMap) (replaceFrom retainFrom : UInt64) : BundleMap :=
  B.deleteWhere (fun n => decide (n ≥ replaceFrom ∨ n < retainFrom)) ((ascending BlockBundle).keys B)

theorem get?_keep_eq_some_iff {replaceFrom retainFrom n : UInt64} {b : BlockBundle} :
    (B.keep replaceFrom retainFrom).get? n = some b ↔
      B.get? n = some b ∧ retainFrom ≤ n ∧ n < replaceFrom := by
  rw [BundleMap.keep, RangeOrder.get?_deleteWhere_keys, decide_eq_false_iff_not, not_or, ge_iff_le,
    UInt64.not_le, UInt64.not_lt, and_comm (a := n < replaceFrom)]

variable {replaceFrom retainFrom n : UInt64} {b : BlockBundle}

theorem Storable.keep (h : Storable B) : Storable (B.keep replaceFrom retainFrom) :=
  h.mono fun _ _ hb => (get?_keep_eq_some_iff.1 hb).1

/-- A property of a bundle that is kept. -/
theorem has_keep_iff {P : BlockBundle → Prop} :
    (B.keep replaceFrom retainFrom).Has P ↔
      ∃ n b, B.get? n = some b ∧ P b ∧ retainFrom ≤ n ∧ n < replaceFrom := by
  simp only [BundleMap.Has, get?_keep_eq_some_iff]
  refine exists_congr fun n => exists_congr fun b => ?_
  rw [and_assoc, and_comm (b := P b)]

/-- The rows `deleteCanonicalRangeQuery` names. -/
theorem rowNumber_deleted_iff (hn : b.block.number = n) :
    (b.block.row.number ≥ (replaceFrom.toNat : ℤ) ∨ b.block.row.number < retainFrom.toNat) ↔
      ¬ (retainFrom ≤ n ∧ n < replaceFrom) := by
  rw [UInt64.le_iff_toNat_le, UInt64.lt_iff_toNat_lt, ← hn]
  change ((b.block.number.toNat : ℤ) ≥ _ ∨ (b.block.number.toNat : ℤ) < _) ↔ _
  omega

/-- The deleted numbers, among those of stored blocks. -/
theorem Mirrors.mem_deleted_iff (h : Mirrors T B) (hb : B.get? n = some b) :
    (n.toNat : ℤ) ∈ (T.blocks.filter fun r => decide (r.number ≥ (replaceFrom.toNat : ℤ) ∨
        r.number < (retainFrom.toNat : ℤ))).map BlockRow.number ↔
      ¬ (retainFrom ≤ n ∧ n < replaceFrom) := by
  rw [← rowNumber_deleted_iff (h.storable.number hb)]
  constructor
  · intro hmem
    obtain ⟨r, hr, hrn⟩ := List.mem_map.1 hmem
    obtain ⟨-, hgone⟩ := List.mem_filter.1 hr
    have hrow : b.block.row.number = r.number := by
      rw [hrn, ← h.storable.number hb]
      rfl
    rw [hrow]
    exact of_decide_eq_true hgone
  · intro hgone
    refine List.mem_map.2 ⟨b.block.row, List.mem_filter.2 ⟨(h.blocks.mem _).2 ⟨n, b, hb, rfl⟩,
      decide_eq_true hgone⟩, ?_⟩
    rw [← h.storable.number hb]
    rfl

/-- **The delete and its cascade** leave the rows of the kept heights. -/
theorem Mirrors.deleteCanonicalRange (h : Mirrors T B) (replaceFrom retainFrom : UInt64) :
    Mirrors (T.deleteCanonicalRange replaceFrom.toNat retainFrom.toNat)
      (B.keep replaceFrom retainFrom) := by
  have hwf := fun {n b} (hb : B.get? n = some b) => h.storable.wellFormed hb
  have hnumber : ∀ {n b t}, B.get? n = some b → t ∈ b.transactions →
      t.row.blockNumber = n.toNat := fun hb ht => by
    rw [← h.storable.number hb, ← (hwf hb).blockNumber_eq ht]
    rfl
  refine ⟨h.storable.keep, ?_, ?_, ?_⟩
  · refine (h.blocks.filter _).congr fun r => ?_
    rw [has_keep_iff]
    constructor
    · rintro ⟨⟨n, b, hb, rfl⟩, hkept⟩
      rw [Bool.not_eq_true', decide_eq_false_iff_not,
        rowNumber_deleted_iff (h.storable.number hb), not_not] at hkept
      exact ⟨n, b, hb, rfl, hkept⟩
    · rintro ⟨n, b, hb, rfl, hkept⟩
      refine ⟨⟨n, b, hb, rfl⟩, ?_⟩
      rw [Bool.not_eq_true', decide_eq_false_iff_not,
        rowNumber_deleted_iff (h.storable.number hb), not_not]
      exact hkept
  · refine (h.transactions.filter _).congr fun r => ?_
    rw [has_keep_iff]
    constructor
    · rintro ⟨⟨n, b, hb, t, ht, rfl⟩, hkept⟩
      rw [decide_eq_true_iff, hnumber hb ht, h.mem_deleted_iff hb, not_not] at hkept
      exact ⟨n, b, hb, ⟨t, ht, rfl⟩, hkept⟩
    · rintro ⟨n, b, hb, ⟨t, ht, rfl⟩, hkept⟩
      refine ⟨⟨n, b, hb, t, ht, rfl⟩, ?_⟩
      rw [decide_eq_true_iff, hnumber hb ht, h.mem_deleted_iff hb, not_not]
      exact hkept
  · refine (h.eventLogs.filter _).congr fun r => ?_
    rw [has_keep_iff]
    have hevent : ∀ {n b e}, B.get? n = some b → e ∈ b.events → e.row.blockNumber = n.toNat :=
      fun hb he => by
        rw [← h.storable.number hb, ← ((hwf hb).event _ he).2.1]
        rfl
    constructor
    · rintro ⟨⟨n, b, hb, e, he, rfl⟩, hkept⟩
      rw [decide_eq_true_iff, hevent hb he, h.mem_deleted_iff hb, not_not] at hkept
      exact ⟨n, b, hb, ⟨e, he, rfl⟩, hkept.1⟩
    · rintro ⟨n, b, hb, ⟨e, he, rfl⟩, hkept⟩
      refine ⟨⟨n, b, hb, e, he, rfl⟩, ?_⟩
      rw [decide_eq_true_iff, hevent hb he, h.mem_deleted_iff hb, not_not]
      refine ⟨hkept, fun hmem => ?_⟩
      -- the transaction of a kept event is in its own block, which is kept
      obtain ⟨r, hr, hrhash⟩ := List.mem_map.1 hmem
      obtain ⟨hr, hgone⟩ := List.mem_filter.1 hr
      obtain ⟨m, c, hc, v, hv, rfl⟩ := (h.transactions.mem r).1 hr
      obtain ⟨t, ht, hth, -⟩ := ((hwf hb).event e he).1
      obtain rfl := h.storable.distinct hc hb hv ht (hth ▸ Subtype.ext hrhash)
      rw [decide_eq_true_iff, hnumber hc hv, h.mem_deleted_iff hc] at hgone
      exact hgone hkept

end Delete

end EthIndexer
