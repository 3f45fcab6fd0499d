import EthIndexer.Store.Canonical
/-!
# What an update does to the window

An update keeps the blocks of `[retainFrom, replaceFrom)` and puts its own
above them. `BundleMap.replace` is that operation on a map of bundles, with
no check and no copy: the meaning both stores give to an update they
accept. `get?_replace_eq_some_iff` reads a height of the result, and the
rest of the file says when the result is canonical, in terms of the new
blocks, the retained ones and the one link between them.
-/

namespace EthIndexer

/-- **The update**: drop its heights, then store its blocks. -/
def BundleMap.replace (B : BundleMap) (u : CanonicalUpdate) : BundleMap :=
  (B.deleteWhere (fun n => decide (n ≥ u.replaceFrom ∨ n < u.retainFrom))
    ((ascending BlockBundle).keys B)).setAll (fun b => b.block.number) u.blocks

/-! ## Consecutive blocks -/

section Consecutive

variable {start : UInt64} {blocks : List BlockBundle}

/-- Consecutive blocks have different numbers. -/
theorem Consecutive.nodup (h : Consecutive start blocks) :
    (blocks.map fun b => b.block.number).Nodup := by
  rw [List.nodup_iff_injective_get]
  rintro ⟨i, hi⟩ ⟨j, hj⟩ hij
  simp only [List.length_map] at hi hj
  simp only [List.get_eq_getElem, List.getElem_map] at hij
  have h1 := h i hi
  have h2 := h j hj
  rw [hij] at h1
  simp only [Fin.mk.injEq]
  omega

/-- The first of them has the first number. -/
theorem Consecutive.number_head {b : BlockBundle} (h : Consecutive start (b :: blocks)) :
    b.block.number = start := UInt64.toNat_inj.1 (h 0 (Nat.zero_lt_succ _))

/-- A block of the run sits between the start and the end. -/
theorem Consecutive.number_bounds (h : Consecutive start blocks) {b : BlockBundle}
    (hb : b ∈ blocks) : start.toNat ≤ b.block.number.toNat ∧
      b.block.number.toNat < start.toNat + blocks.length := by
  obtain ⟨i, hi, rfl⟩ := List.getElem_of_mem hb
  have := h i hi
  omega

/-- And every number between is the number of one of them. -/
theorem Consecutive.exists_number (h : Consecutive start blocks) {n : UInt64}
    (h1 : start.toNat ≤ n.toNat) (h2 : n.toNat < start.toNat + blocks.length) :
    ∃ b ∈ blocks, b.block.number = n := by
  have hi : n.toNat - start.toNat < blocks.length := by omega
  refine ⟨blocks[n.toNat - start.toNat], List.getElem_mem hi, UInt64.toNat_inj.1 ?_⟩
  rw [h _ hi]
  omega

theorem Consecutive.eq_of_number_eq (h : Consecutive start blocks) {b c : BlockBundle}
    (hb : b ∈ blocks) (hc : c ∈ blocks) (hbc : b.block.number = c.block.number) : b = c :=
  List.inj_on_of_nodup_map h.nodup hb hc hbc

end Consecutive

/-! ## Reading the result -/

section Replace

variable {B : BundleMap} {u : CanonicalUpdate}

/-- **What the update leaves at a height**: one of its own blocks, or a
retained one. -/
theorem get?_replace_eq_some_iff (hu : Consecutive u.replaceFrom u.blocks) {n : UInt64}
    {b : BlockBundle} :
    (B.replace u).get? n = some b ↔ (b ∈ u.blocks ∧ b.block.number = n) ∨
      (B.get? n = some b ∧ u.retainFrom ≤ n ∧ n < u.replaceFrom) := by
  by_cases hnew : ∃ c ∈ u.blocks, c.block.number = n
  · obtain ⟨c, hc, rfl⟩ := hnew
    have hget : (B.replace u).get? c.block.number = some c :=
      GoMap.get?_setAll_of_mem hu.nodup hc
    have hge := (hu.number_bounds hc).1
    rw [hget]
    constructor
    · rintro ⟨⟩
      exact Or.inl ⟨hc, rfl⟩
    · rintro (⟨hb, hbc⟩ | ⟨-, -, hlt⟩)
      · rw [hu.eq_of_number_eq hb hc hbc]
      · rw [UInt64.lt_iff_toNat_lt] at hlt
        omega
  · have hnone : ∀ c ∈ u.blocks, c.block.number ≠ n := fun c hc heq => hnew ⟨c, hc, heq⟩
    have hget : (B.replace u).get? n = _ := GoMap.get?_setAll_of_notMem hnone
    rw [hget, RangeOrder.get?_deleteWhere_keys, decide_eq_false_iff_not, not_or, ge_iff_le,
      UInt64.not_le, UInt64.not_lt]
    constructor
    · rintro ⟨hb, h1, h2⟩
      exact Or.inr ⟨hb, h2, h1⟩
    · rintro (⟨hb, hbn⟩ | ⟨hb, h1, h2⟩)
      · exact absurd hbn (hnone b hb)
      · exact ⟨hb, h2, h1⟩

theorem mem_replace_iff (hu : Consecutive u.replaceFrom u.blocks) {n : UInt64} :
    n ∈ B.replace u ↔ (u.replaceFrom.toNat ≤ n.toNat ∧
        n.toNat < u.replaceFrom.toNat + u.blocks.length) ∨
      (n ∈ B ∧ u.retainFrom ≤ n ∧ n < u.replaceFrom) := by
  rw [GoMap.mem_iff_get?, GoMap.mem_iff_get?]
  simp only [get?_replace_eq_some_iff hu]
  constructor
  · rintro ⟨b, ⟨hb, rfl⟩ | ⟨hb, h⟩⟩
    · exact Or.inl (hu.number_bounds hb)
    · exact Or.inr ⟨⟨b, hb⟩, h⟩
  · rintro (⟨h1, h2⟩ | ⟨⟨b, hb⟩, h⟩)
    · obtain ⟨b, hb, hbn⟩ := hu.exists_number h1 h2
      exact ⟨b, Or.inl ⟨hb, hbn⟩⟩
    · exact ⟨b, Or.inr ⟨hb, h⟩⟩

/-- The blocks of an update on their own. -/
theorem setAll_empty_eq_replace (u : CanonicalUpdate) :
    (∅ : BundleMap).setAll (fun b => b.block.number) u.blocks = BundleMap.replace ∅ u := by
  have hempty : (∅ : BundleMap).deleteWhere
      (fun n => decide (n ≥ u.replaceFrom ∨ n < u.retainFrom)) ((ascending BlockBundle).keys ∅) = ∅ :=
    GoMap.ext_get? fun n => Option.ext fun b => by
      rw [RangeOrder.get?_deleteWhere_keys]
      simp
  rw [BundleMap.replace, hempty]

/-- Replacing nothing leaves the blocks of the update. -/
theorem get?_replace_empty_eq_some_iff (hu : Consecutive u.replaceFrom u.blocks) {n : UInt64}
    {b : BlockBundle} :
    (BundleMap.replace ∅ u).get? n = some b ↔ b ∈ u.blocks ∧ b.block.number = n := by
  rw [get?_replace_eq_some_iff hu]
  simp

/-! ## When the result is canonical -/

/-- The new blocks of a canonical result are canonical on their own. -/
theorem Canonical.of_replace (hu : Consecutive u.replaceFrom u.blocks)
    (h : Canonical (B.replace u)) : Canonical (BundleMap.replace ∅ u) := by
  have hsub : ∀ {n b}, (BundleMap.replace ∅ u).get? n = some b →
      (B.replace u).get? n = some b := fun hb =>
    (get?_replace_eq_some_iff hu).2 (Or.inl ((get?_replace_empty_eq_some_iff hu).1 hb))
  refine ⟨fun hb => h.number (hsub hb), fun hb => h.wellFormed (hsub hb),
    fun {i j n} hi hj hin hnj => ?_, fun hnm hb hc => h.linked hnm (hsub hb) (hsub hc),
    fun hb hc => h.distinct (hsub hb) (hsub hc)⟩
  have hi' := (mem_replace_iff hu).1 hi
  have hj' := (mem_replace_iff hu).1 hj
  have hempty : ∀ k : UInt64, k ∉ (∅ : BundleMap) := fun _ => Finmap.notMem_empty
  simp only [hempty, false_and, or_false] at hi' hj'
  rw [UInt64.le_iff_toNat_le] at hin hnj
  exact (mem_replace_iff hu).2 (Or.inl ⟨by omega, by omega⟩)

/-- **The new blocks continue the retained ones**: where there are both,
the block below the first new one is retained, and is its parent. -/
structure Continues (B : BundleMap) (u : CanonicalUpdate) : Prop where
  mem : u.blocks ≠ [] → ∀ n ∈ B, u.retainFrom ≤ n → n < u.replaceFrom → u.replaceFrom - 1 ∈ B
  parentHash : ∀ b ∈ u.blocks, b.block.number = u.replaceFrom → u.retainFrom < u.replaceFrom →
    ∀ c, B.get? (u.replaceFrom - 1) = some c → b.block.parentHash = c.block.hash

/-- No new transaction is among the retained ones. -/
def Fresh (B : BundleMap) (u : CanonicalUpdate) : Prop :=
  ∀ b ∈ u.blocks, ∀ n c, B.get? n = some c → u.retainFrom ≤ n → n < u.replaceFrom →
    ∀ t ∈ b.transactions, ∀ v ∈ c.transactions, t.hash ≠ v.hash

/-- **A replaced window has no holes.** -/
theorem interval_replace (hB : Canonical B) (hu : Consecutive u.replaceFrom u.blocks)
    (hc : Continues B u) {i j n : UInt64} (hi : i ∈ B.replace u) (hj : j ∈ B.replace u)
    (hin : i ≤ n) (hnj : n ≤ j) : n ∈ B.replace u := by
  have hin' := UInt64.le_iff_toNat_le.1 hin
  have hnj' := UInt64.le_iff_toNat_le.1 hnj
  rcases (mem_replace_iff hu).1 hi with ⟨hi1, -⟩ | ⟨hi, hri, hir⟩
  · rcases (mem_replace_iff hu).1 hj with ⟨-, hj2⟩ | ⟨-, -, hjr⟩
    · exact (mem_replace_iff hu).2 (Or.inl ⟨by omega, by omega⟩)
    · rw [UInt64.lt_iff_toNat_lt] at hjr
      omega
  · have hrn := UInt64.le_trans hri hin
    rcases (mem_replace_iff hu).1 hj with ⟨hj1, hj2⟩ | ⟨hj, -, hjr⟩
    · rcases Nat.lt_or_ge n.toNat u.replaceFrom.toNat with hlt | hge
      · -- below the new blocks: the parent they name is retained
        have hne : u.blocks ≠ [] := fun hnil => by
          rw [hnil, List.length_nil] at hj2
          omega
        have hmem := hc.mem hne i hi hri hir
        have hpred := toNat_pred_of_lt hir
        exact (mem_replace_iff hu).2 (Or.inr ⟨hB.interval hi hmem hin
          (UInt64.le_iff_toNat_le.2 (by omega)), hrn, UInt64.lt_iff_toNat_lt.2 hlt⟩)
      · exact (mem_replace_iff hu).2 (Or.inl ⟨hge, by omega⟩)
    · exact (mem_replace_iff hu).2 (Or.inr ⟨hB.interval hi hj hin hnj, hrn,
        UInt64.lt_of_le_of_lt hnj hjr⟩)

/-- **A replaced window is linked.** -/
theorem linked_replace (hB : Canonical B) (hu : Consecutive u.replaceFrom u.blocks)
    (hc : Continues B u) (hnew : ∀ b ∈ u.blocks, ∀ c ∈ u.blocks,
      c.block.number.toNat = b.block.number.toNat + 1 → c.block.parentHash = b.block.hash)
    {n m : UInt64} {b c : BlockBundle} (hnm : m.toNat = n.toNat + 1)
    (hb : (B.replace u).get? n = some b) (hc' : (B.replace u).get? m = some c) :
    c.block.parentHash = b.block.hash := by
  rcases (get?_replace_eq_some_iff hu).1 hb with ⟨hbu, rfl⟩ | ⟨hb', hrb, hbr⟩
  · have hge := (hu.number_bounds hbu).1
    rcases (get?_replace_eq_some_iff hu).1 hc' with ⟨hcu, rfl⟩ | ⟨-, -, hcr⟩
    · exact hnew b hbu c hcu hnm
    · rw [UInt64.lt_iff_toNat_lt] at hcr
      omega
  · rcases (get?_replace_eq_some_iff hu).1 hc' with ⟨hcu, rfl⟩ | ⟨hc', -⟩
    · obtain ⟨hm, rfl⟩ := eq_pred_of_succ_across hbr hnm (hu.number_bounds hcu).1
      exact hc.parentHash c hcu hm (UInt64.lt_of_le_of_lt hrb hbr) b hb'
    · exact hB.linked hnm hb' hc'

/-- **When an update leads to a canonical window**: the new blocks are
canonical on their own, continue the retained ones, and repeat none of
their transactions. -/
theorem canonical_replace_iff (hB : Canonical B) (hu : Consecutive u.replaceFrom u.blocks) :
    Canonical (B.replace u) ↔
      Canonical (BundleMap.replace ∅ u) ∧ Continues B u ∧ Fresh B u := by
  have hget := fun {n b} => get?_replace_eq_some_iff (B := B) (n := n) (b := b) hu
  constructor
  · intro h
    refine ⟨h.of_replace hu, ⟨fun hne n hn h1 h2 => ?_, fun b hb hbn hlt c hc => ?_⟩, ?_⟩
    -- a kept block and the first new one leave no gap between them
    · have hpos : 0 < u.blocks.length := List.length_pos_iff.2 hne
      have hpred := toNat_pred_of_lt h2
      have hlt := UInt64.lt_iff_toNat_lt.1 h2
      have hmem := h.interval (n := u.replaceFrom - 1)
        ((mem_replace_iff hu).2 (Or.inr ⟨hn, h1, h2⟩))
        ((mem_replace_iff hu).2 (Or.inl ⟨le_rfl, by omega⟩))
        (UInt64.le_iff_toNat_le.2 (by omega)) (UInt64.le_iff_toNat_le.2 (by omega))
      rcases (mem_replace_iff hu).1 hmem with h | h
      · omega
      · exact h.1
    · have hpred := toNat_pred_of_lt hlt
      have hlt' := UInt64.lt_iff_toNat_lt.1 hlt
      refine h.linked (n := u.replaceFrom - 1) (m := u.replaceFrom) (by omega)
        (hget.2 (Or.inr ⟨hc, UInt64.le_iff_toNat_le.2 (by omega),
          UInt64.lt_iff_toNat_lt.2 (by omega)⟩)) (hget.2 (Or.inl ⟨hb, hbn⟩))
    · intro b hb n c hc h1 h2 t ht v hv htv
      -- one hash would put a new block at the height of a kept one
      have heq := h.distinct (hget.2 (Or.inl ⟨hb, rfl⟩)) (hget.2 (Or.inr ⟨hc, h1, h2⟩)) ht hv htv
      have hge := (hu.number_bounds hb).1
      rw [heq] at hge
      rw [UInt64.lt_iff_toNat_lt] at h2
      omega
  · rintro ⟨hnew, hc, hfresh⟩
    have hempty := fun {n b} => get?_replace_empty_eq_some_iff (n := n) (b := b) hu
    refine ⟨fun hb => ?_, fun hb => ?_, interval_replace hB hu hc,
      linked_replace hB hu hc fun b hb c hc hnm =>
        hnew.linked hnm (hempty.2 ⟨hb, rfl⟩) (hempty.2 ⟨hc, rfl⟩),
      fun {n m b c t v} hb hc ht hv htv => ?_⟩
    · rcases hget.1 hb with ⟨-, h⟩ | ⟨h, -⟩
      · exact h
      · exact hB.number h
    · rcases hget.1 hb with h | ⟨h, -⟩
      · exact hnew.wellFormed (hempty.2 h)
      · exact hB.wellFormed h
    -- two new blocks, two kept ones, or one of each, which is what is fresh
    · rcases hget.1 hb with hb | ⟨hb, h1, h2⟩
      · rcases hget.1 hc with hc | ⟨hc, h1, h2⟩
        · exact hnew.distinct (hempty.2 hb) (hempty.2 hc) ht hv htv
        · exact absurd htv (hfresh b hb.1 m c hc h1 h2 t ht v hv)
      · rcases hget.1 hc with hc | ⟨hc, -⟩
        · exact absurd htv.symm (hfresh c hc.1 n b hb h1 h2 v hv t ht)
        · exact hB.distinct hb hc ht hv htv

end Replace

/-! ## Changes that keep the chain

The stores change a bundle on its way in: slices are copied, an instant
loses its nanoseconds, events come back in log order. None of it touches
what `Canonical` reads. -/

/-- A change of a bundle that `Canonical` does not see. -/
structure KeepsChain (f : BlockBundle → BlockBundle) : Prop where
  number : ∀ b, (f b).block.number = b.block.number
  hash : ∀ b, (f b).block.hash = b.block.hash
  parentHash : ∀ b, (f b).block.parentHash = b.block.parentHash
  hashes : ∀ b, (f b).transactions.map Transaction.hash = b.transactions.map Transaction.hash
  wellFormed : ∀ b, WellFormed (f b) ↔ WellFormed b

/-- **A map changed at every height by such an `f` is canonical when the
map is.** -/
theorem canonical_iff_of_keepsChain {B B' : BundleMap} {f : BlockBundle → BlockBundle}
    (hf : KeepsChain f) (h : ∀ n, B'.get? n = (B.get? n).map f) : Canonical B' ↔ Canonical B := by
  have hget : ∀ {n b}, B'.get? n = some b → ∃ c, B.get? n = some c ∧ f c = b := fun hb => by
    rw [h] at hb
    exact Option.map_eq_some_iff.1 hb
  have hget' : ∀ {n b}, B.get? n = some b → B'.get? n = some (f b) := fun hb => by
    rw [h, hb, Option.map_some]
  have hmem : ∀ {n}, n ∈ B' ↔ n ∈ B := fun {n} => by
    rw [GoMap.mem_iff_get?, GoMap.mem_iff_get?]
    simp [h]
  have hhash : ∀ (b : BlockBundle) (x : Hash),
      (∃ t ∈ (f b).transactions, t.hash = x) ↔ ∃ t ∈ b.transactions, t.hash = x := fun b x => by
    rw [← List.mem_map, hf.hashes, List.mem_map]
  constructor
  · intro hB
    refine ⟨fun hb => ?_, fun hb => (hf.wellFormed _).1 (hB.wellFormed (hget' hb)),
      fun hi hj hin hnj => hmem.1 (hB.interval (hmem.2 hi) (hmem.2 hj) hin hnj),
      fun hnm hb hc => ?_, fun {n m b c t u} hb hc ht hv htv => ?_⟩
    · rw [← hf.number, hB.number (hget' hb)]
    · rw [← hf.parentHash, hB.linked hnm (hget' hb) (hget' hc), hf.hash]
    · obtain ⟨t', ht', htt⟩ := (hhash b t.hash).2 ⟨t, ht, rfl⟩
      obtain ⟨u', hu', huu⟩ := (hhash c u.hash).2 ⟨u, hv, rfl⟩
      exact hB.distinct (hget' hb) (hget' hc) ht' hu' (by rw [htt, huu, htv])
  · intro hB
    refine ⟨fun hb => ?_, fun hb => ?_,
      fun hi hj hin hnj => hmem.2 (hB.interval (hmem.1 hi) (hmem.1 hj) hin hnj),
      fun hnm hb hc => ?_, fun {n m b c t u} hb hc ht hv htv => ?_⟩
    · obtain ⟨c, hc, rfl⟩ := hget hb
      rw [hf.number, hB.number hc]
    · obtain ⟨c, hc, rfl⟩ := hget hb
      exact (hf.wellFormed c).2 (hB.wellFormed hc)
    · obtain ⟨b', hb', rfl⟩ := hget hb
      obtain ⟨c', hc', rfl⟩ := hget hc
      rw [hf.parentHash, hf.hash, hB.linked hnm hb' hc']
    · obtain ⟨b', hb', rfl⟩ := hget hb
      obtain ⟨c', hc', rfl⟩ := hget hc
      obtain ⟨t', ht', htt⟩ := (hhash b' t.hash).1 ⟨t, ht, rfl⟩
      obtain ⟨u', hu', huu⟩ := (hhash c' u.hash).1 ⟨u, hv, rfl⟩
      exact hB.distinct hb' hc' ht' hu' (by rw [htt, huu, htv])

/-- An update of changed bundles, changed again, is the update changed
once. -/
theorem get?_replace_map {B B' : BundleMap} {f : BlockBundle → BlockBundle}
    (hf : ∀ b, f (f b) = f b) (h : ∀ n, B'.get? n = (B.get? n).map f) {u : CanonicalUpdate}
    (hu : Consecutive u.replaceFrom u.blocks) (n : UInt64) :
    ((B'.replace u).get? n).map f = ((B.replace u).get? n).map f := by
  refine Option.ext fun b => ?_
  simp only [Option.map_eq_some_iff, get?_replace_eq_some_iff hu, h]
  constructor
  · rintro ⟨c, hc | ⟨⟨d, hd, rfl⟩, hkept⟩, rfl⟩
    · exact ⟨c, Or.inl hc, rfl⟩
    · exact ⟨d, Or.inr ⟨hd, hkept⟩, (hf d).symm⟩
  · rintro ⟨c, hc | ⟨hc, hkept⟩, rfl⟩
    · exact ⟨c, Or.inl hc, rfl⟩
    · exact ⟨f c, Or.inr ⟨⟨c, hc, rfl⟩, hkept⟩, hf c⟩

/-- Nor does `Canonical` see what the content of a bundle leaves out. -/
theorem wellFormed_content_iff (b : BlockBundle) : WellFormed b.content ↔ WellFormed b := by
  constructor
  · intro h
    refine ⟨by simpa [BlockBundle.content] using h.count,
      by simpa [BlockBundle.content] using h.length_lt, fun i hi => ?_, ?_, fun e he => ?_, ?_⟩
    · simpa [BlockBundle.content, Transaction.content] using
        h.transaction i (by simpa [BlockBundle.content] using hi)
    · simpa [BlockBundle.content, Function.comp_def, Transaction.content] using h.hash_nodup
    · obtain ⟨⟨t, ht, h1, h2⟩, h3, h4, h5⟩ := h.event e.content (List.mem_map_of_mem he)
      obtain ⟨t', ht', rfl⟩ := List.mem_map.1 ht
      exact ⟨⟨t', ht', h1, h2⟩, h3, h4, h5⟩
    · simpa [BlockBundle.content, Function.comp_def, Event.content] using h.logIndex_nodup
  · intro h
    refine ⟨by simpa [BlockBundle.content] using h.count,
      by simpa [BlockBundle.content] using h.length_lt, fun i hi => ?_, ?_, fun e he => ?_, ?_⟩
    · simp only [BlockBundle.content, List.length_map] at hi
      simpa [BlockBundle.content, Transaction.content] using h.transaction i hi
    · simpa [BlockBundle.content, Function.comp_def, Transaction.content] using h.hash_nodup
    · obtain ⟨e', he', rfl⟩ := List.mem_map.1 he
      obtain ⟨⟨t, ht, h1, h2⟩, h3, h4, h5⟩ := h.event e' he'
      exact ⟨⟨t.content, List.mem_map_of_mem ht, h1, h2⟩, h3, h4, h5⟩
    · simpa [BlockBundle.content, Function.comp_def, Event.content] using h.logIndex_nodup

theorem parentHash_eq_of_content (b c : BlockBundle) (h : b.content = c.content) :
    b.block.parentHash = c.block.parentHash := congrArg (fun b => b.block.parentHash) h

theorem map_hash_content (b : BlockBundle) :
    b.content.transactions.map Transaction.hash = b.transactions.map Transaction.hash := by
  simp [BlockBundle.content, Function.comp_def, Transaction.content]

/-- A change that keeps the content keeps the chain. -/
theorem keepsChain_of_content {f : BlockBundle → BlockBundle}
    (h : ∀ b, (f b).content = b.content) : KeepsChain f where
  number b := congrArg (fun c => c.block.number) (h b)
  hash b := congrArg (fun c => c.block.hash) (h b)
  parentHash b := congrArg (fun c => c.block.parentHash) (h b)
  hashes b := by rw [← map_hash_content, h, map_hash_content]
  wellFormed b := by rw [← wellFormed_content_iff, h, wellFormed_content_iff]

/-! ## Two blocks to try the stores on -/

/-- Block 7, with one transaction that emits two events. -/
def twoEvents : BlockBundle where
  block :=
    { number := 7, hash := .spelling 7, parentHash := .spelling 6, timestamp := 0, gasLimit := 0
      gasUsed := 0, baseFeePerGas := none, transactionCount := 1, indexedAt := 0 }
  transactions :=
    [{ hash := .spelling 70, blockNumber := 7, blockHash := .spelling 7, index := 0, type := 2
       nonce := 0, sender := default, recipient := none, value := some 0, gasLimit := 0
       gasPrice := none, maxFeePerGas := some 1, maxPriorityFeePerGas := some 1, input := some [1] }]
  events := [0, 1].map fun i =>
    { blockNumber := 7, blockHash := .spelling 7, transactionHash := .spelling 70
      transactionIndex := 0, logIndex := i, address := default, topics := some [.spelling 1]
      data := some [1] }

/-- Block 8, without transactions. -/
def noEvents : BlockBundle where
  block :=
    { number := 8, hash := .spelling 8, parentHash := .spelling 7, timestamp := 0, gasLimit := 0
      gasUsed := 0, baseFeePerGas := none, transactionCount := 0, indexedAt := 0 }
  transactions := []
  events := []

/-- The update that stores block 7, and the one that appends block 8. -/
def putSeven : CanonicalUpdate := ⟨1, 7, 7, [twoEvents], 0⟩

def putEight : CanonicalUpdate := ⟨1, 8, 7, [noEvents], 0⟩

end EthIndexer
