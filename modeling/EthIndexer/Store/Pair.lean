import EthIndexer.Store.Regroup
/-!
# The two stores side by side

`Alike m T B` says that the in-memory store `m` and the tables `T` hold
the same window `B`, of one chain. An update that both take leaves them
alike (`Alike.apply`). They take the same updates but for one kind: blocks
that are to follow a retained one, in a store that retains none
(`Disconnected`). `Postgres` misses the parent; `Memory` has nothing to
compare with and takes them.
-/

namespace EthIndexer

/-- **The same window in both stores.** -/
structure Alike (m : Memory) (T : Tables) (B : BundleMap) : Prop where
  invariant : m.Invariant
  holds : Postgres.Holds T B
  get? : ∀ n, m.bundles.get? n = (B.get? n).map cloneBundle
  noChain : m.chainID = 0 ↔ T.syncState = []
  chain : ∀ r ∈ T.syncState, r.chainID = m.chainID.toNat

theorem alike_new : Alike .new .empty ∅ where
  invariant := Memory.invariant_new
  holds := Postgres.holds_empty
  get? _ := rfl
  noChain := iff_of_true rfl rfl
  chain _ hr := absurd hr List.not_mem_nil

/-! ## Acceptance -/

section Accepts

variable {m : Memory} {T : Tables} {B : BundleMap} {u : CanonicalUpdate}

theorem Alike.mem_iff (h : Alike m T B) {n : UInt64} : n ∈ m.bundles ↔ n ∈ B := by
  rw [GoMap.mem_iff_get?, GoMap.mem_iff_get?]
  simp [h.get?]

/-- The candidate of one store holds the copies of what the other's
tables come to. -/
theorem Alike.get?_candidate (h : Alike m T B) (hu : Consecutive u.replaceFrom u.blocks)
    (ord : RangeOrder UInt64 BlockBundle) (n : UInt64) :
    (Memory.candidate ord m u).get? n = ((B.replace u).get? n).map cloneBundle := by
  rw [Memory.get?_candidate hu]
  exact get?_replace_map cloneBundle_cloneBundle h.get? hu n

/-- An update leaves a chain in both or in none. -/
theorem Alike.canonical_iff (h : Alike m T B) (hu : Consecutive u.replaceFrom u.blocks) :
    Canonical (m.bundles.replace u) ↔ Canonical (B.replace u) :=
  (Memory.canonical_candidate_iff hu).symm.trans
    (canonical_iff_of_keepsChain keepsChain_cloneBundle (h.get?_candidate hu (ascending _)))

theorem Alike.chain_iff (h : Alike m T B) :
    (∀ r ∈ T.syncState, r.chainID = u.chainID.toNat) ↔
      m.chainID = 0 ∨ m.chainID = u.chainID := by
  rcases h.holds.state with ⟨hnil, -⟩ | ⟨r, hr, -⟩
  · rw [hnil]
    exact iff_of_true (by simp) (Or.inl (h.noChain.2 hnil))
  · have hid := h.chain r (by rw [hr]; exact List.mem_cons_self)
    have hne : m.chainID ≠ 0 := fun h0 => by
      rw [h.noChain.1 h0] at hr
      cases hr
    simp only [hr, List.mem_singleton, forall_eq, hid, hne, false_or]
    exact ⟨fun heq => UInt64.toNat_inj.1 (Int.ofNat.inj heq), fun heq => by rw [heq]⟩

/-- **What the tables take, the memory takes.** -/
theorem Alike.memory_accepts (h : Alike m T B) (ha : Postgres.Accepts T B u) : m.Accepts u where
  chainID := ha.valid.chainID
  retain := ha.valid.retain
  consecutive := ha.valid.consecutive
  chain := h.chain_iff.1 ha.chain
  canonical := (h.canonical_iff ha.valid.consecutive).2 (ha.canonical h.holds.canonical)

/-- **Two stores that take an update stay alike.** -/
theorem Alike.accepted (h : Alike m T B) (hm : m.Accepts u) {T' : Tables}
    (hT : Postgres.Holds T' (B.replace u))
    (hchain : ∃ r, T'.syncState = [r] ∧ r.chainID = u.chainID.toNat)
    (ord : RangeOrder UInt64 BlockBundle) : Alike (Memory.after ord m u) T' (B.replace u) := by
  obtain ⟨r, hr, hid⟩ := hchain
  refine ⟨hm.invariant, hT, h.get?_candidate hm.consecutive ord, ?_, ?_⟩
  · rw [hr]
    exact iff_of_false hm.chainID (by simp)
  · rw [hr]
    intro r' hr'
    rw [List.mem_singleton.1 hr', hid]
    rfl

/-- **One call on both stores**: both change, or the tables do not. -/
theorem Alike.apply_cases (h : Alike m T B) (env : PostgresEnv)
    (ord ord' : RangeOrder UInt64 BlockBundle) (u : CanonicalUpdate) :
    (∃ T', Postgres.applyCanonicalUpdate env ord' u T = (.ok (), T') ∧
      Memory.applyCanonicalUpdate ord none m u = (.ok (), Memory.after ord m u) ∧
      Alike (Memory.after ord m u) T' (B.replace u)) ∨
    ∃ f, Postgres.applyCanonicalUpdate env ord' u T = (.error f, T) := by
  rcases Postgres.applyCanonicalUpdate_cases h.holds env ord' u with
    ⟨ha, T', heq, hT', hchain⟩ | hfail
  · have hm := h.memory_accepts ha
    exact Or.inl ⟨T', heq, Memory.applyCanonicalUpdate_of_accepts ord hm,
      h.accepted hm hT' hchain ord⟩
  · exact Or.inr hfail

end Accepts

/-! ## Where they differ -/

/-- **An update both stores could hold**: its values are in the ranges of
the columns, no byte field is nil, and no block hash comes twice among
its blocks and the retained ones. -/
structure InRange (m : Memory) (u : CanonicalUpdate) : Prop where
  chainID : u.chainID ≤ maxInt64
  retainFrom : u.retainFrom ≤ maxInt64
  replaceFrom : u.replaceFrom ≤ maxInt64
  fits : ∀ b ∈ u.blocks, b.Fits
  nonNil : ∀ b ∈ u.blocks, b.NonNil
  hash : ∀ b ∈ u.blocks, ∀ c ∈ u.blocks, b.block.hash = c.block.hash →
    b.block.number = c.block.number
  hash_retained : ∀ b ∈ u.blocks, ∀ n c, m.bundles.get? n = some c → u.retainFrom ≤ n →
    n < u.replaceFrom → b.block.hash ≠ c.block.hash

/-- **Blocks without the parent they need**: the update is of the store's
chain, its blocks are a canonical run on their own, they are to follow a
retained block, and the store retains none. -/
structure Disconnected (m : Memory) (u : CanonicalUpdate) : Prop where
  chainID : u.chainID ≠ 0
  chain : m.chainID = 0 ∨ m.chainID = u.chainID
  consecutive : Consecutive u.replaceFrom u.blocks
  canonical : Canonical (BundleMap.replace ∅ u)
  blocks : u.blocks ≠ []
  lt : u.retainFrom < u.replaceFrom
  none : ∀ n, u.retainFrom ≤ n → n < u.replaceFrom → n ∉ m.bundles

section Differ

variable {m : Memory} {T : Tables} {B : BundleMap} {u : CanonicalUpdate}

theorem Disconnected.pred_notMem (h : Disconnected m u) : u.replaceFrom - 1 ∉ m.bundles := by
  have hpred := toNat_pred_of_lt h.lt
  have hlt := UInt64.lt_iff_toNat_lt.1 h.lt
  exact h.none _ (UInt64.le_iff_toNat_le.2 (by omega)) (UInt64.lt_iff_toNat_lt.2 (by omega))

/-- The memory takes them: there is nothing to compare them with. -/
theorem Disconnected.memory_accepts (h : Disconnected m u) (hm : m.Invariant) : m.Accepts u where
  chainID := h.chainID
  retain := UInt64.le_of_lt h.lt
  consecutive := h.consecutive
  chain := h.chain
  canonical := (canonical_replace_iff hm.canonical h.consecutive).2 ⟨h.canonical,
    ⟨fun _ n hn h1 h2 => absurd hn (h.none n h1 h2),
      fun _ _ _ _ _ hc => absurd (GoMap.mem_of_get? hc) h.pred_notMem⟩,
    fun _ _ n _ hc h1 h2 => absurd (GoMap.mem_of_get? hc) (h.none n h1 h2)⟩

/-- The tables do not: the parent is missing. -/
theorem Disconnected.not_postgres_accepts (h : Disconnected m u) (hB : Alike m T B) :
    ¬ Postgres.Accepts T B u := by
  intro ha
  obtain ⟨first, rest, hblocks⟩ := List.exists_cons_of_ne_nil h.blocks
  obtain ⟨c, hc, -⟩ := ha.parent first (by rw [hblocks]; rfl) h.lt
  exact h.pred_notMem (hB.mem_iff.2 (GoMap.mem_of_get? hc))

/-- The retained parent of an update the memory takes. -/
theorem Alike.parentHeld (h : Alike m T B) (hm : m.Accepts u) (hd : ¬ Disconnected m u) :
    Postgres.ParentHeld B u := by
  intro first hfirst hlt
  obtain ⟨hnew, hcontinues, -⟩ :=
    (canonical_replace_iff h.invariant.canonical hm.consecutive).1 hm.canonical
  have hmem : first ∈ u.blocks := List.mem_of_mem_head? hfirst
  have hne : u.blocks ≠ [] := List.ne_nil_of_mem hmem
  -- something is retained, so the block below the new ones is
  have hretained : ∃ n ∈ m.bundles, u.retainFrom ≤ n ∧ n < u.replaceFrom := by
    by_contra hnone
    exact hd ⟨hm.chainID, hm.chain, hm.consecutive, hnew, hne, hlt,
      fun n h1 h2 hn => hnone ⟨n, hn, h1, h2⟩⟩
  obtain ⟨n, hn, h1, h2⟩ := hretained
  obtain ⟨c, hc⟩ := GoMap.mem_iff_get?.1 (h.mem_iff.1 (hcontinues.mem hne n hn h1 h2))
  have hnumber : first.block.number = u.replaceFrom := by
    obtain ⟨rest, hblocks⟩ := List.head?_eq_some_iff.1 hfirst
    exact (hblocks ▸ hm.consecutive).number_head
  refine ⟨c, hc, hcontinues.parentHash first hmem hnumber hlt (cloneBundle c) ?_⟩
  rw [h.get?, hc]
  rfl

/-- The tables can hold what an update in range comes to. -/
theorem Alike.storable_replace (h : Alike m T B) (hm : m.Accepts u) (hr : InRange m u) :
    Storable (B.replace u) := by
  have hu := hm.consecutive
  have hcanonical := (h.canonical_iff hu).1 hm.canonical
  have hB := h.holds.mirrors.storable
  have hget := fun {n b} => get?_replace_eq_some_iff (B := B) (n := n) (b := b) hu
  have hretained : ∀ {n c}, B.get? n = some c → m.bundles.get? n = some (cloneBundle c) :=
    fun hc => by
      rw [h.get?, hc]
      rfl
  refine ⟨hcanonical.number, hcanonical.wellFormed, fun hb => ?_, fun hb => ?_,
    fun hb hc heq => ?_, hcanonical.distinct⟩
  · rcases hget.1 hb with ⟨hb, -⟩ | ⟨hb, -⟩
    · exact hr.fits _ hb
    · exact hB.fits hb
  · rcases hget.1 hb with ⟨hb, -⟩ | ⟨hb, -⟩
    · exact hr.nonNil _ hb
    · exact hB.nonNil hb
  · rcases hget.1 hb with ⟨hb', hn⟩ | ⟨hb', h1, h2⟩ <;>
      rcases hget.1 hc with ⟨hc', hn'⟩ | ⟨hc', h1', h2'⟩
    · rw [← hn, ← hn', hr.hash _ hb' _ hc' heq]
    · exact (hr.hash_retained _ hb' _ _ (hretained hc') h1' h2' heq).elim
    · exact (hr.hash_retained _ hc' _ _ (hretained hb') h1 h2 heq.symm).elim
    · exact hB.hash hb' hc' heq

/-- **What the memory takes, the tables take**, but for a missing parent. -/
theorem Alike.postgres_accepts_iff (h : Alike m T B) (hr : InRange m u) (hm : m.Accepts u) :
    Postgres.Accepts T B u ↔ ¬ Disconnected m u := by
  refine ⟨fun ha hd => hd.not_postgres_accepts h ha, fun hd => ?_⟩
  refine ⟨⟨hm.chainID, hr.chainID, hm.retain, hr.replaceFrom, hm.consecutive,
    hm.canonical.of_replace hm.consecutive, hr.fits⟩, h.chain_iff.2 hm.chain,
    h.parentHeld hm hd, h.storable_replace hm hr⟩

end Differ

/-! ## Runs on both stores -/

/-- **The same calls on both stores**, with updates in range that are not
disconnected. -/
inductive Paired : Memory → Tables → Prop
  | new : Paired .new .empty
  | apply {m : Memory} {T : Tables} {env : PostgresEnv} (h : Paired m T) (henv : env.Faultless)
      (ord ord' : RangeOrder UInt64 BlockBundle) {u : CanonicalUpdate} (hr : InRange m u)
      (hd : ¬ Disconnected m u) :
      Paired (Memory.applyCanonicalUpdate ord none m u).2
        (Postgres.applyCanonicalUpdate env ord' u T).2

section Paired

variable {m : Memory} {T : Tables} {B : BundleMap} {u : CanonicalUpdate} {env : PostgresEnv}

/-- **When PostgreSQL takes an update**, if no call fails. -/
theorem postgres_apply_eq_ok_iff (hB : Postgres.Holds T B) (henv : env.Faultless)
    (ord : RangeOrder UInt64 BlockBundle) :
    (Postgres.applyCanonicalUpdate env ord u T).1 = .ok () ↔ Postgres.Accepts T B u := by
  constructor
  · intro hok
    rcases Postgres.applyCanonicalUpdate_cases hB env ord u with ⟨ha, -⟩ | ⟨f, hf⟩
    · exact ha
    · rw [hf] at hok
      cases hok
  · intro ha
    obtain ⟨T', hT'⟩ : ∃ T', Postgres.commitUpdate env ord u T = .ok T' :=
      Postgres.commitUpdate_of_accepts henv hB ha
    rw [Postgres.applyCanonicalUpdate, hT']

theorem memory_apply_eq_ok_iff (ord : RangeOrder UInt64 BlockBundle) :
    (Memory.applyCanonicalUpdate ord none m u).1 = .ok () ↔ m.Accepts u :=
  ⟨Memory.accepts_of_applyCanonicalUpdate, fun h => by
    rw [Memory.applyCanonicalUpdate_of_accepts ord h]⟩

/-- Stores that were given the same are alike. -/
theorem Paired.alike (h : Paired m T) : ∃ B, Alike m T B := by
  induction h with
  | new => exact ⟨∅, alike_new⟩
  | @apply m T env h henv ord ord' u hr hd ih =>
    obtain ⟨B, hB⟩ := ih
    rcases hB.apply_cases env ord ord' u with ⟨T', hT, hm, hB'⟩ | ⟨f, hf⟩
    · rw [hT, hm]
      exact ⟨_, hB'⟩
    · -- the tables refused it, so the memory did
      have hrefused : ¬ m.Accepts u := fun hm => by
        have hok := (postgres_apply_eq_ok_iff hB.holds henv ord').2
          ((hB.postgres_accepts_iff hr hm).2 hd)
        rw [hf] at hok
        cases hok
      obtain ⟨g, hg, -⟩ := Memory.applyCanonicalUpdate_of_not_accepts ord hrefused
      rw [hf, hg]
      exact ⟨B, hB⟩

/-- **When the two stores take the same updates.** After the same calls on
both, for every update in range: the two agree whether to take it exactly
when it is not one of blocks without the parent they need. -/
theorem Paired.accept_alike_iff (h : Paired m T) (hr : InRange m u) (henv : env.Faultless)
    (ord ord' : RangeOrder UInt64 BlockBundle) :
    ((Memory.applyCanonicalUpdate ord none m u).1 = .ok () ↔
      (Postgres.applyCanonicalUpdate env ord' u T).1 = .ok ()) ↔ ¬ Disconnected m u := by
  obtain ⟨B, hB⟩ := h.alike
  rw [memory_apply_eq_ok_iff, postgres_apply_eq_ok_iff hB.holds henv]
  constructor
  · intro hiff hd
    exact hd.not_postgres_accepts hB (hiff.1 (hd.memory_accepts hB.invariant))
  · intro hd
    exact ⟨fun hm => (hB.postgres_accepts_iff hr hm).2 hd, hB.memory_accepts⟩

/-- Block 7 alone, to follow a block of heights 5 and 6. -/
def orphanSeven : CanonicalUpdate := { putSeven with retainFrom := 5 }

/-- One block that is valid and new is in range. -/
theorem inRange_of_valid (h : PostgresValid u) (hnil : ∀ b ∈ u.blocks, b.NonNil)
    (hone : u.blocks.length = 1) (hretained : ∀ b ∈ u.blocks, ∀ n c, m.bundles.get? n = some c →
      u.retainFrom ≤ n → n < u.replaceFrom → b.block.hash ≠ c.block.hash) : InRange m u where
  chainID := h.chainID_le
  retainFrom := UInt64.le_trans h.retain h.replaceFrom_le
  replaceFrom := h.replaceFrom_le
  fits := h.fits
  nonNil := hnil
  hash b hb c hc _ := by
    obtain ⟨d, hd⟩ := List.length_eq_one_iff.1 hone
    rw [hd, List.mem_singleton] at hb hc
    rw [hb, hc]
  hash_retained := hretained

theorem nonNil_twoEvents : ∀ b ∈ [twoEvents], b.NonNil := by
  simp only [List.mem_singleton, forall_eq]
  exact ⟨by decide, by decide⟩

theorem postgresValid_of_ascending {u : CanonicalUpdate}
    (h : validatePostgresUpdate (ascending BlockBundle) u = .ok ()) : PostgresValid u :=
  validatePostgresUpdate_eq_ok_iff.1 h

/-- On empty stores, an update of block 7 that retains from block 5 is in
range; the memory takes it and the tables do not. -/
theorem accept_differ_orphan : InRange .new orphanSeven ∧
    (Memory.applyCanonicalUpdate (ascending BlockBundle) none .new orphanSeven).1 = .ok () ∧
    (Postgres.applyCanonicalUpdate .plain (ascending BlockBundle) orphanSeven .empty).1 =
      .error (.because .invalidCanonicalUpdate "retained parent block 6 is missing") := by
  have hvalid : PostgresValid orphanSeven :=
    postgresValid_of_ascending (by decide +kernel)
  exact ⟨inRange_of_valid hvalid nonNil_twoEvents rfl fun _ _ _ _ hc => (by simp [Memory.new] at hc),
    by decide +kernel, by decide +kernel⟩

/-- Block 8 after block 7: the two stores agree, and take it. -/
theorem accept_alike_eight :
    (Memory.applyCanonicalUpdate (ascending BlockBundle) none Memory.storedSeven putEight).1 =
      .ok () ∧
    (Postgres.applyCanonicalUpdate .plain (ascending BlockBundle) putEight
      Postgres.tablesSeven).1 = .ok () := by
  have hvalid : PostgresValid putSeven :=
    postgresValid_of_ascending (by decide +kernel)
  have hvalid' : PostgresValid putEight :=
    postgresValid_of_ascending (by decide +kernel)
  have hpaired : Paired Memory.storedSeven Postgres.tablesSeven :=
    .apply .new PostgresEnv.faultless_plain _ _ (inRange_of_valid hvalid nonNil_twoEvents rfl
      fun _ _ _ _ hc => (by simp [Memory.new] at hc)) fun hd => absurd hd.lt (by decide)
  have hseven : Memory.storedSeven.bundles.get? 7 = some twoEvents := by decide +kernel
  have hrange : InRange Memory.storedSeven putEight := inRange_of_valid hvalid'
    (by simp only [putEight, List.mem_singleton, forall_eq]; exact ⟨by decide, by decide⟩) rfl
    fun b hb n c hc h1 h2 => by
      obtain rfl : n = 7 := UInt64.toNat_inj.1 (by
        have h1 := UInt64.le_iff_toNat_le.1 h1
        have h2 := UInt64.lt_iff_toNat_lt.1 h2
        simp only [putEight, UInt64.reduceToNat] at h1 h2 ⊢
        omega)
      rw [hseven, Option.some.injEq] at hc
      rw [List.mem_singleton.1 hb, ← hc]
      decide
  have hok : (Memory.applyCanonicalUpdate (ascending BlockBundle) none Memory.storedSeven putEight).1 =
      .ok () := by decide +kernel
  exact ⟨hok, ((hpaired.accept_alike_iff hrange PostgresEnv.faultless_plain _ _).2 fun hd =>
    hd.none 7 (by decide) (by decide) (GoMap.mem_of_get? hseven)).1 hok⟩

end Paired

end EthIndexer
