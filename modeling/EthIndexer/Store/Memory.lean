import EthIndexer.Store.Model.Memory
import EthIndexer.Store.Update
/-!
# The in-memory store keeps a canonical window

An update is accepted exactly when `Accepts` holds, and then the store
holds the copies of `BundleMap.replace`; otherwise nothing changes and
the error is `ErrInvalidCanonicalUpdate`. So every reachable store is
canonical (`Reachable.invariant`), and its tip is its highest block.
-/

namespace EthIndexer

/-! ## Copies -/

@[simp] theorem elems_cloneSlice {α : Type} (s : Slice α) : (cloneSlice s).elems = s.elems := by
  rcases s with - | - | ⟨x, xs⟩ <;> rfl

@[simp] theorem cloneSlice_cloneSlice {α : Type} (s : Slice α) :
    cloneSlice (cloneSlice s) = cloneSlice s := by
  rcases s with - | - | ⟨x, xs⟩ <;> rfl

@[simp] theorem cloneTransaction_cloneTransaction (t : Transaction) :
    cloneTransaction (cloneTransaction t) = cloneTransaction t := by
  simp [cloneTransaction]

@[simp] theorem cloneEvent_cloneEvent (e : Event) : cloneEvent (cloneEvent e) = cloneEvent e := by
  simp [cloneEvent]

@[simp] theorem cloneBundle_cloneBundle (b : BlockBundle) :
    cloneBundle (cloneBundle b) = cloneBundle b := by
  simp [cloneBundle, Function.comp_def]

@[simp] theorem block_cloneBundle (b : BlockBundle) : (cloneBundle b).block = b.block := rfl

/-- A copy of a transaction has its content. -/
theorem content_cloneTransaction (t : Transaction) : (cloneTransaction t).content = t.content := by
  simp [cloneTransaction, Transaction.content]

theorem content_cloneEvent (e : Event) : (cloneEvent e).content = e.content := by
  simp [cloneEvent, Event.content]

/-- A copy has the content of its source. -/
theorem content_cloneBundle (b : BlockBundle) : (cloneBundle b).content = b.content := by
  simp [cloneBundle, BlockBundle.content, Function.comp_def, content_cloneTransaction,
    content_cloneEvent]

theorem keepsChain_cloneBundle : KeepsChain cloneBundle := keepsChain_of_content content_cloneBundle

namespace Memory

variable {ord : RangeOrder UInt64 BlockBundle} {m : Memory} {u : CanonicalUpdate}

/-! ## The candidate map -/

/-- The candidate starts as a copy of every stored bundle. -/
theorem get?_cloneBundles (ord : RangeOrder UInt64 BlockBundle) (source : BundleMap) (n : UInt64) :
    (cloneBundles ord source).get? n = (source.get? n).map cloneBundle := by
  -- the loop over any part of the keys fills in exactly those
  have hloop : ∀ (keys : List UInt64) (acc : BundleMap),
      (keys.foldl (fun cloned number => cloned.set number (cloneBundle (source.get number)))
        acc).get? n = if n ∈ keys then some (cloneBundle (source.get n)) else acc.get? n := by
    intro keys
    induction keys with
    | nil => simp
    | cons k keys ih =>
      intro acc
      rw [List.foldl_cons, ih]
      by_cases hk : n ∈ keys
      · simp [hk]
      · rw [if_neg hk, GoMap.get?_set]
        by_cases hnk : n = k <;> simp [hk, hnk]
  rw [cloneBundles, hloop, GoMap.get?_empty]
  cases hn : source.get? n with
  | none =>
    rw [if_neg]
    · rfl
    · rw [ord.mem_keys]
      exact GoMap.get?_eq_none_iff.1 hn
  | some b =>
    rw [if_pos ((ord.mem_keys_iff_get? _ _).2 ⟨b, hn⟩), GoMap.get_of_get? hn]
    rfl

/-- The candidate is the update of the copies, in whatever order the map
was visited. -/
theorem candidate_eq (ord : RangeOrder UInt64 BlockBundle) (m : Memory) (u : CanonicalUpdate) :
    candidate ord m u =
      (cloneBundles ord m.bundles).replace { u with blocks := u.blocks.map cloneBundle } := by
  have hkeys : ∀ (B : BundleMap) (p : UInt64 → Bool),
      B.deleteWhere p (ord.keys B) = B.deleteWhere p ((ascending BlockBundle).keys B) :=
    fun B p => GoMap.ext_get? fun n => by
      simp only [GoMap.get?_deleteWhere, RangeOrder.mem_keys]
  rw [candidate, BundleMap.replace, hkeys]

/-- Copies follow each other as the blocks do. -/
theorem consecutive_map_cloneBundle {start : UInt64} {blocks : List BlockBundle} :
    Consecutive start (blocks.map cloneBundle) ↔ Consecutive start blocks := by
  simp [Consecutive]

/-- **The candidate holds the copies of what the update leaves.** -/
theorem get?_candidate (hu : Consecutive u.replaceFrom u.blocks) (n : UInt64) :
    (candidate ord m u).get? n = ((m.bundles.replace u).get? n).map cloneBundle := by
  refine Option.ext fun b => ?_
  rw [candidate_eq, get?_replace_eq_some_iff (consecutive_map_cloneBundle.2 hu),
    Option.map_eq_some_iff]
  simp only [get?_replace_eq_some_iff hu, get?_cloneBundles, List.mem_map, Option.map_eq_some_iff]
  constructor
  · rintro (⟨⟨b, hb, rfl⟩, hn⟩ | ⟨⟨b, hb, rfl⟩, h⟩)
    · exact ⟨b, Or.inl ⟨hb, hn⟩, rfl⟩
    · exact ⟨b, Or.inr ⟨hb, h⟩, rfl⟩
  · rintro ⟨b, ⟨hb, hn⟩ | ⟨hb, h⟩, rfl⟩
    · exact Or.inl ⟨⟨b, hb, rfl⟩, hn⟩
    · exact Or.inr ⟨⟨b, hb, rfl⟩, h⟩

/-- The candidate is a chain if the replaced window is one. -/
theorem canonical_candidate_iff (hu : Consecutive u.replaceFrom u.blocks) :
    Canonical (candidate ord m u) ↔ Canonical (m.bundles.replace u) :=
  canonical_iff_of_keepsChain keepsChain_cloneBundle (get?_candidate hu)

/-! ## What an update does -/

/-- **When the store takes an update.** -/
structure Accepts (m : Memory) (u : CanonicalUpdate) : Prop where
  chainID : u.chainID ≠ 0
  retain : u.retainFrom ≤ u.replaceFrom
  consecutive : Consecutive u.replaceFrom u.blocks
  chain : m.chainID = 0 ∨ m.chainID = u.chainID
  canonical : Canonical (m.bundles.replace u)

/-- The store an accepted update leaves. -/
def after (ord : RangeOrder UInt64 BlockBundle) (m : Memory) (u : CanonicalUpdate) : Memory where
  chainID := u.chainID
  bundles := candidate ord m u
  lastSyncedAt := u.syncedAt

/-- **An update that is accepted takes place.** -/
theorem applyCanonicalUpdate_of_accepts (ord : RangeOrder UInt64 BlockBundle) (h : Accepts m u) :
    applyCanonicalUpdate ord none m u = (.ok (), after ord m u) := by
  have hrep := (validateReplacement_eq_ok_iff u).2 h.consecutive
  have hcan := (validateCanonicalBundles_eq_ok_iff ord (candidate ord m u) ()).2
    ((canonical_candidate_iff h.consecutive).2 h.canonical)
  have hchain : ¬ (m.chainID ≠ 0 ∧ m.chainID ≠ u.chainID) := by
    rintro ⟨h0, hne⟩
    exact h.chain.elim h0 hne
  simp only [applyCanonicalUpdate, if_neg h.chainID, if_neg (UInt64.not_lt.2 h.retain), hrep,
    if_neg hchain, hcan, gt_iff_lt]
  rfl

/-- **A refused update** answers with `ErrInvalidCanonicalUpdate` and
leaves the store as it was. -/
theorem applyCanonicalUpdate_of_not_accepts (ord : RangeOrder UInt64 BlockBundle)
    (h : ¬ Accepts m u) : ∃ f : Fault, applyCanonicalUpdate ord none m u = (.error f, m) ∧
      f.causes = [.invalidCanonicalUpdate] := by
  simp only [applyCanonicalUpdate]
  split
  · exact ⟨_, rfl, rfl⟩
  · rename_i hid
    split
    · exact ⟨_, rfl, rfl⟩
    · rename_i hret
      split
      · rename_i f hf
        exact ⟨f, rfl, failsWith_validateReplacement u f hf⟩
      · rename_i hrep
        split
        · exact ⟨_, rfl, rfl⟩
        · rename_i hchain
          split
          · rename_i f hf
            exact ⟨f, rfl, failsWith_validateCanonicalBundles ord _ f hf⟩
          · rename_i hcan
            have hu := (validateReplacement_eq_ok_iff u).1 hrep
            refine absurd ⟨hid, UInt64.not_lt.1 hret, hu, ?_, ?_⟩ h
            · by_contra hne
              exact hchain (not_or.1 hne)
            · exact (canonical_candidate_iff hu).1
                ((validateCanonicalBundles_eq_ok_iff ord _ ()).1 hcan)

/-- A call that succeeds was accepted, and its context was live. -/
theorem accepts_of_applyCanonicalUpdate {ctx : Context}
    (h : (applyCanonicalUpdate ord ctx m u).1 = .ok ()) : Accepts m u := by
  cases ctx with
  | some err => cases h
  | none =>
    by_contra hn
    obtain ⟨f, hf, -⟩ := applyCanonicalUpdate_of_not_accepts ord hn
    rw [hf] at h
    cases h

/-- **The store after a call**: the update's, or the one before. -/
theorem applyCanonicalUpdate_cases (ord : RangeOrder UInt64 BlockBundle) (ctx : Context)
    (m : Memory) (u : CanonicalUpdate) :
    (Accepts m u ∧ applyCanonicalUpdate ord ctx m u = (.ok (), after ord m u)) ∨
      ∃ f, applyCanonicalUpdate ord ctx m u = (.error f, m) := by
  cases ctx with
  | some err => exact Or.inr ⟨err.fault, rfl⟩
  | none =>
    by_cases h : Accepts m u
    · exact Or.inl ⟨h, applyCanonicalUpdate_of_accepts ord h⟩
    · obtain ⟨f, hf, -⟩ := applyCanonicalUpdate_of_not_accepts ord h
      exact Or.inr ⟨f, hf⟩

/-! ## The invariant -/

/-- **What a store keeps**: a canonical window of copies, and no block
before the first update fixed its chain. -/
structure Invariant (m : Memory) : Prop where
  canonical : Canonical m.bundles
  cloned : ∀ {n b}, m.bundles.get? n = some b → cloneBundle b = b
  chain : m.chainID = 0 → m.bundles = ∅

theorem invariant_new : Invariant new where
  canonical := Canonical.empty
  cloned h := by simp [new] at h
  chain _ := rfl

/-- What an accepted update leaves is checked. -/
theorem Accepts.invariant (h : Accepts m u) : Invariant (after ord m u) where
  canonical := (canonical_candidate_iff h.consecutive).2 h.canonical
  cloned hb := by
    rw [after, get?_candidate h.consecutive] at hb
    obtain ⟨c, -, rfl⟩ := Option.map_eq_some_iff.1 hb
    exact cloneBundle_cloneBundle c
  chain h0 := absurd h0 h.chainID

/-- **Every call keeps the invariant**, refused or not. -/
theorem Invariant.apply (hm : Invariant m) (ord : RangeOrder UInt64 BlockBundle) (ctx : Context)
    (u : CanonicalUpdate) : Invariant (applyCanonicalUpdate ord ctx m u).2 := by
  rcases applyCanonicalUpdate_cases ord ctx m u with ⟨h, heq⟩ | ⟨f, heq⟩
  · rw [heq]
    exact h.invariant
  · rw [heq]
    exact hm

/-- The stores that calls of `ApplyCanonicalUpdate`, accepted or not,
reach from an empty one. -/
inductive Reachable : Memory → Prop
  | new : Reachable new
  | apply {m : Memory} (ord : RangeOrder UInt64 BlockBundle) (ctx : Context)
      (u : CanonicalUpdate) (h : Reachable m) : Reachable (applyCanonicalUpdate ord ctx m u).2

/-- So it holds after any calls. -/
theorem Reachable.invariant (h : Reachable m) : Invariant m := by
  induction h with
  | new => exact invariant_new
  | apply ord ctx u _ ih => exact ih.apply ord ctx u

/-! ## Log order -/

theorem comparesBy_byLogIndex : ComparesBy byLogIndex fun e : Event => e.logIndex.toNat :=
  fun a b => by rw [byLogIndex, decide_eq_true_iff, UInt32.lt_iff_toNat_lt]

/-- Events are sorted and copied in either order. -/
theorem sortSlice_byLogIndex_map (l : List Event) :
    sortSlice byLogIndex (l.map cloneEvent) = (sortSlice byLogIndex l).map cloneEvent :=
  sortSlice_map cloneEvent (fun _ _ => rfl) l

/-- Events of a block, sorted, are strictly in log order. -/
theorem pairwise_byLogIndex {b : BlockBundle} (h : WellFormed b) (p : Event → Bool) :
    (sortSlice byLogIndex (b.events.filter p)).Pairwise
      fun e e' => e.logIndex.toNat < e'.logIndex.toNat := by
  refine pairwise_lt_sortSlice comparesBy_byLogIndex ?_
  have hsub : ((b.events.filter p).map Event.logIndex).Nodup :=
    h.logIndex_nodup.sublist (List.filter_sublist.map Event.logIndex)
  rw [← Function.comp_def UInt32.toNat, ← List.map_map]
  exact hsub.map fun _ _ heq => UInt32.toNat_inj.1 heq

/-! ## The tip -/

/-- **The loop for the tip** keeps the highest number seen so far. -/
theorem highest_cons_eq (numbers : List UInt64) (best : UInt64) :
    ∃ n, numbers.foldl (fun best number =>
      match best with
      | none => some number
      | some highest => if number > highest then some number else some highest) (some best) =
        some n ∧ n ∈ best :: numbers ∧ ∀ k ∈ best :: numbers, k ≤ n := by
  induction numbers generalizing best with
  | nil => exact ⟨best, rfl, List.mem_cons_self, by simp⟩
  | cons k numbers ih =>
    rw [List.foldl_cons]
    by_cases hk : k > best
    · obtain ⟨n, hn, hmem, hle⟩ := ih k
      refine ⟨n, by simpa [hk] using hn, List.mem_cons_of_mem _ hmem, fun j hj => ?_⟩
      have hkn := hle k List.mem_cons_self
      rcases List.mem_cons.1 hj with rfl | hj
      · exact UInt64.le_trans (UInt64.le_of_lt hk) hkn
      · exact hle j hj
    · obtain ⟨n, hn, hmem, hle⟩ := ih best
      refine ⟨n, by simpa [hk] using hn, ?_, fun j hj => ?_⟩
      · rcases List.mem_cons.1 hmem with rfl | hmem
        · exact List.mem_cons_self
        · exact List.mem_cons_of_mem _ (List.mem_cons_of_mem _ hmem)
      · have hbn := hle best List.mem_cons_self
        rcases List.mem_cons.1 hj with rfl | hj
        · exact hbn
        · rcases List.mem_cons.1 hj with rfl | hj
          · exact UInt64.le_trans (UInt64.not_lt.1 hk) hbn
          · exact hle j (List.mem_cons_of_mem _ hj)

/-- **The tip read** answers nothing on an empty store and otherwise the
highest block. -/
theorem canonicalTip_cases (ord : RangeOrder UInt64 BlockBundle) (hm : Canonical m.bundles) :
    (m.bundles = ∅ ∧ canonicalTip ord none m = .ok none) ∨
      ∃ b, IsTip m.bundles b ∧
        canonicalTip ord none m = .ok (some b.chainTip) := by
  cases hkeys : ord.keys m.bundles with
  | nil =>
    left
    refine ⟨GoMap.ext_get? fun k => ?_, by simp [canonicalTip, highestBundle, highest, hkeys]⟩
    rw [GoMap.get?_empty, GoMap.get?_eq_none_iff, ← ord.mem_keys, hkeys]
    exact List.not_mem_nil
  | cons k numbers =>
    right
    obtain ⟨n, hn, hmem, hle⟩ := highest_cons_eq numbers k
    rw [← hkeys] at hmem hle
    obtain ⟨b, hb⟩ := (ord.mem_keys_iff_get? _ _).1 hmem
    obtain rfl := hm.number hb
    refine ⟨b, ⟨hb, fun j hj => hle j ((ord.mem_keys _ _).2 hj)⟩, ?_⟩
    have hhighest : highest (ord.keys m.bundles) = some b.block.number := by
      rw [hkeys, highest, List.foldl_cons]
      exact hn
    simp [canonicalTip, highestBundle, hhighest, GoMap.get_of_get? hb, BlockBundle.chainTip]

/-! ## Two stores -/

/-- The store with block 7, and the same store with block 8 appended. -/
def storedSeven : Memory :=
  (applyCanonicalUpdate (ascending BlockBundle) none new putSeven).2

def storedEight : Memory :=
  (applyCanonicalUpdate (ascending BlockBundle) none storedSeven putEight).2

end Memory

end EthIndexer
