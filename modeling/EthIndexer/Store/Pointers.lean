import EthIndexer.Common.Uint
import EthIndexer.Store.Model.Pointers
/-!
# The store shares nothing with its callers

The copies of the source are copies in the sense of memory: they make the
value anew. So an update is stored in memory of the store's own, and an
answer is made in memory of its own. Callers that write to anything they
have, an update they passed or an answer they got, never change what the
store holds; and the store with its pointers answers as the one on values
does.
-/

namespace EthIndexer

namespace Pointers

variable {h h' : Heap Cell}

/-! ## Copies -/

section Copies

variable {α P A : Type}

/-- A pointer is copied with the cell it points to. -/
theorem copies_clonePointer {read : Cell → α} {zero : α} {store : α → Cell}
    (hread : ∀ x, read (store x) = x) :
    Copies (pointer read zero) (clonePointer read zero store) id := by
  have hcopy : Copies (pointer read zero) _ (Option.map id) :=
    ((Copies.plain id).ref hread).option
  rw [Option.map_id] at hcopy
  exact hcopy

/-- The elements of a slice of plain values, read from the heap. -/
theorem elems_view (read : Cell → List α) (s : Option ℕ) (h : Heap Cell) :
    Slice.elems ((pointer read []).view h s) = elems read s h := by
  cases s <;> rfl

/-- A nil pointer is made of nothing. -/
theorem made_nil {read : Cell → α} {zero : α} (hh : h <+: h') :
    Made (pointer read zero) h h' none none :=
  ⟨hh, rfl, fun c hc => by obtain ⟨q, hq, -⟩ := hc; cases hq⟩

/-- A pointer is made with the cell it points to. -/
theorem made_some {read : Cell → α} {zero : α} {a : ℕ} {x : α}
    (ha : Made (Shape.ref read zero (.plain Cell α)) h h' a x) :
    Made (pointer read zero) h h' (some a) (some x) := by
  refine ha.change (congrArg some ha.view) ?_
  rintro c ⟨q, hq, hc⟩
  cases hq
  exact hc

/-- A slice of plain values is copied with its backing array. -/
theorem copies_cloneSlice {read : Cell → List α} {store : List α → Cell}
    (hread : ∀ l, read (store l) = l) :
    Copies (pointer read []) (cloneSlice read store) EthIndexer.cloneSlice := by
  intro h s _
  have hrun : cloneSlice read store s h = appendNil store (elems read s h) h := rfl
  rw [Makes, hrun, EthIndexer.cloneSlice, elems_view]
  cases elems read s h with
  | nil => exact made_nil (List.prefix_refl h)
  | cons x xs => exact made_some ((Made.plain (List.prefix_refl h) (x :: xs)).alloc (hread _))

/-- A slice is seen as the list of what its elements are seen as. -/
theorem view_slice (read : Cell → List P) (S : Shape Cell P A) (h : Heap Cell) (s : Option ℕ) :
    (slice read S).view h s = S.list.view h (elems read s h) := by
  cases s <;> rfl

/-- The elements of a valid slice are valid. -/
theorem valid_elems {read : Cell → List P} {S : Shape Cell P A} {s : Option ℕ}
    (hs : (slice read S).Valid h s) : S.list.Valid h (elems read s h) := by
  cases s with
  | none =>
    rintro c ⟨p, hp, -⟩
    cases hp
  | some a => exact fun c hc => hs c ⟨a, rfl, Set.mem_insert_of_mem a hc⟩

/-- `make([]T, len(s))`, filled with the copies of the elements. -/
theorem copies_slice {read : Cell → List P} {S : Shape Cell P A} {store : List P → Cell}
    {copy : P → Prog P} {f : A → A} (hread : ∀ l, read (store l) = l) (hcopy : Copies S copy f) :
    Copies (slice read S)
      (fun s => do
        let l ← (← loadElems read s).mapM copy
        return some (← Heap.alloc (store l)))
      (List.map f) := by
  intro h s hs
  rw [view_slice]
  have hmade : Made (Shape.ref read [] S.list) _ _ _ _ :=
    (hcopy.list h _ (valid_elems hs)).alloc (hread _)
  refine hmade.change hmade.view ?_
  rintro c ⟨q, hq, hc⟩
  cases hq
  exact hc

end Copies

theorem copies_cloneBigInt : Copies (pointer Cell.asBigInt 0) cloneBigInt id :=
  copies_clonePointer fun _ => rfl

theorem copies_cloneAddress : Copies (pointer Cell.asAddress default) cloneAddress id :=
  copies_clonePointer fun _ => rfl

/-- A block is copied with its base fee. -/
theorem copies_cloneBlock : Copies Block.shape cloneBlock id := by
  let build (b : Block) (p : Option ℕ) : Block := { b with baseFeePerGas := p }
  have hparts : ∀ b p, (build b p).baseFeePerGas = p := fun _ _ => rfl
  exact copies_cloneBigInt.record hparts fun _ _ _ => rfl

/-- A transaction is copied with its recipient, its amounts and its
input. -/
theorem copies_cloneTransaction :
    Copies Transaction.shape cloneTransaction EthIndexer.cloneTransaction := by
  have hinput : Copies (pointer Cell.asBytes []) (cloneSlice Cell.asBytes .bytes) _ :=
    copies_cloneSlice fun _ => rfl
  have hcopy := copies_cloneAddress.pair (copies_cloneBigInt.pair (copies_cloneBigInt.pair
    (copies_cloneBigInt.pair (copies_cloneBigInt.pair hinput))))
  let build (t : Transaction) (p : Transaction.Parts) : Transaction := { t with
    recipient := p.1, value := p.2.1, gasPrice := p.2.2.1, maxFeePerGas := p.2.2.2.1,
    maxPriorityFeePerGas := p.2.2.2.2.1, input := p.2.2.2.2.2 }
  have hbuild : ∀ t p, (build t p).parts = p := fun _ _ => rfl
  exact hcopy.record hbuild fun _ _ _ => rfl

/-- An event is copied with its topics and its data. -/
theorem copies_cloneEvent : Copies Event.shape cloneEvent EthIndexer.cloneEvent := by
  have htopics : Copies (pointer Cell.asHashes []) (cloneSlice Cell.asHashes .hashes) _ :=
    copies_cloneSlice fun _ => rfl
  have hdata : Copies (pointer Cell.asBytes []) (cloneSlice Cell.asBytes .bytes) _ :=
    copies_cloneSlice fun _ => rfl
  let build (e : Event) (p : Option ℕ × Option ℕ) : Event := { e with topics := p.1, data := p.2 }
  have hbuild : ∀ e p, (build e p).parts = p := fun _ _ => rfl
  exact (htopics.pair hdata).record hbuild fun _ _ _ => rfl

/-- **A bundle is copied to the bottom**: nothing that it reaches is shared
with the copy. -/
theorem copies_cloneBundle : Copies BlockBundle.shape cloneBundle EthIndexer.cloneBundle := by
  have htransactions : ∀ l, (Cell.transactions l).asTransactions = l := fun _ => rfl
  have hevents : ∀ l, (Cell.events l).asEvents = l := fun _ => rfl
  have hslices := (copies_slice htransactions copies_cloneTransaction).pair
    (copies_slice hevents copies_cloneEvent)
  let build (_ : BlockBundle) (p : Block × Option ℕ × Option ℕ) : BlockBundle :=
    { block := p.1, transactions := p.2.1, events := p.2.2 }
  have hbuild : ∀ b p, (build b p).parts = p := fun _ _ => rfl
  exact (copies_cloneBlock.pair hslices).record hbuild fun _ _ _ => rfl

/-! ## The map of the store -/

/-- Looking up a bundle and then reading it, or the other way round. -/
theorem get_view (h : Heap Cell) (bundles : BundleMap) (n : UInt64) :
    (bundleMap.view h bundles).get n = BlockBundle.shape.view h (bundles.get n) := by
  unfold GoMap.get bundleMap
  rw [Shape.get?_view]
  cases bundles.get? n <;> rfl

/-- The zero bundle points nowhere. -/
theorem valid_default (h : Heap Cell) : BlockBundle.shape.Valid h default := by
  rintro c (⟨q, hq, -⟩ | ⟨q, hq, -⟩ | ⟨q, hq, -⟩) <;> cases hq

/-- What is looked up in a valid map is valid. -/
theorem valid_get {bundles : BundleMap} (hbundles : bundleMap.Valid h bundles) (n : UInt64) :
    BlockBundle.shape.Valid h (bundles.get n) := by
  unfold GoMap.get
  cases hn : bundles.get? n with
  | none => exact valid_default h
  | some b => exact fun c hc => hbundles c ⟨n, b, hn, hc⟩

theorem made_empty (h : Heap Cell) : Made bundleMap h h ∅ ∅ := by
  refine ⟨List.prefix_refl h, GoMap.ext_get? fun n => ?_, ?_⟩
  · rw [bundleMap, Shape.get?_view, GoMap.get?_empty, GoMap.get?_empty]
    rfl
  · rintro c ⟨n, b, hb, -⟩
    cases hb

/-- A map keeps being freshly made when a fresh bundle is set. -/
theorem made_set {bundles : BundleMap} {B : EthIndexer.BundleMap} {p : BlockBundle}
    {b : EthIndexer.BlockBundle} (hbundles : Made bundleMap h h' bundles B)
    (hp : Made BlockBundle.shape h h' p b) (n : UInt64) :
    Made bundleMap h h' (bundles.set n p) (B.set n b) := by
  refine ⟨hp.later, ?_, fun c hc => ?_⟩
  · rw [bundleMap, Shape.view_set, hp.view]
    exact congrArg (GoMap.set · n b) hbundles.view
  · rcases Shape.cells_set h' bundles n p hc with hc | hc
    · exact hbundles.fresh c hc
    · exact hp.fresh c hc

/-- A map keeps being freshly made when bundles are deleted. -/
theorem made_deleteWhere {bundles : BundleMap} {B : EthIndexer.BundleMap}
    (hbundles : Made bundleMap h h' bundles B) (test : UInt64 → Bool) {keys keys' : List UInt64}
    (hkeys : keys = keys') :
    Made bundleMap h h' (bundles.deleteWhere test keys) (B.deleteWhere test keys') := by
  subst hkeys
  refine hbundles.change ?_ (Shape.cells_deleteWhere h' bundles test keys)
  rw [bundleMap, Shape.view_deleteWhere]
  exact congrArg (GoMap.deleteWhere test keys) hbundles.view

/-- A map keeps being freshly made when fresh bundles are set one by
one. -/
theorem made_setAll {bundles : BundleMap} {B : EthIndexer.BundleMap} {ps : List BlockBundle}
    {bs : List EthIndexer.BlockBundle} (hbundles : Made bundleMap h h' bundles B)
    (hps : Made BlockBundle.shape.list h h' ps bs) :
    Made bundleMap h h' (bundles.setAll (fun b => b.block.number) ps)
      (B.setAll (fun b => b.block.number) bs) := by
  refine ⟨hps.later, ?_, fun c hc => ?_⟩
  · refine (Shape.view_setAll h' (fun b : BlockBundle => b.block.number)
      (fun b : EthIndexer.BlockBundle => b.block.number) (fun _ => rfl) ps bundles).trans ?_
    rw [hps.view]
    exact congrArg (GoMap.setAll _ bs) hbundles.view
  · rcases Shape.cells_setAll h' _ ps bundles hc with hc | hc
    · exact hbundles.fresh c hc
    · exact hps.fresh c hc

namespace Memory

variable {ord : RangeOrder UInt64 EthIndexer.BlockBundle} {ctx : Context} {m : Memory}
  {update : CanonicalUpdate}

/-- **The candidate is a fresh copy** of the stored bundles. -/
theorem makes_cloneBundles {source : BundleMap} (hsource : bundleMap.Valid h source) :
    Makes bundleMap h (cloneBundles ord source)
      (EthIndexer.Memory.cloneBundles ord (bundleMap.view h source)) := by
  refine (made_empty h).foldlM fun n _ h₁ cloned B hcloned => ?_
  have hbundle := copies_cloneBundle.later (valid_get hsource n) hcloned.later
  rw [← get_view] at hbundle
  exact made_set (hcloned.keep hbundle.later) (hbundle.since hcloned.later) n

/-- **The candidate is made of copies.** -/
theorem makes_candidate (hm : Memory.shape.Valid h m) (hu : CanonicalUpdate.shape.Valid h update) :
    Makes bundleMap h (candidate ord m update)
      (EthIndexer.Memory.candidate ord (Memory.shape.view h m)
        (CanonicalUpdate.shape.view h update)) := by
  have hcloned : Makes bundleMap h (cloneBundles ord m.bundles) _ := makes_cloneBundles hm
  have hslice : (slice Cell.asBundles BlockBundle.shape).Valid h update.blocks := hu
  -- The update is read when the store has been copied.
  have hblocks := copies_cloneBundle.list _ _ (valid_elems (hslice.later hcloned.later))
  rw [← view_slice, (hslice.frame hcloned.later).1] at hblocks
  have hkept := made_deleteWhere hcloned (fun number => decide (number ≥ update.replaceFrom ∨
    number < update.retainFrom)) (congrArg ord.keys hcloned.view)
  exact made_setAll (hkept.keep hblocks.later) (hblocks.since hcloned.later)

/-! ## Calls -/

/-- What a call leaves of the store: a value, in addresses that it had
before or that are new. -/
structure Kept (h h' : Heap Cell) (m m' : Memory) (a : EthIndexer.Memory) : Prop where
  later : h <+: h'
  view : Memory.shape.view h' m' = a
  valid : Memory.shape.Valid h' m'
  cells : ∀ c ∈ Memory.shape.cells h' m', c ∈ Memory.shape.cells h m ∨ h.length ≤ c

/-- A store that is left alone is what it was. -/
theorem kept_same (hm : Memory.shape.Valid h m) (hh : h <+: h') :
    Kept h h' m m (Memory.shape.view h m) := by
  have hkept := hm.frame hh
  exact ⟨hh, hkept.1, hm.later hh, fun c hc => Or.inl (hkept.2 ▸ hc)⟩

/-- A store whose bundles are fresh shares nothing with what was there
before. -/
theorem kept_made {bundles : BundleMap} {B : EthIndexer.BundleMap}
    (hbundles : Made bundleMap h h' bundles B) (chainID : UInt64) (syncedAt : Time) :
    Kept h h' m ⟨chainID, bundles, syncedAt⟩ ⟨chainID, B, syncedAt⟩ :=
  ⟨hbundles.later, congrArg (EthIndexer.Memory.mk chainID · syncedAt) hbundles.view,
    hbundles.valid, fun c hc => Or.inr (hbundles.fresh c hc).1⟩

/-- An update with pointers has done what one on values does. -/
structure Applied (h : Heap Cell) (m : Memory) (r : (Go Unit × Memory) × Heap Cell)
    (a : Go Unit × EthIndexer.Memory) : Prop where
  answer : r.1.1 = a.1
  kept : Kept h r.2 m r.1.2 a.2

variable (ord ctx)

/-- **An update with pointers is the update of the values.** -/
theorem applied_applyCanonicalUpdate (hm : Memory.shape.Valid h m)
    (hu : CanonicalUpdate.shape.Valid h update) :
    Applied h m (applyCanonicalUpdate ord ctx m update h)
      ((Memory.shape.view h m).applyCanonicalUpdate ord ctx
        (CanonicalUpdate.shape.view h update)) := by
  have hsame := kept_same hm (List.prefix_refl h)
  have hcandidate : Makes bundleMap h (candidate ord m update) _ := makes_candidate hm hu
  unfold applyCanonicalUpdate EthIndexer.Memory.applyCanonicalUpdate
  cases ctx with
  | some err => exact ⟨rfl, hsame⟩
  | none =>
    -- the checks read numbers, which are the same in the values
    by_cases hchain : update.chainID = 0
    · rw [if_pos hchain, if_pos (c := (CanonicalUpdate.shape.view h update).chainID = 0) hchain]
      exact ⟨rfl, hsame⟩
    rw [if_neg hchain, if_neg (c := (CanonicalUpdate.shape.view h update).chainID = 0) hchain]
    by_cases hretain : update.retainFrom > update.replaceFrom
    · rw [if_pos hretain, if_pos (c := (CanonicalUpdate.shape.view h update).retainFrom >
        (CanonicalUpdate.shape.view h update).replaceFrom) hretain]
      exact ⟨rfl, hsame⟩
    rw [if_neg hretain, if_neg (c := (CanonicalUpdate.shape.view h update).retainFrom >
      (CanonicalUpdate.shape.view h update).replaceFrom) hretain]
    change Applied h m
      (replace ord m update (validateReplacement (CanonicalUpdate.shape.view h update)) h) _
    cases validateReplacement (CanonicalUpdate.shape.view h update) with
    | error err => exact ⟨rfl, hsame⟩
    | ok _ =>
      dsimp only [replace]
      by_cases hother : m.chainID ≠ 0 ∧ m.chainID ≠ update.chainID
      · rw [if_pos hother, if_pos (c := (Memory.shape.view h m).chainID ≠ 0 ∧
          (Memory.shape.view h m).chainID ≠ (CanonicalUpdate.shape.view h update).chainID) hother]
        exact ⟨rfl, hsame⟩
      rw [if_neg hother, if_neg (c := (Memory.shape.view h m).chainID ≠ 0 ∧
        (Memory.shape.view h m).chainID ≠ (CanonicalUpdate.shape.view h update).chainID) hother]
      change Applied h m (commit m update (candidate ord m update h).1 (validateCanonicalBundles ord
        (bundleMap.view (candidate ord m update h).2 (candidate ord m update h).1)),
          (candidate ord m update h).2) _
      rw [hcandidate.view]
      cases validateCanonicalBundles ord ((Memory.shape.view h m).candidate ord
        (CanonicalUpdate.shape.view h update)) with
      | error err => exact ⟨rfl, kept_same hm hcandidate.later⟩
      | ok _ => exact ⟨rfl, kept_made hcandidate _ _⟩

/-! ## Queries -/

theorem bundles_view (h : Heap Cell) (m : Memory) :
    (Memory.shape.view h m).bundles = bundleMap.view h m.bundles := rfl

/-- Looking a block up in the store as it is seen. -/
theorem get?_bundles_view (h : Heap Cell) (m : Memory) (n : UInt64) :
    (Memory.shape.view h m).bundles.get? n = (m.bundles.get? n).map (BlockBundle.shape.view h) :=
  Shape.get?_view h m.bundles n

/-- The transactions of a stored bundle, read from the heap. -/
theorem transactions_view (h : Heap Cell) (b : BlockBundle) :
    (BlockBundle.shape.view h b).transactions =
      Transaction.shape.list.view h (elems Cell.asTransactions b.transactions h) :=
  view_slice _ _ h b.transactions

/-- The events of a stored bundle, read from the heap. -/
theorem events_view (h : Heap Cell) (b : BlockBundle) :
    (BlockBundle.shape.view h b).events =
      Event.shape.list.view h (elems Cell.asEvents b.events h) :=
  view_slice _ _ h b.events

theorem valid_transactions {b : BlockBundle} (hb : BlockBundle.shape.Valid h b) :
    Transaction.shape.list.Valid h (elems Cell.asTransactions b.transactions h) :=
  valid_elems fun c hc => hb c (Or.inr (Or.inl hc))

theorem valid_events {b : BlockBundle} (hb : BlockBundle.shape.Valid h b) :
    Event.shape.list.Valid h (elems Cell.asEvents b.events h) :=
  valid_elems fun c hc => hb c (Or.inr (Or.inr hc))

/-- **A block is answered with a copy**, which shares nothing with the
store. -/
theorem makes_blockByNumber (hm : Memory.shape.Valid h m) (number : UInt64) :
    Makes (BlockResult.shape.except Fault) h (blockByNumber ctx m number)
      ((Memory.shape.view h m).blockByNumber ctx number) := by
  unfold blockByNumber EthIndexer.Memory.blockByNumber
  cases ctx with
  | some err => exact .error (List.prefix_refl h) _
  | none =>
    dsimp only
    rw [get?_bundles_view]
    cases hb : m.bundles.get? number with
    | none => exact .error (List.prefix_refl h) _
    | some bundle =>
      have hvalid : BlockBundle.shape.Valid h bundle := fun c hc => hm c ⟨number, bundle, hb, hc⟩
      have hhashes : Made (Shape.ref Cell.asHashes [] (.plain Cell (List Hash))) h _ _ _ :=
        (Made.plain (List.prefix_refl h) ((elems Cell.asTransactions bundle.transactions h).map
          Transaction.hash)).alloc (v := .hashes _) rfl
      have hblock := copies_cloneBlock.later (fun c hc => hvalid c (Or.inl hc)) hhashes.later
      refine Made.ok
        (Made.record ((hblock.since hhashes.later).pair (hhashes.keep hblock.later)) ?_)
      rw [transactions_view, Shape.view_list, List.map_map]
      rfl

/-- Sorting goes through no other addresses, and sees no pointers. -/
theorem made_sortSlice (less : Event → Event → Bool)
    (less' : EthIndexer.Event → EthIndexer.Event → Bool) {es : List Event}
    {E : List EthIndexer.Event} (hes : Made Event.shape.list h h' es E)
    (hless : ∀ a b, less' (Event.shape.view h' a) (Event.shape.view h' b) = less a b) :
    Made Event.shape.list h h' (sortSlice less es) (sortSlice less' E) := by
  refine hes.change ?_ ?_
  · rw [← hes.view, Shape.view_list, Shape.view_list, sortSlice_map _ hless]
  · rintro c ⟨e, he, hc⟩
    exact ⟨e, mem_sortSlice.1 he, hc⟩

/-- The slice of an answer. -/
theorem made_events {es : List Event} {E : List EthIndexer.Event}
    (hes : Made Event.shape.list h h' es E) :
    Made (Shape.ref Cell.asEvents [] Event.shape.list) h (h' ++ [.events es]) h'.length E :=
  hes.alloc rfl

/-- The search for a transaction finds on the heap what it finds in the
view. -/
theorem find_view (h : Heap Cell) (m : Memory) (hash : Hash) :
    ((ord.keys (Memory.shape.view h m).bundles).findSome? fun number =>
      (((Memory.shape.view h m).bundles.get number).transactions.find? fun t => t.hash = hash).map
        fun t => ((Memory.shape.view h m).bundles.get number, t)) =
      (findTransaction ord m hash h).map
        (Prod.map (BlockBundle.shape.view h) (Transaction.shape.view h)) := by
  rw [findTransaction, List.map_findSome?]
  refine congrArg (List.findSome? · _) (funext fun number => ?_)
  rw [Function.comp_apply, bundles_view, get_view, transactions_view, Shape.view_list,
    List.find?_map, Option.map_map, Option.map_map]
  rfl

/-- What the search finds is valid. -/
theorem valid_of_findTransaction (hm : Memory.shape.Valid h m) {hash : Hash} {b : BlockBundle}
    {t : Transaction} (hfound : findTransaction ord m hash h = some (b, t)) :
    BlockBundle.shape.Valid h b ∧ Transaction.shape.Valid h t := by
  obtain ⟨number, -, hnumber⟩ := List.exists_of_findSome?_eq_some hfound
  obtain ⟨t', ht', heq⟩ := Option.map_eq_some_iff.1 hnumber
  cases heq
  have hb : BlockBundle.shape.Valid h (m.bundles.get number) := valid_get hm number
  exact ⟨hb, fun c hc => valid_transactions hb c ⟨t, List.mem_of_find?_eq_some ht', hc⟩⟩

/-- **A transaction is answered with a copy**, and so are its events. -/
theorem makes_transactionByHash (hm : Memory.shape.Valid h m) (hash : Hash) :
    Makes (TransactionResult.shape.except Fault) h (transactionByHash ord ctx m hash)
      ((Memory.shape.view h m).transactionByHash ord ctx hash) := by
  unfold transactionByHash EthIndexer.Memory.transactionByHash
  cases ctx with
  | some err => exact .error (List.prefix_refl h) _
  | none =>
    dsimp only
    rw [find_view]
    change Makes _ h (transactionAnswer hash (findTransaction ord m hash h)) _
    cases hfound : findTransaction ord m hash h with
    | none => exact .error (List.prefix_refl h) _
    | some found =>
      obtain ⟨b, t⟩ := found
      obtain ⟨hb, ht⟩ := valid_of_findTransaction ord hm hfound
      have hevents := copies_cloneEvent.list h
        ((elems Cell.asEvents b.events h).filter fun e => e.transactionHash = hash) fun c hc => by
          obtain ⟨e, he, hc⟩ := hc
          exact valid_events hb c ⟨e, List.mem_of_mem_filter he, hc⟩
      have htransaction := copies_cloneTransaction.later ht hevents.later
      have hslice := made_events (made_sortSlice byLogIndex EthIndexer.Memory.byLogIndex
        (hevents.keep htransaction.later) fun _ _ => rfl)
      refine Made.ok (Made.record
        (((htransaction.since hevents.later).keep (List.prefix_append _ _)).pair hslice) ?_)
      dsimp only [Prod.map]
      rw [events_view, Shape.view_list, Shape.view_list, List.filter_map]
      rfl

/-- A page of fresh events is fresh. -/
theorem made_pageOf {es : List Event} {E : List EthIndexer.Event}
    (hes : Made Event.shape.list h h' es E) (limit : UInt32) :
    Made (EventPage.shape.except Fault) h (pageOf limit es h').2 (pageOf limit es h').1
      (if limit = 0 ∨ E.length = 0 then .ok { events := [], nextCursor := none }
      else if E.length ≤ limit.toNat then .ok { events := E, nextCursor := none }
      else .ok { events := E.take limit.toNat
                 nextCursor := (E.take limit.toNat).getLast?.map EthIndexer.Memory.cursorOf }) := by
  have hE : E = es.map (Event.shape.view h') := hes.view.symm
  have hlength : es.length = E.length := by rw [hE, List.length_map]
  unfold pageOf
  rw [hlength]
  by_cases hnone : limit = 0 ∨ E.length = 0
  · rw [if_pos hnone, if_pos hnone]
    have hnil : Made Event.shape.list h h' [] [] := hes.change rfl fun c hc => by
      obtain ⟨e, he, -⟩ := hc
      cases he
    exact Made.ok (Made.record (made_events hnil) rfl)
  rw [if_neg hnone, if_neg hnone]
  by_cases hfits : E.length ≤ limit.toNat
  · rw [if_pos hfits, if_pos hfits]
    exact Made.ok (Made.record (made_events hes) rfl)
  · rw [if_neg hfits, if_neg hfits]
    have htake : Made Event.shape.list h h' (es.take limit.toNat) (E.take limit.toNat) := by
      refine hes.change (by rw [hE, Shape.view_list, List.map_take]) ?_
      rintro c ⟨e, he, hc⟩
      exact ⟨e, List.mem_of_mem_take he, hc⟩
    refine Made.ok (Made.record (made_events htake) ?_)
    rw [hE, ← List.map_take, List.getLast?_map, Option.map_map]
    rfl

/-- The events of an address below a cursor, read from the heap. -/
theorem selectedEvents_view (h : Heap Cell) (m : Memory) (query : EventQuery) :
    (Memory.shape.view h m).selectedEvents ord query =
      (Event.shape.list.view h (selectedEvents ord m query h)).map EthIndexer.cloneEvent := by
  rw [EthIndexer.Memory.selectedEvents, selectedEvents, Shape.view_list, List.map_flatMap,
    List.map_flatMap]
  refine congrArg (List.flatMap · _) (funext fun number => ?_)
  rw [bundles_view, get_view, events_view, Shape.view_list, List.filter_map]
  rfl

/-- The events that are selected are valid. -/
theorem valid_selectedEvents (hm : Memory.shape.Valid h m) (query : EventQuery) :
    Event.shape.list.Valid h (selectedEvents ord m query h) := by
  rintro c ⟨e, he, hc⟩
  obtain ⟨number, -, he⟩ := List.mem_flatMap.1 he
  have hb : BlockBundle.shape.Valid h (m.bundles.get number) := valid_get hm number
  exact valid_events hb c ⟨e, List.mem_of_mem_filter he, hc⟩

/-- Whether a cursor is stale does not depend on any cell. -/
theorem stale_view (h : Heap Cell) (m : Memory) (before : Option EventCursor) :
    (before.any fun cursor => ((Memory.shape.view h m).bundles.get? cursor.blockNumber).all
      fun bundle => decide (bundle.block.hash ≠ cursor.blockHash)) =
    before.any fun cursor => (m.bundles.get? cursor.blockNumber).all
      fun bundle => decide (bundle.block.hash ≠ cursor.blockHash) := by
  refine congrArg (Option.any · before) (funext fun cursor => ?_)
  rw [get?_bundles_view, Option.all_map]
  rfl

/-- **A page is answered with copies** of its events. -/
theorem makes_eventsByAddress (hm : Memory.shape.Valid h m) (query : EventQuery) :
    Makes (EventPage.shape.except Fault) h (eventsByAddress ord ctx m query)
      ((Memory.shape.view h m).eventsByAddress ord ctx query) := by
  unfold eventsByAddress EthIndexer.Memory.eventsByAddress
  cases ctx with
  | some err => exact .error (List.prefix_refl h) _
  | none =>
    dsimp only
    rw [stale_view, selectedEvents_view]
    by_cases hlimit : query.limit > maxEventPageSize
    · rw [if_pos hlimit, if_pos hlimit]
      exact .error (List.prefix_refl h) _
    rw [if_neg hlimit, if_neg hlimit]
    by_cases hstale : (query.before.any fun cursor =>
      (m.bundles.get? cursor.blockNumber).all fun bundle =>
        decide (bundle.block.hash ≠ cursor.blockHash)) = true
    · rw [if_pos hstale, if_pos hstale]
      exact .error (List.prefix_refl h) _
    rw [if_neg hstale, if_neg hstale]
    have hvalid : Event.shape.list.Valid h (selectedEvents ord m query h) :=
      valid_selectedEvents ord hm query
    have hevents := copies_cloneEvent.list h _ hvalid
    exact made_pageOf (made_sortSlice newestFirst EthIndexer.Memory.newestFirst hevents
      fun _ _ => rfl) query.limit

/-! ## Callers -/

/-- What a call leaves: the answer of the store on values, a store in
memory of its own, and an answer that goes through nothing of it. -/
structure Answered (h h' : Heap Cell) (m m' : Memory) (r : Reply)
    (a : EthIndexer.Memory.Reply × EthIndexer.Memory) : Prop where
  reply : r.view h' = a.1
  kept : Kept h h' m m' a.2
  apart : ∀ c ∈ r.cells h', c < h'.length ∧ c ∉ Memory.shape.cells h' m'

/-- Nothing made since is the store's. -/
theorem apart_of_made {P A : Type} {S : Shape Cell P A} {p : P} {a : A}
    (hm : Memory.shape.Valid h m) (hp : Made S h h' p a) {c : ℕ} (hc : c ∈ S.cells h' p) :
    c < h'.length ∧ c ∉ Memory.shape.cells h' m := by
  obtain ⟨hle, hlt⟩ := hp.fresh c hc
  refine ⟨hlt, fun hmem => ?_⟩
  rw [(hm.frame hp.later).2] at hmem
  exact absurd (hm c hmem) (Nat.not_lt.2 hle)

/-- **Every method answers as on values**, and neither its answer nor the
store it leaves shares a cell with what the caller has. -/
theorem answered_call (hm : Memory.shape.Valid h m) {c : Call}
    (hc : ∀ a ∈ c.cells h, a < h.length) :
    Answered h (m.call ord ctx c h).2 m (m.call ord ctx c h).1.2 (m.call ord ctx c h).1.1
      ((Memory.shape.view h m).call ord ctx (c.view h)) := by
  have hsame := kept_same hm (List.prefix_refl h)
  cases c with
  | canonicalTip => exact ⟨rfl, hsame, fun c hc => absurd hc (Set.notMem_empty c)⟩
  | canonicalHash number => exact ⟨rfl, hsame, fun c hc => absurd hc (Set.notMem_empty c)⟩
  | applyCanonicalUpdate update =>
    obtain ⟨hanswer, hkept⟩ := applied_applyCanonicalUpdate ord ctx hm hc
    exact ⟨congrArg StoreReply.applied hanswer, hkept, fun c hc => absurd hc (Set.notMem_empty c)⟩
  | blockByNumber number =>
    have hmakes := makes_blockByNumber ctx hm number
    exact ⟨congrArg StoreReply.block hmakes.view, kept_same hm hmakes.later,
      fun c hc => apart_of_made hm hmakes hc⟩
  | transactionByHash hash =>
    have hmakes := makes_transactionByHash ord ctx hm hash
    exact ⟨congrArg StoreReply.transaction hmakes.view, kept_same hm hmakes.later,
      fun c hc => apart_of_made hm hmakes hc⟩
  | eventsByAddress query =>
    have hmakes := makes_eventsByAddress ord ctx hm query
    exact ⟨congrArg StoreReply.page hmakes.view, kept_same hm hmakes.later,
      fun c hc => apart_of_made hm hmakes hc⟩

end Memory

/-- The store is the one the calls leave on values, and nobody outside has
an address of it. -/
structure Inv (t : List Entry) (s : State) : Prop where
  replay : replayed t = (t.map Entry.reply, Memory.shape.view s.heap s.memory)
  valid : Memory.shape.Valid s.heap s.memory
  hidden : ∀ a ∈ s.known, a ∉ Memory.shape.cells s.heap s.memory
  allocated : ∀ a ∈ s.known, a < s.heap.length

variable {t : List Entry} {s : State}

/-- A new store shares nothing. -/
theorem inv_new : Inv [] ⟨[], .new, ∅⟩ where
  replay := by
    have hview : Memory.shape.view [] .new = EthIndexer.Memory.new :=
      congrArg (EthIndexer.Memory.mk 0 · 0) (made_empty []).view
    rw [hview]
    rfl
  valid := (made_empty []).valid
  hidden a ha := absurd ha (Set.notMem_empty a)
  allocated a ha := absurd ha (Set.notMem_empty a)

/-- The caller may allocate what it likes. -/
theorem Inv.alloc (h : Inv t s) (v : Cell) :
    Inv t { s with heap := s.heap ++ [v], known := insert s.heap.length s.known } := by
  have hprefix := List.prefix_append s.heap [v]
  obtain ⟨hview, hcells⟩ := h.valid.frame hprefix
  refine ⟨h.replay.trans (by rw [hview]), h.valid.later hprefix, ?_, ?_⟩
  · intro a ha hmem
    rw [hcells] at hmem
    rcases ha with rfl | ha
    · exact Nat.lt_irrefl _ (h.valid _ hmem)
    · exact h.hidden a ha hmem
  · intro a ha
    rw [List.length_append]
    rcases ha with rfl | ha
    · exact Nat.lt_succ_self _
    · exact Nat.lt_succ_of_lt (h.allocated a ha)

/-- **The caller may write where it likes**: to every cell that it knows,
and the store does not see it. -/
theorem Inv.write (h : Inv t s) {a : ℕ} (ha : a ∈ s.known) (v : Cell) :
    Inv t { s with heap := s.heap.set a v } := by
  obtain ⟨hview, hcells⟩ := Shape.frame_set (h.hidden a ha) v
  refine ⟨h.replay.trans (by rw [hview]), ?_, ?_, ?_⟩
  · intro c hc
    rw [hcells] at hc
    rw [List.length_set]
    exact h.valid c hc
  · intro c hc
    rw [hcells]
    exact h.hidden c hc
  · intro c hc
    rw [List.length_set]
    exact h.allocated c hc

/-- A call keeps the two sides apart. -/
theorem Inv.call (h : Inv t s) (ord : RangeOrder UInt64 EthIndexer.BlockBundle) (ctx : Context)
    {c : Call} (hc : c.cells s.heap ⊆ s.known) :
    Inv (t ++ [(s.called ord ctx c).1]) (s.called ord ctx c).2 := by
  have hcall := Memory.answered_call ord ctx h.valid fun a ha => h.allocated a (hc ha)
  refine ⟨?_, hcall.kept.valid, ?_, ?_⟩
  · rw [replayed, List.foldl_append]
    change Entry.replay (replayed t) _ = _
    rw [h.replay, List.map_append]
    exact Prod.ext (congrArg (t.map Entry.reply ++ [·]) hcall.reply.symm) hcall.kept.view.symm
  · rintro a (ha | ha) hmem
    · rcases hcall.kept.cells a hmem with hold | hnew
      · exact h.hidden a ha hold
      · exact absurd (h.allocated a ha) (Nat.not_lt.2 hnew)
    · exact (hcall.apart a ha).2 hmem
  · rintro a (ha | ha)
    · exact Nat.lt_of_lt_of_le (h.allocated a ha) hcall.kept.later.length_le
    · exact (hcall.apart a ha).1

/-- Caller and store stay apart over any run. -/
theorem Reached.inv (h : Reached t s) : Inv t s := by
  induction h with
  | new => exact inv_new
  | alloc _ v ih => exact ih.alloc v
  | write _ ha v ih => exact ih.write ha v
  | call _ ord ctx hc ih => exact ih.call ord ctx hc

/-- **The store shares nothing with its callers.** Whatever they write to
what they passed and to what they were given, every call is answered as the
store on values answers it, the store holds what that one holds, and no
address of it is known outside. -/
theorem Reached.isolated (h : Reached t s) :
    replayed t = (t.map Entry.reply, Memory.shape.view s.heap s.memory) ∧
      ∀ a ∈ s.known, a ∉ Memory.shape.cells s.heap s.memory :=
  ⟨h.inv.replay, h.inv.hidden⟩

/-- Block 7, its base fee at address 0. -/
def pointedSeven : BlockBundle where
  block :=
    { number := 7, hash := .spelling 7, parentHash := .spelling 6, timestamp := 0, gasLimit := 0
      gasUsed := 0, baseFeePerGas := some 0, transactionCount := 0, indexedAt := 0 }
  transactions := none
  events := none

/-- The update with block 7 reaches its two cells. -/
theorem cells_pointedSeven {h : Heap Cell} (hh : h.deref Cell.asBundles [] 1 = [pointedSeven]) :
    CanonicalUpdate.shape.cells h ⟨1, 7, 7, some 1, 0⟩ ⊆ insert 1 (insert 0 ∅) := by
  rintro a ⟨p, hp, ha⟩
  cases hp
  rcases ha with rfl | ⟨b, hb, ha⟩
  · exact Or.inl rfl
  rw [hh] at hb
  cases List.mem_singleton.1 hb
  rcases ha with ⟨p, hp, ha⟩ | ⟨p, hp, -⟩ | ⟨p, hp, -⟩
  · cases hp
    rcases ha with rfl | ha
    · exact Or.inr (Or.inl rfl)
    · exact absurd ha (Set.notMem_empty a)
  · cases hp
  · cases hp

/-- A caller stores block 7, then overwrites its base fee of 5 and the
update; the store still has them. -/
theorem isolated_overwritten :
    ∃ t s, Reached t s ∧ t.length = 2 ∧
      replayed t = (t.map Entry.reply, Memory.shape.view s.heap s.memory) ∧
      ((Memory.shape.view s.heap s.memory).bundles.get 7).block.baseFeePerGas = some 5 := by
  have hstart : Reached [] ⟨[.bigInt 5, .bundles [pointedSeven]], .new, insert 1 (insert 0 ∅)⟩ :=
    (Reached.new.alloc (.bigInt 5)).alloc (.bundles [pointedSeven])
  have hupdate : Call.cells [.bigInt 5, .bundles [pointedSeven]]
      (.applyCanonicalUpdate ⟨1, 7, 7, some 1, 0⟩) ⊆ insert 1 (insert 0 ∅) :=
    cells_pointedSeven rfl
  have hstored := hstart.call (ascending EthIndexer.BlockBundle) none hupdate
  have hwritten := (hstored.write (Or.inl (Or.inr (Or.inl rfl))) (.bigInt 9)).write
    (Or.inl (Or.inl rfl)) (.bundles [])
  have hanswered := hwritten.call (c := .blockByNumber 7) (ascending EthIndexer.BlockBundle) none
    (Set.empty_subset _)
  exact ⟨_, _, hanswered, rfl, hanswered.isolated.1, by decide +kernel⟩

end Pointers

end EthIndexer
