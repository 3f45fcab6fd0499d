import EthIndexer.Store.Events
/-!
# Paging through events while the chain moves

A client follows the cursors while updates come in between: appends,
prunes, reorgs, reloads. A page is answered only if the cursor's own block
is still stored, and that is enough. The block is stored with its hash, so
by the descent along parent hashes everything below it that is stored at
all is what was stored when the traversal began.

What is between two cursors was stored while the page between them was
made, since a window has no gap. So an event can only be missed where the
last page misses it, and then it is not stored at the end.
-/

namespace EthIndexer

/-- A copy depends on the content of its source only. -/
theorem cloneEvent_content (e : Event) : cloneEvent e.content = cloneEvent e := by
  simp [cloneEvent, Event.content, cloneSlice, Slice.elems]

namespace Memory

variable {m m' m₀ : Memory}

/-- **A hash determines a block**, up to the time it was indexed at:
`commit` is what the hashes of the history stand for. -/
def Hashed (commit : Hash → BlockBundle) (m : Memory) : Prop :=
  ∀ n b, m.bundles.get? n = some b → b.content = commit b.block.hash

variable {commit : Hash → BlockBundle}

/-- **Below a block two stores share they agree.** -/
theorem agree_of_knows (hm : m.Invariant) (hm' : m'.Invariant) (hfree : m.Hashed commit)
    (hfree' : m'.Hashed commit) {c : EventCursor} (hc : m.Knows c) (hc' : m'.Knows c)
    {n : UInt64} (hn : n ≤ c.blockNumber) {b b' : BlockBundle} (hb : m.bundles.get? n = some b)
    (hb' : m'.bundles.get? n = some b') :
    b.block.hash = b'.block.hash ∧ b.content = b'.content := by
  obtain ⟨x, hx, hxhash⟩ := hc
  obtain ⟨y, hy, hyhash⟩ := hc'
  refine HashChain.agree_below parentHash_eq_of_content hm.canonical.connected
    hm'.canonical.connected hm.canonical.linkedWindow hm'.canonical.linkedWindow ?_ hx hy
    (hxhash.trans hyhash.symm) (UInt64.le_iff_toNat_le.1 hn) hb hb'
  intro i j b c hb hc hbc
  rw [hfree i b hb, hfree' j c hc]
  exact congrArg commit hbc

/-- So they hold the same events there. -/
theorem holds_of_knows (hm : m.Invariant) (hm' : m'.Invariant) (hfree : m.Hashed commit)
    (hfree' : m'.Hashed commit) {c : EventCursor} (hc : m.Knows c) (hc' : m'.Knows c) {e : Event}
    (he : m.Holds e) (hn : e.blockNumber ≤ c.blockNumber) (hmem : e.blockNumber ∈ m'.bundles) :
    m'.Holds e := by
  obtain ⟨b, hb, he, -⟩ := hm.get?_of_holds he
  obtain ⟨b', hb'⟩ := GoMap.mem_iff_get?.1 hmem
  obtain ⟨-, hcontent⟩ := agree_of_knows hm hm' hfree hfree' hc hc' hn hb hb'
  have hcopies : ∀ {x : BlockBundle}, cloneBundle x = x →
      x.content.events.map cloneEvent = x.events := by
    intro x hx
    have hevents : x.events.map cloneEvent = x.events := congrArg BlockBundle.events hx
    rw [BlockBundle.content, List.map_map]
    exact (List.map_congr_left fun e _ => cloneEvent_content e).trans hevents
  refine ⟨_, b', hb', ?_⟩
  rwa [← hcopies (hm'.cloned hb'), ← hcontent, hcopies (hm.cloned hb)]

/-- The cursor of a stored event names a stored block. -/
theorem Invariant.knows_cursorOf (hm : m.Invariant) {e : Event} (he : m.Holds e) :
    m.Knows (cursorOf e) := by
  obtain ⟨b, hb, -, hhash⟩ := hm.get?_of_holds he
  exact ⟨b, hb, hhash.symm⟩

/-- Between a stored event and a known cursor every block is stored. -/
theorem Invariant.mem_of_between (hm : m.Invariant) {e : Event} (he : m.Holds e) {c : EventCursor}
    (hc : m.Knows c) {n : UInt64} (hen : e.blockNumber ≤ n) (hnc : n ≤ c.blockNumber) :
    n ∈ m.bundles := by
  obtain ⟨b, hb, -⟩ := hm.get?_of_holds he
  obtain ⟨b', hb', -⟩ := hc
  exact hm.canonical.interval (GoMap.mem_of_get? hb) (GoMap.mem_of_get? hb') hen hnc

/-! ## Traversals -/

/-- One store becomes another by updates that succeed. -/
inductive Updates : Memory → Memory → Prop
  | refl (m : Memory) : Updates m m
  | apply {m m' : Memory} {ord : RangeOrder UInt64 BlockBundle} {ctx : Context}
      {u : CanonicalUpdate} (h : Updates m m')
      (happly : (applyCanonicalUpdate ord ctx m' u).1 = .ok ()) :
      Updates m (applyCanonicalUpdate ord ctx m' u).2

theorem Updates.reachable (h : m.Updates m') (hm : m.Reachable) : m'.Reachable := by
  induction h with
  | refl => exact hm
  | apply _ _ ih => exact .apply _ _ _ ih

/-- **A traversal**: a first page without a cursor, and further pages each
with the cursor of the one before. It began at the store `m₀`, made its
last request at `m`, and has collected `events`; the last argument is the
cursor it was given last. -/
inductive Traversal (commit : Hash → BlockBundle) (address : Address) (m₀ : Memory) :
    Memory → List Event → Option EventCursor → Prop
  | first {ord : RangeOrder UInt64 BlockBundle} {limit : UInt32} {page : EventPage}
      (hm : m₀.Reachable) (hfree : m₀.Hashed commit) (hlimit : 1 ≤ limit)
      (hpage : m₀.eventsByAddress ord none ⟨address, limit, none⟩ = .ok page) :
      Traversal commit address m₀ m₀ page.events page.nextCursor
  | next {m m' : Memory} {events : List Event} {cursor : EventCursor}
      {ord : RangeOrder UInt64 BlockBundle} {limit : UInt32} {page : EventPage}
      (h : Traversal commit address m₀ m events (some cursor)) (hupdates : m.Updates m')
      (hfree : m'.Hashed commit) (hlimit : 1 ≤ limit)
      (hpage : m'.eventsByAddress ord none ⟨address, limit, some cursor⟩ = .ok page) :
      Traversal commit address m₀ m' (events ++ page.events) page.nextCursor

variable {address : Address} {events : List Event} {nextCursor : Option EventCursor}

theorem Traversal.reachable (h : Traversal commit address m₀ m events nextCursor) :
    m₀.Reachable ∧ m.Reachable := by
  induction h with
  | first hm => exact ⟨hm, hm⟩
  | next _ hupdates _ _ _ ih => exact ⟨ih.1, hupdates.reachable ih.2⟩

/-- **What a traversal keeps.** Everything collected is at or above the
cursor. An event that was stored at the beginning is collected, or still
below the cursor, whose block was stored at the beginning as well; or the
traversal is over and the event is not stored any more. -/
structure Collected (address : Address) (m₀ m : Memory) (events : List Event)
    (nextCursor : Option EventCursor) : Prop where
  descending : Paging.Descending Event.position events
  above : ∀ c ∈ nextCursor, ∀ e ∈ events, c.position ≤ e.position
  lineage : ∀ c ∈ nextCursor, ∀ e, m₀.Holds e → e.position < c.position → m₀.Knows c
  covered : ∀ e, e.address = address → m₀.Holds e → e ∈ events ∨
    (∃ c ∈ nextCursor, e.position < c.position) ∨ (nextCursor = none ∧ ¬ m.Holds e)

section Page

variable {before : Option EventCursor} {limit : UInt32} {page : EventPage}
  {ord : RangeOrder UInt64 BlockBundle}

/-- A page, as far as a traversal looks at it. -/
theorem page_of_eventsByAddress (hm : m.Invariant)
    (h : m.eventsByAddress ord none ⟨address, limit, before⟩ = .ok page) :
    Paging.Descending Event.position page.events ∧
    (∀ e ∈ page.events, m.Holds e ∧ ∀ c ∈ before, e.position < c.position) ∧
    (∀ c ∈ page.nextCursor, ∃ e ∈ page.events, c = cursorOf e) ∧
    (∀ c ∈ page.nextCursor, ∀ e ∈ page.events, c.position ≤ e.position) := by
  obtain ⟨-, -, rfl⟩ := (eventsByAddress_eq_ok_iff hm).1 h
  have hd := (descending_listed hm address).below (before.map EventCursor.position)
  refine ⟨hd.sublist (Paging.page_fst_sublist _ _), fun e he => ?_, fun c hc => ?_,
    fun c hc e he => ?_⟩
  · obtain ⟨hmem, hlt⟩ := Paging.mem_below.1 ((Paging.page_fst_sublist _ _).subset he)
    exact ⟨((mem_listed hm).1 hmem).1, fun c hc => hlt _ (Option.mem_map_of_mem _ hc)⟩
  · obtain ⟨e, he, rfl⟩ := Option.map_eq_some_iff.1 hc
    exact ⟨e, Paging.mem_of_page_snd he, rfl⟩
  · obtain ⟨x, hx, rfl⟩ := Option.map_eq_some_iff.1 hc
    exact Paging.le_of_page_snd hd hx he

/-- **A page leaves out only what its cursor leads to.** -/
theorem mem_page_of_eventsByAddress (hm : m.Invariant) (hlimit : 1 ≤ limit)
    (h : m.eventsByAddress ord none ⟨address, limit, before⟩ = .ok page) {e : Event}
    (he : m.Holds e) (haddress : e.address = address) (hbefore : ∀ c ∈ before, e.position < c.position)
    (hnext : ∀ c ∈ page.nextCursor, c.position ≤ e.position) : e ∈ page.events := by
  obtain ⟨-, -, rfl⟩ := (eventsByAddress_eq_ok_iff hm).1 h
  have hd := (descending_listed hm address).below (before.map EventCursor.position)
  have hmem : e ∈ Paging.below Event.position (before.map EventCursor.position)
      (m.listed address) := by
    refine Paging.mem_below.2 ⟨(mem_listed hm).2 ⟨he, haddress⟩, fun k hk => ?_⟩
    obtain ⟨c, hc, rfl⟩ := Option.map_eq_some_iff.1 hk
    exact hbefore c hc
  simp only [answer] at hnext ⊢
  cases hlast : (Paging.page limit.toNat (Paging.below Event.position
      (before.map EventCursor.position) (m.listed address))).2 with
  | none =>
    rwa [Paging.page_fst_of_snd_eq_none (UInt32.le_iff_toNat_le.1 hlimit) hlast]
  | some x =>
    rw [hlast] at hnext
    exact Paging.mem_page_of_le hd hlast hmem (hnext (cursorOf x) rfl)

theorem Collected.first (hm : m₀.Invariant) (hlimit : 1 ≤ limit)
    (h : m₀.eventsByAddress ord none ⟨address, limit, none⟩ = .ok page) :
    Collected address m₀ m₀ page.events page.nextCursor := by
  obtain ⟨hd, hholds, hcursor, habove⟩ := page_of_eventsByAddress hm h
  refine ⟨hd, habove, fun c hc e _ _ => ?_, fun e haddress he => ?_⟩
  · obtain ⟨x, hx, rfl⟩ := hcursor c hc
    exact hm.knows_cursorOf (hholds x hx).1
  · by_cases hnext : ∃ c ∈ page.nextCursor, e.position < c.position
    · exact Or.inr (Or.inl hnext)
    · push Not at hnext
      exact Or.inl (mem_page_of_eventsByAddress hm hlimit h he haddress (fun _ hc => (nomatch hc))
        hnext)

/-- One more page. -/
theorem Collected.next {cursor : EventCursor} (hm₀ : m₀.Invariant) (hm' : m'.Invariant)
    (hfree₀ : m₀.Hashed commit) (hfree' : m'.Hashed commit) (hlimit : 1 ≤ limit)
    (hpage : m'.eventsByAddress ord none ⟨address, limit, some cursor⟩ = .ok page)
    (h : Collected address m₀ m events (some cursor)) :
    Collected address m₀ m' (events ++ page.events) page.nextCursor := by
  obtain ⟨hd, hholds, hcursor, habove⟩ := page_of_eventsByAddress hm' hpage
  have hknows : m'.Knows cursor := ((eventsByAddress_eq_ok_iff hm').1 hpage).2.1 cursor rfl
  have hbelow : ∀ e ∈ page.events, e.position < cursor.position :=
    fun e he => (hholds e he).2 cursor rfl
  refine ⟨?_, fun c hc e he => ?_, fun c hc e he hlt => ?_, fun e haddress he => ?_⟩
  · refine List.pairwise_append.2 ⟨h.descending, hd, fun a ha b hb => ?_⟩
    exact lt_of_lt_of_le (hbelow b hb) (h.above cursor rfl a ha)
  · rcases List.mem_append.1 he with he | he
    · obtain ⟨x, hx, rfl⟩ := hcursor c hc
      exact (hbelow x hx).le.trans (h.above cursor rfl e he)
    · exact habove c hc e he
  · -- the new cursor's block is between two the first store holds, and both agree there
    obtain ⟨x, hx, rfl⟩ := hcursor c hc
    have hknows₀ := h.lineage cursor rfl e he (hlt.trans (hbelow x hx))
    obtain ⟨b', hb', -, hhash⟩ := hm'.get?_of_holds (hholds x hx).1
    have hle := blockNumber_le_of_position_le (hbelow x hx).le
    obtain ⟨b, hb⟩ := GoMap.mem_iff_get?.1 (hm₀.mem_of_between he hknows₀
      (blockNumber_le_of_position_le hlt.le) hle)
    refine ⟨b, hb, ?_⟩
    rw [(agree_of_knows hm₀ hm' hfree₀ hfree' hknows₀ hknows hle hb hb').1]
    exact hhash.symm
  · rcases h.covered e haddress he with hmem | ⟨_, ⟨⟩, hlt⟩ | ⟨hnone, -⟩
    · exact Or.inl (List.mem_append_left _ hmem)
    · by_cases hnext : ∃ c ∈ page.nextCursor, e.position < c.position
      · exact Or.inr (Or.inl hnext)
      push Not at hnext
      by_cases he' : m'.Holds e
      · refine Or.inl (List.mem_append_right _ (mem_page_of_eventsByAddress hm' hlimit hpage he'
          haddress ?_ hnext))
        rintro _ ⟨⟩
        exact hlt
      · refine Or.inr (Or.inr ⟨Option.eq_none_iff_forall_not_mem.2 fun c hc => he' ?_, he'⟩)
        -- between two cursors nothing is missing
        obtain ⟨x, hx, rfl⟩ := hcursor c hc
        have hle := blockNumber_le_of_position_le hlt.le
        have hxe : x.position ≤ e.position := hnext _ hc
        exact holds_of_knows hm₀ hm' hfree₀ hfree' (h.lineage cursor rfl e he hlt) hknows he hle
          (hm'.mem_of_between (hholds x hx).1 hknows
            (blockNumber_le_of_position_le hxe) hle)
    · cases hnone

end Page

theorem Traversal.collected (h : Traversal commit address m₀ m events nextCursor) :
    m₀.Hashed commit ∧ Collected address m₀ m events nextCursor := by
  induction h with
  | first hm hfree hlimit hpage => exact ⟨hfree, Collected.first hm.invariant hlimit hpage⟩
  | next h hupdates hfree hlimit hpage ih =>
    exact ⟨ih.1, ih.2.next h.reachable.1.invariant
      (hupdates.reachable h.reachable.2).invariant ih.1 hfree hlimit hpage⟩

/-- **Pagination loses and repeats nothing.** When a traversal has come to
its end, what it collected is strictly from newer to older, and every
event of the address that was stored at its first and at its last request
was collected exactly once. -/
theorem Traversal.complete (h : Traversal commit address m₀ m events none) :
    (events.Pairwise fun a b => b.blockNumber < a.blockNumber ∨
      (b.blockNumber = a.blockNumber ∧ b.logIndex < a.logIndex)) ∧ events.Nodup ∧
    ∀ e, e.address = address → m₀.Holds e → m.Holds e → events.count e = 1 := by
  obtain ⟨-, hcollected⟩ := h.collected
  have hnodup : events.Nodup := hcollected.descending.imp fun hlt heq => by
    rw [heq] at hlt
    omega
  refine ⟨hcollected.descending.imp fun hlt => Event.position_lt_iff.1 hlt, hnodup,
    fun e haddress he₀ he => ?_⟩
  rcases hcollected.covered e haddress he₀ with hmem | ⟨_, hnone, -⟩ | ⟨-, hnot⟩
  · exact List.count_eq_one_of_mem hnodup hmem
  · cases hnone
  · exact absurd he hnot

/-! ## A traversal with an append in between -/

/-- What the two hashes stand for. -/
def sevenEight (hash : Hash) : BlockBundle :=
  if hash = .spelling 7 then twoEvents.content else noEvents.content

/-- To check all stored blocks is to check them in ascending order. -/
theorem hashed_of_all (h : ((ascending BlockBundle).keys m.bundles).all (fun n =>
    decide ((m.bundles.get n).content = commit (m.bundles.get n).block.hash)) = true) :
    m.Hashed commit := by
  intro n b hb
  have hn := List.all_eq_true.1 h n (((ascending BlockBundle).mem_keys_iff_get? _ _).2 ⟨b, hb⟩)
  rwa [GoMap.get_of_get? hb, decide_eq_true_iff] at hn

/-- The two events, in two pages of one, with block 8 appended in
between. -/
theorem traversal_complete_append :
    Traversal sevenEight default storedSeven storedEight twoEvents.events.reverse none ∧
      twoEvents.events.reverse.count twoEvents.events[0] = 1 := by
  have hnewest : storedSeven.eventsByAddress (ascending BlockBundle) none ⟨default, 1, none⟩ =
      .ok ⟨[twoEvents.events[1]], some ⟨7, .spelling 7, 1⟩⟩ := by decide +kernel
  have holder : storedEight.eventsByAddress (ascending BlockBundle) none
      ⟨default, 1, some ⟨7, .spelling 7, 1⟩⟩ = .ok ⟨[twoEvents.events[0]], none⟩ := by
    decide +kernel
  have hfirst : Traversal sevenEight default storedSeven storedSeven [twoEvents.events[1]]
      (some ⟨7, .spelling 7, 1⟩) :=
    .first (.apply _ _ _ .new) (hashed_of_all (by decide +kernel)) (by decide) hnewest
  have hsecond : Traversal sevenEight default storedSeven storedEight twoEvents.events.reverse
      none :=
    .next hfirst (.apply (.refl _) (by decide +kernel)) (hashed_of_all (by decide +kernel))
      (by decide) holder
  refine ⟨hsecond, hsecond.complete.2.2 _ rfl ⟨7, twoEvents, ?_, List.getElem_mem _⟩
    ⟨7, twoEvents, ?_, List.getElem_mem _⟩⟩
  · decide +kernel
  · decide +kernel

end Memory

end EthIndexer
