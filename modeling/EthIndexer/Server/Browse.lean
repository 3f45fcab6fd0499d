import EthIndexer.Server.Links
/-!
# Paging over HTTP while the chain moves

A client asks for one page after the other, each with the cursor of the
one before, while processes write to the tables in between. A traversal of
this kind is one of the in-memory store that follows the tables
(`Browse.exists_traversal`), so it has what such a traversal has: nothing
twice, and nothing lost that was there all the time.

The blocks that are written are taken to be what their hashes stand for,
so that a block that returns after a reorg returns with the same events.
-/

namespace EthIndexer

open Server Server.Handler

/-- Calls that write blocks whose content is what their hash stands
for. -/
inductive Postgres.HonestCalls (commit : Hash → BlockBundle) (T : Tables) : Tables → Prop
  | refl : HonestCalls commit T T
  | apply {T' : Tables} (env : PostgresEnv) (ord : RangeOrder UInt64 BlockBundle)
      {u : CanonicalUpdate} (hu : ∀ b ∈ u.blocks, b.content = commit b.block.hash)
      (h : HonestCalls commit T T') : HonestCalls commit T (applyCanonicalUpdate env ord u T').2

section Shadow

variable {commit : Hash → BlockBundle} {m : Memory} {T T' : Tables} {B : BundleMap}

theorem Memory.Hashed.after (h : m.Hashed commit) {u : CanonicalUpdate} (ha : m.Accepts u)
    (hu : ∀ b ∈ u.blocks, b.content = commit b.block.hash) (ord : RangeOrder UInt64 BlockBundle) :
    (Memory.after ord m u).Hashed commit := by
  intro n b hb
  have hget : (Memory.candidate ord m u).get? n = some b := hb
  rw [Memory.get?_candidate ha.consecutive, Option.map_eq_some_iff] at hget
  obtain ⟨c, hc, rfl⟩ := hget
  rw [content_cloneBundle, block_cloneBundle]
  rcases (get?_replace_eq_some_iff ha.consecutive).1 hc with ⟨hmem, -⟩ | ⟨hold, -⟩
  · exact hu c hmem
  · exact h n c hold

/-- The in-memory store that follows honest calls. -/
theorem Alike.exists_hashed_updates (h : Alike m T B) (hm : m.Hashed commit)
    (hcalls : Postgres.HonestCalls commit T T') :
    ∃ m' B', m.Updates m' ∧ m'.Hashed commit ∧ Alike m' T' B' := by
  induction hcalls with
  | refl => exact ⟨m, B, .refl m, hm, h⟩
  | apply env ord hu _ ih =>
    obtain ⟨m', B', hupdates, hm', h'⟩ := ih
    obtain ⟨m₂, B₂, h₂, rfl | ⟨ha, rfl⟩⟩ := h'.follow_call env ord _
    · exact ⟨_, B₂, hupdates, hm', h₂⟩
    · exact ⟨_, B₂, Memory.updates_after hupdates ha ord, hm'.after ha hu ord, h₂⟩

end Shadow

/-- **A traversal over HTTP**: a first page without a cursor, and further
pages each with the cursor of the one before, in any spelling of the
address and with any limits. It began at the tables `T₀`, made its last
request at `T`, and has collected `events`; the last argument is the
cursor it was given last. -/
inductive Browse (geth : GoEthereum) (commit : Hash → BlockBundle) (address : Address)
    (T₀ : Tables) : Tables → List EventResponse → Option Text → Prop
  | first {env : PostgresEnv} {ex : Exchange} {raw : Text} {parameters : Values}
      {page : EventPageResponse} (hT : Postgres.HonestCalls commit Tables.empty T₀)
      (henv : env.Faultless) (hgeth : ex.geth = geth)
      (hraw : parseEventAddress geth raw = .ok address)
      (hcursor : parameters.get? "cursor" = none)
      (hserve : ((Postgres.handler env T₀ ex).serve (.eventsByAddress raw parameters)).body =
        some (.eventPage page)) :
      Browse geth commit address T₀ T₀ page.events page.nextCursor
  | next {T T' : Tables} {events : List EventResponse} {cursor : Text} {env : PostgresEnv}
      {ex : Exchange} {raw : Text} {parameters : Values} {page : EventPageResponse}
      (h : Browse geth commit address T₀ T events (some cursor))
      (hcalls : Postgres.HonestCalls commit T T') (henv : env.Faultless) (hgeth : ex.geth = geth)
      (hraw : parseEventAddress geth raw = .ok address)
      (hcursor : parameters.get? "cursor" = some [cursor])
      (hserve : ((Postgres.handler env T' ex).serve (.eventsByAddress raw parameters)).body =
        some (.eventPage page)) :
      Browse geth commit address T₀ T' (events ++ page.events) page.nextCursor

variable {geth : GoEthereum} {commit : Hash → BlockBundle} {address : Address}
  {T₀ T : Tables} {events : List EventResponse} {nextCursor : Option Text}

/-- A page over HTTP is a page of the store behind it. -/
theorem Alike.exists_page {m : Memory} {B : BundleMap} {env : PostgresEnv} {ex : Exchange}
    {raw : Text} {parameters : Values} {page : EventPageResponse} {before : Option EventCursor}
    (h : Alike m T B) (henv : env.Faultless) (hgeth : ex.geth = geth)
    (hraw : parseEventAddress geth raw = .ok address)
    (hcursor : parseEventCursor parameters = .ok before)
    (hserve : ((Postgres.handler env T ex).serve (.eventsByAddress raw parameters)).body =
      some (.eventPage page)) :
    ∃ limit page', 1 ≤ limit ∧
      m.eventsByAddress (ascending BlockBundle) none ⟨address, limit, before⟩ = .ok page' ∧
      page.events = page'.events.map (newEventResponse geth) ∧
      page.nextCursor = page'.nextCursor.map encodeEventCursor := by
  subst hgeth
  obtain ⟨address', limit, before', haddress', hlimit, hcursor', hknows, rfl⟩ :=
    h.of_serve_events henv hserve
  cases hraw.symm.trans haddress'
  cases hcursor.symm.trans hcursor'
  obtain ⟨hone, hmax⟩ := limit_le_of_parseEventLimit hlimit
  exact ⟨limit, _, hone, Memory.eventsByAddress_of_knows h.invariant hmax hknows, rfl, rfl⟩

/-- **The store behind a traversal.** -/
theorem Browse.exists_traversal (h : Browse geth commit address T₀ T events nextCursor) :
    ∃ m₀ m B₀ B collected next, Alike m₀ T₀ B₀ ∧ Alike m T B ∧ m.Hashed commit ∧
      Memory.Traversal commit address m₀ m collected next ∧
      events = collected.map (newEventResponse geth) ∧
      nextCursor = next.map encodeEventCursor := by
  induction h with
  | first hT henv hgeth hraw hcursor hserve =>
    have hnew : Memory.new.Hashed commit := by
      intro n b hb
      rw [Memory.new, GoMap.get?_empty] at hb
      cases hb
    obtain ⟨m, B, hupdates, hhashed, halike⟩ := alike_new.exists_hashed_updates hnew hT
    obtain ⟨limit, page', hlimit, hpage, hevents, hnext⟩ :=
      halike.exists_page henv hgeth hraw (parseEventCursor_of_get?_none hcursor) hserve
    exact ⟨m, m, B, B, _, _, halike, halike, hhashed,
      .first (hupdates.reachable .new) hhashed hlimit hpage, hevents, hnext⟩
  | next _ hcalls henv hgeth hraw hcursor hserve ih =>
    obtain ⟨m₀, m, B₀, B, collected, next, halike₀, halike, hhashed, htraversal, rfl, hnext⟩ := ih
    obtain ⟨c, rfl, hc⟩ := Option.map_eq_some_iff.1 hnext.symm
    obtain ⟨m', B', hupdates, hhashed', halike'⟩ := halike.exists_hashed_updates hhashed hcalls
    obtain ⟨limit, page', hlimit, hpage, hevents, hnext'⟩ :=
      halike'.exists_page henv hgeth hraw ((parseEventCursor_eq_some_iff hcursor).2 hc) hserve
    refine ⟨m₀, m', B₀, B', _, _, halike₀, halike', hhashed',
      .next htraversal hupdates hhashed' hlimit hpage, ?_, hnext'⟩
    rw [hevents, List.map_append]

/-- An event as the tables have it. -/
def Postgres.Stored (wire : Option ℤ → Numeric) (T : Tables) (e : Event) : Prop :=
  ∃ B, T.regroup wire = .ok B ∧ B.Has fun b => e ∈ b.events

/-- The in-memory store has a copy of it. -/
theorem Alike.holds_cloneEvent {m : Memory} {B : BundleMap} (h : Alike m T B)
    {wire : Option ℤ → Numeric} (hwire : FaithfulWire wire) {e : Event}
    (he : Postgres.Stored wire T e) : m.Holds (cloneEvent e) := by
  obtain ⟨B', hregroup, n, b', hb', hmem⟩ := he
  obtain ⟨B'', hregroup', hget⟩ := regroup_eq hwire h.holds.mirrors
  cases hregroup.symm.trans hregroup'
  rw [hget] at hb'
  obtain ⟨b, hb, rfl⟩ := Option.map_eq_some_iff.1 hb'
  obtain ⟨e', he', rfl⟩ := List.mem_map.1 hmem
  refine ⟨n, cloneBundle b, ?_, ?_⟩
  · rw [h.get?, hb]
    rfl
  · rw [← cloneEvent_content, content_storedEvent, cloneEvent_content]
    exact List.mem_map_of_mem (mem_sortSlice.1 he')

theorem NewestFirst.nodup (h : NewestFirst events) : events.Nodup :=
  h.imp fun hlt heq => by
    rw [heq] at hlt
    rcases hlt with hlt | ⟨-, hlt⟩
    · exact UInt64.lt_irrefl _ hlt
    · exact UInt32.lt_irrefl _ hlt

/-- **Paging over HTTP loses and repeats nothing.** When a traversal has
come to its end, what it collected is strictly from newer to older, and
every event of the address that the tables had at its first and at its
last request was collected exactly once, whatever was written in
between. -/
theorem Browse.loses_nothing (h : Browse geth commit address T₀ T events none)
    {wire : Option ℤ → Numeric} (hwire : FaithfulWire wire) :
    NewestFirst events ∧ events.Nodup ∧
      ∀ e, e.address = address → Postgres.Stored wire T₀ e → Postgres.Stored wire T e →
        events.count (newEventResponse geth e) = 1 := by
  obtain ⟨m₀, m, B₀, B, collected, next, halike₀, halike, -, htraversal, rfl, hnext⟩ :=
    h.exists_traversal
  obtain rfl : next = none := by
    cases next with
    | none => rfl
    | some c => cases hnext
  obtain ⟨-, hcollected⟩ := htraversal.collected
  have hnewest : NewestFirst (collected.map (newEventResponse geth)) :=
    newestFirst_map hcollected.descending
  refine ⟨hnewest, hnewest.nodup, fun e haddress he₀ he => ?_⟩
  have hmem : cloneEvent e ∈ collected := by
    rcases hcollected.covered (cloneEvent e) haddress (halike₀.holds_cloneEvent hwire he₀) with
      hmem | ⟨_, hnone, -⟩ | ⟨-, hnot⟩
    · exact hmem
    · cases hnone
    · exact absurd (halike.holds_cloneEvent hwire he) hnot
  rw [← newEventResponse_cloneEvent e]
  exact List.count_eq_one_of_mem hnewest.nodup (List.mem_map_of_mem hmem)

/-! ## A traversal with an append in between -/

/-- A page of one event of block 7. -/
def pageSeven (e : Event) (next : Option EventCursor) : EventPageResponse :=
  newEventPageResponse .plain ⟨[e], next⟩

/-- The two events of block 7, in two pages, with block 8 written in
between. -/
theorem browse_append : Browse .plain Memory.sevenEight default Postgres.tablesSeven
    Postgres.tablesEight (twoEvents.events.reverse.map (newEventResponse .plain)) none := by
  have hseven : Postgres.HonestCalls Memory.sevenEight Tables.empty Postgres.tablesSeven :=
    .apply _ _ (by decide +kernel) .refl
  have hgrown : Postgres.HonestCalls Memory.sevenEight Postgres.tablesSeven Postgres.tablesEight :=
    .apply _ _ (by decide +kernel) .refl
  have hraw : parseEventAddress .plain (GoEthereum.plain.address.hex default) = .ok default :=
    parseHexFixed_hex GoEthereum.lawful_plain.address default
  have hnewest : ((Postgres.handler .plain Postgres.tablesSeven (.plain "1")).serve
      (.eventsByAddress (GoEthereum.plain.address.hex default)
        (pageParameters (some [49]) none))).body =
      some (.eventPage (pageSeven twoEvents.events[1] (some ⟨7, .spelling 7, 1⟩))) := by
    decide +kernel
  have holder : ((Postgres.handler .plain Postgres.tablesEight (.plain "2")).serve
      (.eventsByAddress (GoEthereum.plain.address.hex default)
        (pageParameters (some [49]) (some (encodeEventCursor ⟨7, .spelling 7, 1⟩))))).body =
      some (.eventPage (pageSeven twoEvents.events[0] none)) := by
    decide +kernel
  have hgeth : ∀ requestID, (Exchange.plain requestID).geth = .plain := fun _ => rfl
  exact .next (.first hseven PostgresEnv.faultless_plain (hgeth "1") hraw
    (get?_cursor_pageParameters _ _) hnewest) hgrown PostgresEnv.faultless_plain (hgeth "2") hraw
    (get?_cursor_pageParameters _ _) holder

theorem loses_nothing_append :
    NewestFirst (twoEvents.events.reverse.map (newEventResponse .plain)) :=
  (browse_append.loses_nothing faithfulWire_plain).1

end EthIndexer
