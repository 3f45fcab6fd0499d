import EthIndexer.Server.Backends
/-!
# Following what a response names

A response names other records: a block its transactions, a transaction
its block and the emitters of its events, an event its transaction, and a
page the next one. Each of these texts can be sent back as it stands, and
leads to the record that was meant.

A page's cursor leads to the next page, and the pages of an address come
to an end with all its events (`follow_eq_below`).
-/

namespace EthIndexer

open Go

namespace Server

/-! ## Requests for pages -/

/-- The parameters of a request for a page. -/
def pageParameters (limit cursor : Option Text) : Values :=
  let parameters : Values := match limit with
    | none => ∅
    | some limit => GoMap.set ∅ "limit" [limit]
  match cursor with
  | none => parameters
  | some cursor => parameters.set "cursor" [cursor]

theorem get?_limit_pageParameters (limit cursor : Option Text) :
    (pageParameters limit cursor).get? "limit" = limit.map fun l => [l] := by
  have hne : "limit" ≠ "cursor" := by decide
  cases limit <;> cases cursor <;>
    simp [pageParameters, GoMap.get?_set_of_ne _ _ hne]

theorem get?_cursor_pageParameters (limit cursor : Option Text) :
    (pageParameters limit cursor).get? "cursor" = cursor.map fun c => [c] := by
  have hne : "cursor" ≠ "limit" := by decide
  cases limit <;> cases cursor <;>
    simp [pageParameters, GoMap.get?_set_of_ne _ _ hne]

/-- The limit is read without regard to the cursor. -/
theorem parseEventLimit_pageParameters (limit cursor : Option Text) :
    parseEventLimit (pageParameters limit cursor) = parseEventLimit (pageParameters limit none) := by
  simp only [parseEventLimit, get?_limit_pageParameters]

theorem parseEventCursor_of_get?_none {parameters : Values} (h : parameters.get? "cursor" = none) :
    parseEventCursor parameters = .ok none := by
  rw [parseEventCursor, h]

/-- The cursor that a page was given with is read back. -/
theorem parseEventCursor_pageParameters (limit : Option Text) (cursor : Option EventCursor) :
    parseEventCursor (pageParameters limit (cursor.map encodeEventCursor)) = .ok cursor := by
  cases cursor with
  | none => exact parseEventCursor_of_get?_none (get?_cursor_pageParameters _ _)
  | some c => exact (parseEventCursor_eq_some_iff (get?_cursor_pageParameters _ _)).2 rfl

/-- What a client collects that follows the cursors to the last page;
`none` if a page is not there, or is not the last of `n`. -/
def follow (h : Handler) (address : Text) (limit : Option Text) :
    ℕ → Option Text → Option (List EventResponse)
  | 0, _ => none
  | n + 1, cursor =>
    match (h.serve (.eventsByAddress address (pageParameters limit cursor))).body with
    | some (.eventPage page) =>
      match page.nextCursor with
      | none => some page.events
      | some next => (follow h address limit n (some next)).map (page.events ++ ·)
    | _ => none

/-- Every page can be written. -/
def Exchange.WritesPages (ex : Exchange) : Prop :=
  ∀ page : EventPageResponse, ex.encodeError (.eventPage page) = none

theorem Exchange.writesPages_plain (requestID : String) : (plain requestID).WritesPages :=
  fun _ => rfl

end Server

open Server Server.Handler

section Follow

variable {m : Memory} {T : Tables} {B : BundleMap} {env : PostgresEnv} {ex : Exchange}
  {geth : GoEthereum} {raw : Text} {limit : Option Text} {address : Address} {size : UInt32}

/-- **Following the cursors over HTTP** returns what is listed below the
first. -/
theorem Alike.follow_eq_below (h : Alike m T B) (henv : env.Faultless) (hex : ex.WritesPages)
    (haddress : parseEventAddress ex.geth raw = .ok address)
    (hlimit : parseEventLimit (pageParameters limit none) = .ok size) (n : ℕ)
    {before : Option EventCursor} (hbefore : ∀ c ∈ before, m.Knows c)
    (hn : (Paging.below Event.position (before.map EventCursor.position)
      (m.listed address)).length < n) :
    follow (Postgres.handler env T ex) raw limit n (before.map encodeEventCursor) =
      some ((Paging.below Event.position (before.map EventCursor.position)
        (m.listed address)).map (newEventResponse ex.geth)) := by
  induction n generalizing before with
  | zero => omega
  | succ n ih =>
    have hsize : parseEventLimit (pageParameters limit (before.map encodeEventCursor)) = .ok size := by
      rw [parseEventLimit_pageParameters, hlimit]
    have hcursor := parseEventCursor_pageParameters limit before
    rw [follow, h.serve_eventsByAddress_of_knows henv haddress hsize hcursor hbefore,
      ex.body_writeJSON_eq_some_iff.2 ⟨hex _, rfl⟩]
    generalize hl : Paging.below Event.position (before.map EventCursor.position)
      (m.listed address) = l at hn ⊢
    rcases Memory.page_cases h.invariant (limit_le_of_parseEventLimit hlimit).1 hl with
      hanswer | ⟨events, c, hanswer, hknows, rest, hrest, hlength, happend⟩
    · rw [hanswer]
      rfl
    · have hnext := ih (fun _ hc => Option.some.inj hc ▸ hknows) (by rw [hrest]; omega)
      rw [hrest, Option.map_some] at hnext
      simp only [hanswer, newEventPageResponse, Option.map_some, hnext]
      rw [← happend, List.map_append]

/-- Two responses of one event are one response. -/
theorem newEventResponse_cloneEvent (e : Event) :
    newEventResponse geth (cloneEvent e) = newEventResponse geth e := by
  rw [← newEventResponse_content, content_cloneEvent, newEventResponse_content]

/-- What the in-memory store lists, in terms of the window. -/
theorem Alike.mem_map_listed_iff (h : Alike m T B) {x : EventResponse} :
    x ∈ (m.listed address).map (newEventResponse geth) ↔
      ∃ e, (B.Has fun b => e ∈ b.events) ∧ e.address = address ∧
        newEventResponse geth e = x := by
  rw [List.mem_map]
  constructor
  · rintro ⟨e, he, rfl⟩
    obtain ⟨⟨n, c, hc, hmem⟩, haddress⟩ := (Memory.mem_listed h.invariant).1 he
    rw [h.get?] at hc
    obtain ⟨b, hb, rfl⟩ := Option.map_eq_some_iff.1 hc
    obtain ⟨e', he', rfl⟩ := List.mem_map.1 hmem
    exact ⟨e', ⟨n, b, hb, he'⟩, haddress, (newEventResponse_cloneEvent e').symm⟩
  · rintro ⟨e, ⟨n, b, hb, he⟩, haddress, rfl⟩
    refine ⟨cloneEvent e, (Memory.mem_listed h.invariant).2 ⟨⟨n, cloneBundle b, ?_, ?_⟩, haddress⟩,
      newEventResponse_cloneEvent e⟩
    · rw [h.get?, hb]
      rfl
    · exact List.mem_map_of_mem he

/-- Events from newer to older, as responses show them. -/
def NewestFirst (events : List EventResponse) : Prop :=
  events.Pairwise fun a b => b.blockNumber < a.blockNumber ∨
    (b.blockNumber = a.blockNumber ∧ b.logIndex < a.logIndex)

theorem newestFirst_map {events : List Event} (h : Paging.Descending Event.position events) :
    NewestFirst (events.map (newEventResponse geth)) :=
  List.pairwise_map.2 (h.imp fun hlt => Event.position_lt_iff.1 hlt)

/-- The pages of a store at rest, from the first. -/
theorem Alike.follow_eq_listed (h : Alike m T B) (henv : env.Faultless) (hex : ex.WritesPages)
    (haddress : parseEventAddress ex.geth raw = .ok address)
    (hlimit : parseEventLimit (pageParameters limit none) = .ok size) {n : ℕ}
    (hn : (m.listed address).length < n) :
    follow (Postgres.handler env T ex) raw limit n none =
      some ((m.listed address).map (newEventResponse ex.geth)) := by
  have hbelow : Paging.below Event.position (Option.map EventCursor.position none)
      (m.listed address) = m.listed address := Paging.below_none _
  have hnone : ∀ c ∈ (none : Option EventCursor), m.Knows c := fun _ hc =>
    absurd hc (Option.not_mem_none _)
  have hfollow := h.follow_eq_below henv hex haddress hlimit n hnone (by rwa [hbelow])
  rwa [hbelow] at hfollow

/-- **The pages of an address** come to an end, on tables that are not
written to meanwhile and for every limit that is accepted: they hold the
events of the address and no others, each once and from newer to older. -/
theorem Postgres.Calls.pages_end (h : Postgres.Calls Tables.empty T) (henv : env.Faultless)
    (hex : ex.WritesPages) (haddress : parseEventAddress ex.geth raw = .ok address)
    (hlimit : parseEventLimit (pageParameters limit none) = .ok size) :
    ∃ B, Postgres.Holds T B ∧ ∃ pages events, NewestFirst events ∧
      (∀ x, x ∈ events ↔ ∃ e, (B.Has fun b => e ∈ b.events) ∧ e.address = address ∧
        newEventResponse ex.geth e = x) ∧
      ∀ n ≥ pages, follow (Postgres.handler env T ex) raw limit n none = some events := by
  obtain ⟨m, B, -, halike⟩ := h.exists_alike
  refine ⟨B, halike.holds, (m.listed address).length + 1, _,
    newestFirst_map (Memory.descending_listed halike.invariant address),
    fun x => halike.mem_map_listed_iff, fun n hn => ?_⟩
  exact halike.follow_eq_listed henv hex haddress hlimit hn

/-- The events of block 7, one a page. -/
theorem pages_end_seven : ∃ pages events, NewestFirst events ∧ ∀ n ≥ pages,
    follow (Postgres.handler .plain Postgres.tablesSeven (.plain "1"))
      (GoEthereum.plain.address.hex default) (some [49]) n none = some events := by
  have hcalls : Postgres.Calls Tables.empty Postgres.tablesSeven := .apply _ _ _ .refl
  have haddress : parseEventAddress (Exchange.plain "1").geth
      (GoEthereum.plain.address.hex default) = .ok default :=
    parseHexFixed_hex GoEthereum.lawful_plain.address default
  have hlimit : parseEventLimit (pageParameters (some [49]) none) = .ok 1 := by decide +kernel
  obtain ⟨-, -, pages, events, hnewest, -, hpages⟩ := hcalls.pages_end
    PostgresEnv.faultless_plain (Exchange.writesPages_plain "1") haddress hlimit
  exact ⟨pages, events, hnewest, hpages⟩

end Follow

/-! ## What a successful response comes from -/

section Inversion

variable {m : Memory} {T : Tables} {B : BundleMap} {env : PostgresEnv} {ex : Exchange} {raw : Text}

/-- A block in a response is one of the window. -/
theorem Postgres.of_serve_block (h : Mirrors T B) (henv : env.Faultless)
    (hwire : FaithfulWire env.wire) {x : BlockResponse}
    (hserve : ((Postgres.handler env T ex).serve (.blockByNumber raw)).body = some (.block x)) :
    ∃ n b, B.get? n = some b ∧ x = newBlockResponse ex.geth
      { block := b.block.stored, transactionHashes := b.transactions.map Transaction.hash } := by
  cases hraw : parseBlockNumber raw with
  | error err =>
    simp only [serve, handle, Handler.blockByNumber, hraw] at hserve
    obtain ⟨_, hbody⟩ := Exchange.exists_of_body_writeError hserve
    cases hbody
  | ok n =>
    rw [Postgres.serve_blockByNumber h henv hwire hraw] at hserve
    cases hb : B.get? n with
    | none =>
      rw [hb] at hserve
      obtain ⟨_, hbody⟩ := Exchange.exists_of_body_writeError hserve
      cases hbody
    | some b =>
      rw [hb] at hserve
      obtain ⟨-, hbody⟩ := ex.body_writeJSON_eq_some_iff.1 hserve
      exact ⟨n, b, hb, (Body.block.inj hbody).symm⟩

/-- A transaction in a response is one of the window. -/
theorem Postgres.of_serve_transaction (h : Mirrors T B) (henv : env.Faultless)
    (hwire : FaithfulWire env.wire) {x : TransactionResponse}
    (hserve : ((Postgres.handler env T ex).serve (.transactionByHash raw)).body =
      some (.transaction x)) :
    ∃ n b t, B.get? n = some b ∧ t ∈ b.transactions ∧
      newTransactionResponse ex.geth (Memory.transactionAnswer b t) = .ok x := by
  cases hraw : parseTransactionHash ex.geth raw with
  | error err =>
    simp only [serve, handle, Handler.transactionByHash, Postgres.toExchange_handler, hraw] at hserve
    obtain ⟨_, hbody⟩ := Exchange.exists_of_body_writeError hserve
    cases hbody
  | ok hash =>
    by_cases hhas : B.Has fun b => ∃ t ∈ b.transactions, t.hash = hash
    · obtain ⟨n, b, hb, t, ht, rfl⟩ := hhas
      obtain ⟨x', hx', heq⟩ := Postgres.serve_transactionByHash_of_mem h henv hwire hb ht hraw
      rw [heq] at hserve
      obtain ⟨-, hbody⟩ := ex.body_writeJSON_eq_some_iff.1 hserve
      cases hbody
      exact ⟨n, b, t, hb, ht, hx'⟩
    · rw [Postgres.serve_transactionByHash_of_not_mem h henv hraw hhas] at hserve
      obtain ⟨_, hbody⟩ := Exchange.exists_of_body_writeError hserve
      cases hbody

/-- A page in a response is one of the listing. -/
theorem Alike.of_serve_events (h : Alike m T B) (henv : env.Faultless) {parameters : Values}
    {page : EventPageResponse}
    (hserve : ((Postgres.handler env T ex).serve (.eventsByAddress raw parameters)).body =
      some (.eventPage page)) :
    ∃ address limit before, parseEventAddress ex.geth raw = .ok address ∧
      parseEventLimit parameters = .ok limit ∧ parseEventCursor parameters = .ok before ∧
      (∀ c ∈ before, m.Knows c) ∧ page = newEventPageResponse ex.geth (Memory.answer
        (Paging.page limit.toNat (Paging.below Event.position (before.map EventCursor.position)
          (m.listed address)))) := by
  cases haddress : parseEventAddress ex.geth raw with
  | error err =>
    simp only [serve, handle, Handler.eventsByAddress, Postgres.toExchange_handler,
      haddress] at hserve
    obtain ⟨_, hbody⟩ := Exchange.exists_of_body_writeError hserve
    cases hbody
  | ok address =>
    cases hlimit : parseEventLimit parameters with
    | error err =>
      simp only [serve, handle, Handler.eventsByAddress, Postgres.toExchange_handler, haddress,
        hlimit] at hserve
      obtain ⟨_, hbody⟩ := Exchange.exists_of_body_writeError hserve
      cases hbody
    | ok limit =>
      cases hcursor : parseEventCursor parameters with
      | error err =>
        simp only [serve, handle, Handler.eventsByAddress, Postgres.toExchange_handler, haddress,
          hlimit, hcursor] at hserve
        obtain ⟨_, hbody⟩ := Exchange.exists_of_body_writeError hserve
        cases hbody
      | ok before =>
        by_cases hknows : ∀ c ∈ before, m.Knows c
        · rw [h.serve_eventsByAddress_of_knows henv haddress hlimit hcursor hknows] at hserve
          obtain ⟨-, hbody⟩ := ex.body_writeJSON_eq_some_iff.1 hserve
          exact ⟨address, limit, before, rfl, rfl, rfl, hknows, (Body.eventPage.inj hbody).symm⟩
        · push Not at hknows
          rw [h.serve_eventsByAddress_of_stale henv haddress hlimit hcursor hknows] at hserve
          obtain ⟨_, hbody⟩ := Exchange.exists_of_body_writeError hserve
          cases hbody

/-- What a transaction's response names. -/
theorem newTransactionResponse_names {r : TransactionResult} {x : TransactionResponse}
    (h : newTransactionResponse ex.geth r = .ok x) :
    x.hash = ex.geth.hash.hex r.transaction.hash ∧ x.blockNumber = r.transaction.blockNumber ∧
      x.blockHash = ex.geth.hash.hex r.transaction.blockHash ∧ x.index = r.transaction.index ∧
      x.events = r.events.map (newEventResponse ex.geth) := by
  unfold newTransactionResponse at h
  split at h
  · cases h
  · cases h
    exact ⟨rfl, rfl, rfl, rfl, rfl⟩

end Inversion

/-! ## Links -/

/-- **What one response names, another request finds**: `h` has the
handlers of the first request, `h'` of the ones that come after. -/
structure Links (h h' : Handler) : Prop where
  /-- A block's transactions, each at its position. -/
  transactions : ∀ raw x, (h.serve (.blockByNumber raw)).body = some (.block x) →
    ∀ i hash, x.transactionHashes[i]? = some hash →
      ∃ t, h'.serve (.transactionByHash hash) = h'.writeJSON 200 (.transaction t) ∧
        t.hash = hash ∧ t.index.toNat = i ∧ t.blockNumber = x.number ∧ t.blockHash = x.hash
  /-- A transaction's block, which has it at its position. -/
  block : ∀ raw t, (h.serve (.transactionByHash raw)).body = some (.transaction t) →
    ∃ x, h'.serve (.blockByNumber (Decimal.text t.blockNumber.toNat)) =
        h'.writeJSON 200 (.block x) ∧
      x.number = t.blockNumber ∧ x.hash = t.blockHash ∧
      x.transactionHashes[t.index.toNat]? = some t.hash
  /-- An event's transaction, which has the event. -/
  transaction : ∀ raw parameters page,
    (h.serve (.eventsByAddress raw parameters)).body = some (.eventPage page) →
      ∀ e ∈ page.events, ∃ t,
        h'.serve (.transactionByHash e.transactionHash) = h'.writeJSON 200 (.transaction t) ∧
          t.hash = e.transactionHash ∧ e ∈ t.events
  /-- The emitter of a transaction's event, whose pages have the event,
  whatever the limit, if they can be written. -/
  emitter : ∀ raw t, (h.serve (.transactionByHash raw)).body = some (.transaction t) →
    ∀ e ∈ t.events, e.transactionHash = t.hash ∧ (h'.WritesPages → ∀ limit size,
      parseEventLimit (pageParameters limit none) = .ok size →
        ∃ pages events, e ∈ events ∧ ∀ n ≥ pages, follow h' e.address limit n none = some events)

section Links

variable {m : Memory} {T : Tables} {B : BundleMap} {env : PostgresEnv} {ex : Exchange}

theorem Postgres.serve_hash_of_mem (hgeth : ex.geth.Lawful) (h : Mirrors T B) (henv : env.Faultless)
    (hwire : FaithfulWire env.wire) {n : UInt64} {b : BlockBundle} {t : Transaction}
    (hb : B.get? n = some b) (ht : t ∈ b.transactions) :
    ∃ x, newTransactionResponse ex.geth (Memory.transactionAnswer b t) = .ok x ∧
      (Postgres.handler env T ex).serve (.transactionByHash (ex.geth.hash.hex t.hash)) =
        ex.writeJSON 200 (.transaction x) :=
  Postgres.serve_transactionByHash_of_mem h henv hwire hb ht
    (parseHexFixed_hex hgeth.hash t.hash)

/-- The response of a stored event is in that of its transaction. -/
theorem mem_events_iff {b : BlockBundle} {t : Transaction} {x : TransactionResponse}
    (hx : newTransactionResponse ex.geth (Memory.transactionAnswer b t) = .ok x)
    {e : EventResponse} : e ∈ x.events ↔
      ∃ e' ∈ b.events, e'.transactionHash = t.hash ∧ newEventResponse ex.geth e' = e := by
  obtain ⟨-, -, -, -, hevents⟩ := newTransactionResponse_names hx
  rw [hevents, List.mem_map]
  simp only [Memory.mem_transactionAnswer, and_assoc]

theorem Postgres.transactions_link (hgeth : ex.geth.Lawful) (h : Mirrors T B) (henv : env.Faultless)
    (hwire : FaithfulWire env.wire) {n : UInt64} {b : BlockBundle} (hb : B.get? n = some b) {i : ℕ}
    {t : Transaction} (ht : b.transactions[i]? = some t) :
    ∃ x, (Postgres.handler env T ex).serve (.transactionByHash (ex.geth.hash.hex t.hash)) =
        ex.writeJSON 200 (.transaction x) ∧ x.hash = ex.geth.hash.hex t.hash ∧ x.index.toNat = i ∧
      x.blockNumber = b.block.number ∧ x.blockHash = ex.geth.hash.hex b.block.hash := by
  obtain ⟨x, hx, hserve⟩ := Postgres.serve_hash_of_mem hgeth h henv hwire hb (List.mem_of_getElem? ht)
  obtain ⟨hi, rfl⟩ := List.getElem?_eq_some_iff.1 ht
  obtain ⟨hindex, hnumber, hblock⟩ := (h.storable.wellFormed hb).transaction i hi
  obtain ⟨hh, hn, hbh, hix, -⟩ := newTransactionResponse_names hx
  refine ⟨x, hserve, hh, ?_, hn.trans hnumber, ?_⟩
  · rw [hix]
    exact hindex
  · rw [hbh]
    exact congrArg ex.geth.hash.hex hblock

theorem Postgres.block_link (h : Mirrors T B) (henv : env.Faultless)
    (hwire : FaithfulWire env.wire) {n : UInt64} {b : BlockBundle} {t : Transaction}
    (hb : B.get? n = some b) (ht : t ∈ b.transactions) :
    ∃ x, (Postgres.handler env T ex).serve
        (.blockByNumber (Decimal.text t.blockNumber.toNat)) =
        ex.writeJSON 200 (.block x) ∧
      x.number = t.blockNumber ∧ x.hash = ex.geth.hash.hex t.blockHash ∧
      x.transactionHashes[t.index.toNat]? = some (ex.geth.hash.hex t.hash) := by
  have hwf := h.storable.wellFormed hb
  obtain ⟨i, hi, rfl⟩ := List.getElem_of_mem ht
  obtain ⟨hindex, hnumber, hblock⟩ := hwf.transaction i hi
  have hserve : (Postgres.handler env T ex).serve _ = _ :=
    Postgres.serve_blockByNumber h henv hwire (parseBlockNumber_text b.transactions[i].blockNumber)
  rw [hnumber, h.storable.number hb, hb] at hserve
  rw [hnumber, h.storable.number hb, hblock, hindex]
  refine ⟨_, hserve, h.storable.number hb, rfl, ?_⟩
  simp [newBlockResponse, List.getElem?_eq_getElem hi]

/-- What a page shows is stored. -/
theorem Alike.exists_of_mem_page (h : Alike m T B) {address : Address} {limit : UInt32}
    {before : Option EventCursor} {e : EventResponse}
    (he : e ∈ (newEventPageResponse ex.geth (Memory.answer (Paging.page limit.toNat
      (Paging.below Event.position (before.map EventCursor.position)
        (m.listed address))))).events) :
    ∃ n b, B.get? n = some b ∧ ∃ e' ∈ b.events, newEventResponse ex.geth e' = e := by
  obtain ⟨e', he', rfl⟩ := List.mem_map.1 he
  have hlisted := (Paging.mem_below.1 ((Paging.page_fst_sublist _ _).subset he')).1
  obtain ⟨e'', ⟨n, b, hb, he''⟩, -, heq⟩ :=
    h.mem_map_listed_iff.1 (List.mem_map_of_mem (f := newEventResponse ex.geth) hlisted)
  exact ⟨n, b, hb, e'', he'', heq⟩

theorem Alike.links (h : Alike m T B) (henv : env.Faultless) (hwire : FaithfulWire env.wire)
    (hgeth : ex.geth.Lawful) {ex₀ : Exchange} (hsame : ex₀.geth = ex.geth) :
    Links (Postgres.handler env T ex₀) (Postgres.handler env T ex) where
  transactions raw x hserve i hash hhash := by
    obtain ⟨n, b, hb, rfl⟩ := Postgres.of_serve_block h.holds.mirrors henv hwire hserve
    rw [hsame] at hhash ⊢
    simp only [newBlockResponse, List.map_map, List.getElem?_map, Option.map_eq_some_iff] at hhash
    obtain ⟨t, ht, rfl⟩ := hhash
    exact Postgres.transactions_link hgeth h.holds.mirrors henv hwire hb ht
  block raw x hserve := by
    obtain ⟨n, b, t, hb, ht, hx⟩ := Postgres.of_serve_transaction h.holds.mirrors henv hwire hserve
    obtain ⟨hh, hn, hbh, hix, -⟩ := newTransactionResponse_names hx
    rw [hh, hn, hbh, hix, hsame]
    exact Postgres.block_link h.holds.mirrors henv hwire hb ht
  transaction raw parameters page hserve e he := by
    obtain ⟨address, limit, before, -, -, -, -, rfl⟩ := h.of_serve_events henv hserve
    obtain ⟨n, b, hb, e', he', rfl⟩ := h.exists_of_mem_page he
    obtain ⟨⟨t, ht, hhash, -⟩, -⟩ := (h.holds.mirrors.storable.wellFormed hb).event e' he'
    obtain ⟨x, hx, hserve⟩ := Postgres.serve_hash_of_mem hgeth h.holds.mirrors henv hwire hb ht
    have hname : (newEventResponse ex.geth e').transactionHash = ex.geth.hash.hex t.hash := by
      rw [hhash]
      rfl
    rw [hsame, hname]
    exact ⟨x, hserve, (newTransactionResponse_names hx).1,
      (mem_events_iff hx).2 ⟨e', he', hhash.symm, rfl⟩⟩
  emitter raw x hserve e he := by
    obtain ⟨n, b, t, hb, ht, hx⟩ := Postgres.of_serve_transaction h.holds.mirrors henv hwire hserve
    rw [hsame] at hx
    obtain ⟨e', he', hhash, rfl⟩ := (mem_events_iff hx).1 he
    refine ⟨?_, fun hex limit size hlimit => ?_⟩
    · rw [(newTransactionResponse_names hx).1]
      exact congrArg ex.geth.hash.hex hhash
    · -- the address is printed in a text that is read back
      have haddress : parseEventAddress ex.geth (ex.geth.address.hex e'.address) =
          .ok e'.address := parseHexFixed_hex hgeth.address e'.address
      refine ⟨(m.listed e'.address).length + 1, _,
        h.mem_map_listed_iff.2 ⟨e', ⟨n, b, hb, he'⟩, rfl, rfl⟩, fun k hk => ?_⟩
      exact h.follow_eq_listed henv hex haddress hlimit hk

/-- **Links lead where they should**, on tables that any calls have come
to and with a database that answers: what is printed in a response of one
request is found by the next. -/
theorem Postgres.Calls.links_lead (h : Postgres.Calls Tables.empty T) (henv : env.Faultless)
    (hwire : FaithfulWire env.wire) (hgeth : ex.geth.Lawful) {ex₀ : Exchange}
    (hsame : ex₀.geth = ex.geth) :
    Links (Postgres.handler env T ex₀) (Postgres.handler env T ex) := by
  obtain ⟨m, B, -, halike⟩ := h.exists_alike
  exact halike.links henv hwire hgeth hsame

/-- Block 7 has a transaction, and its hash leads to it. -/
theorem links_lead_seven : ∃ t, (Postgres.handler .plain Postgres.tablesSeven (.plain "2")).serve
    (.transactionByHash (GoEthereum.plain.hash.hex (Hash.spelling 70))) =
      (Exchange.plain "2").writeJSON 200 (.transaction t) ∧ t.index.toNat = 0 := by
  have hcalls : Postgres.Calls Tables.empty Postgres.tablesSeven := .apply _ _ _ .refl
  obtain ⟨x, hx, hhash⟩ : ∃ x, ((Postgres.handler .plain Postgres.tablesSeven
      (.plain "1")).serve (.blockByNumber [55])).body = some (.block x) ∧
        x.transactionHashes[0]? = some (GoEthereum.plain.hash.hex (Hash.spelling 70)) :=
    ⟨newBlockResponse .plain ⟨twoEvents.block, [.spelling 70]⟩, by decide +kernel, rfl⟩
  have hlinks : Links (Postgres.handler .plain Postgres.tablesSeven (.plain "1"))
      (Postgres.handler .plain Postgres.tablesSeven (.plain "2")) :=
    hcalls.links_lead PostgresEnv.faultless_plain faithfulWire_plain GoEthereum.lawful_plain rfl
  obtain ⟨t, ht, -, hindex, -⟩ := hlinks.transactions _ _ hx 0 _ hhash
  exact ⟨t, ht, hindex⟩

end Links

end EthIndexer
