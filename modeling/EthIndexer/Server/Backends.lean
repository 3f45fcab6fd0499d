import EthIndexer.Server.Responses
import EthIndexer.Store.Regroup
/-!
# The interface on its two stores

The in-memory store follows the tables step by step: a call that commits
is one that `Memory` takes (`Alike.follow_call`). So whatever the tables have
come to, there is an in-memory store that answers alike, and the responses
are the same up to the fractions of a microsecond (`Alike.serve_eq`).

With that, the status of every request is a function of the window: what
the texts say, and what is stored.
-/

namespace EthIndexer

open Go

/-- The handlers on the in-memory store. -/
def Memory.handler (ord : RangeOrder UInt64 BlockBundle) (m : Memory) (ex : Server.Exchange) :
    Server.Handler where
  toExchange := ex
  queryService := m.queryStore ord none
  healthService := m.readinessStore ord none

/-- The handlers on the tables, with a connection that answers. -/
def Postgres.handler (env : PostgresEnv) (T : Tables) (ex : Server.Exchange) :
    Server.Handler where
  toExchange := ex
  queryService := Postgres.queryStore env none T
  healthService := Postgres.readinessStore env (.ok ()) T

@[simp] theorem Postgres.toExchange_handler (env : PostgresEnv) (T : Tables)
    (ex : Server.Exchange) : (Postgres.handler env T ex).toExchange = ex := rfl

section Shadow

variable {m : Memory} {T T' : Tables} {B : BundleMap}

/-- **The in-memory store follows the tables**, whatever the call is and
whatever fails: it takes the update, or neither store changes. -/
theorem Alike.follow_call (h : Alike m T B) (env : PostgresEnv)
    (ord : RangeOrder UInt64 BlockBundle) (u : CanonicalUpdate) :
    ∃ m' B', Alike m' (Postgres.applyCanonicalUpdate env ord u T).2 B' ∧
      (m' = m ∨ m.Accepts u ∧ m' = Memory.after ord m u) := by
  rcases Postgres.applyCanonicalUpdate_cases h.holds env ord u with
    ⟨ha, T', heq, hT', hchain⟩ | ⟨f, heq⟩
  · have hm := h.memory_accepts ha
    rw [heq]
    exact ⟨_, _, h.accepted hm hT' hchain ord, Or.inr ⟨hm, rfl⟩⟩
  · rw [heq]
    exact ⟨m, B, h, Or.inl rfl⟩

/-- An update that is accepted is one more. -/
theorem Memory.updates_after {m₀ : Memory} (h : m₀.Updates m) {u : CanonicalUpdate}
    (hu : m.Accepts u) (ord : RangeOrder UInt64 BlockBundle) :
    m₀.Updates (Memory.after ord m u) := by
  have happly := Memory.applyCanonicalUpdate_of_accepts ord hu
  have hok : (Memory.applyCanonicalUpdate ord none m u).1 = .ok () := by rw [happly]
  have hstep := h.apply hok
  rwa [happly] at hstep

/-- **The in-memory store follows any calls.** -/
theorem Alike.exists_updates (h : Alike m T B) (hcalls : Postgres.Calls T T') :
    ∃ m' B', m.Updates m' ∧ Alike m' T' B' := by
  induction hcalls with
  | refl => exact ⟨m, B, .refl m, h⟩
  | apply env ord u _ ih =>
    obtain ⟨m', B', hupdates, h'⟩ := ih
    obtain ⟨m₂, B₂, h₂, rfl | ⟨hm, rfl⟩⟩ := h'.follow_call env ord u
    · exact ⟨_, B₂, hupdates, h₂⟩
    · exact ⟨_, B₂, Memory.updates_after hupdates hm ord, h₂⟩

/-- Every run of the tables has its in-memory store. -/
theorem Postgres.Calls.exists_alike (h : Postgres.Calls Tables.empty T) :
    ∃ m B, m.Reachable ∧ Alike m T B := by
  obtain ⟨m, B, hupdates, halike⟩ := alike_new.exists_updates h
  exact ⟨m, B, hupdates.reachable .new, halike⟩

variable {env : PostgresEnv} {ex : Server.Exchange} (ord : RangeOrder UInt64 BlockBundle)

/-- **Stores that are alike respond alike.** -/
theorem Alike.serve_eq (h : Alike m T B) (henv : env.Faultless) (hwire : FaithfulWire env.wire)
    (hex : ex.Rounds) (target : Server.Target) :
    ((m.handler ord ex).serve target).rounded =
      ((Postgres.handler env T ex).serve target).rounded := by
  have hqueries : Server.contentOf (m.queryStore ord none) =
      Server.contentOf (Postgres.queryStore env none T) := by
    rw [Server.contentOf, Server.contentOf, Service.QueryStore.mk.injEq]
    exact ⟨funext (h.blockByNumber_eq henv hwire), funext (h.transactionByHash_eq henv hwire ord),
      funext (h.eventsByAddress_eq henv ord)⟩
  have hreadiness : m.readinessStore ord none = Postgres.readinessStore env (.ok ()) T := by
    rw [Memory.readinessStore, Postgres.readinessStore, h.canonicalTip_eq henv ord]
    rfl
  refine Server.Handler.serve_rounded_of_handle (m.handler ord ex) (Postgres.handler env T ex)
    rfl ?_
  rw [← Server.Handler.handle_content (h := m.handler ord ex) hex,
    ← Server.Handler.handle_content (h := Postgres.handler env T ex) hex]
  simp only [Memory.handler, Postgres.handler, Server.Handler.byContent, hqueries, hreadiness]

/-- **Both stores respond alike**: after the same updates, every request
gets the same response from either, but for the fractions of a microsecond
in the instant a block was indexed at. -/
theorem TakenByBoth.responses_alike (h : TakenByBoth m T) (henv : env.Faultless)
    (hwire : FaithfulWire env.wire) (hex : ex.Rounds) (target : Server.Target) :
    ((m.handler ord ex).serve target).rounded =
      ((Postgres.handler env T ex).serve target).rounded := by
  obtain ⟨B, halike⟩ := h.alike
  exact halike.serve_eq ord henv hwire hex target

/-- Both find block 7. -/
theorem responses_alike_seven :
    ((Postgres.handler .plain Postgres.tablesSeven (.plain "1")).serve
      (.blockByNumber [55])).rounded.status = 200 := by
  have htaken : TakenByBoth Memory.storedSeven Postgres.tablesSeven :=
    .apply .new (Prod.ext (by decide +kernel) rfl) (Prod.ext (by decide +kernel) rfl)
  rw [← htaken.responses_alike (ascending BlockBundle) PostgresEnv.faultless_plain
    faithfulWire_plain (Server.Exchange.rounds_plain "1")]
  decide +kernel

end Shadow

/-! ## What the tables respond -/

namespace Postgres

open Server Server.Handler

variable {T : Tables} {B : BundleMap} {env : PostgresEnv} {ex : Exchange}
  {raw : Text}

/-- A block of the window is found, and any other number is not. -/
theorem serve_blockByNumber (h : Mirrors T B) (henv : env.Faultless)
    (hwire : FaithfulWire env.wire) {n : UInt64} (hraw : parseBlockNumber raw = .ok n) :
    (handler env T ex).serve (.blockByNumber raw) = match B.get? n with
      | none => ex.writeError 404 "block_not_found"
          "block was not found"
      | some b => ex.writeJSON 200 (.block (newBlockResponse ex.geth
          { block := b.block.stored
            transactionHashes := b.transactions.map Transaction.hash })) := by
  have hanswer := blockByNumber_eq h henv hwire n
  simp only [serve, handle, Handler.blockByNumber, hraw, Service.block]
  simp only [handler, queryStore, hanswer]
  cases B.get? n <;> rfl

/-- A transaction that is not stored is not found. -/
theorem serve_transactionByHash_of_not_mem (h : Mirrors T B) (henv : env.Faultless) {hash : Hash}
    (hraw : parseTransactionHash ex.geth raw = .ok hash)
    (hnone : ¬ B.Has fun b => ∃ t ∈ b.transactions, t.hash = hash) :
    (handler env T ex).serve (.transactionByHash raw) =
      ex.writeError 404 "transaction_not_found"
        "transaction was not found" := by
  have hselect : T.selectTransaction hash.1 = none :=
    selectTransaction_of_not_mem h fun n b hb t ht hhash => hnone ⟨n, b, hb, t, ht, hhash⟩
  simp only [serve, handle, Handler.transactionByHash, toExchange_handler, hraw,
    Service.transaction]
  simp only [handler, queryStore, transactionByHash, call_of_faultless henv, ok_bind, hselect]
  rfl

/-- **A stored transaction has a response**, since its value is not
nil. -/
theorem serve_transactionByHash_of_mem (h : Mirrors T B) (henv : env.Faultless)
    (hwire : FaithfulWire env.wire) {n : UInt64} {b : BlockBundle} {t : Transaction}
    (hb : B.get? n = some b) (ht : t ∈ b.transactions)
    (hraw : parseTransactionHash ex.geth raw = .ok t.hash) :
    ∃ x, newTransactionResponse ex.geth (Memory.transactionAnswer b t) = .ok x ∧
      (handler env T ex).serve (.transactionByHash raw) =
        ex.writeJSON 200 (.transaction x) := by
  have hanswer := transactionByHash_of_mem h henv hwire hb ht
  -- the events are read back with their content
  have hcontent : ∀ r : TransactionResult, transactionByHash env T t.hash = .ok r →
      newTransactionResponse ex.geth r =
        newTransactionResponse ex.geth (Memory.transactionAnswer b t) := by
    intro r hr
    rw [hanswer] at hr
    cases hr
    rw [← newTransactionResponse_content, ← newTransactionResponse_content ex.geth
      (Memory.transactionAnswer b t)]
    refine congrArg _ ?_
    simp only [TransactionResult.content, Memory.transactionAnswer, List.map_map, Function.comp_def,
      content_storedEvent, content_cloneTransaction]
  obtain ⟨value, hvalue⟩ := Option.ne_none_iff_exists'.1 ((h.storable.fits hb).transaction t ht).value
  obtain ⟨x, hx⟩ : ∃ x, newTransactionResponse ex.geth (Memory.transactionAnswer b t) = .ok x := by
    simp only [newTransactionResponse, Memory.transactionAnswer, hvalue]
    exact ⟨_, rfl⟩
  refine ⟨x, hx, ?_⟩
  simp only [serve, handle, Handler.transactionByHash, toExchange_handler, hraw,
    Service.transaction]
  simp only [handler, queryStore]
  rw [hanswer]
  simp only [Except.mapError, (hcontent _ hanswer).trans hx]

end Postgres

section Events

open Server Server.Handler

variable {m : Memory} {T : Tables} {B : BundleMap} {env : PostgresEnv} {ex : Exchange}
  {raw : Text} {parameters : Values} {address : Address} {limit : UInt32}
  {before : Option EventCursor}

/-- A limit that is accepted is one of the store. -/
theorem limit_le_of_parseEventLimit (h : parseEventLimit parameters = .ok limit) :
    1 ≤ limit ∧ limit ≤ maxEventPageSize := by
  rcases parseEventLimit_eq_ok_iff.1 h with ⟨-, rfl⟩ | ⟨_, -, -, hlimit⟩
  · decide
  · exact hlimit

/-- **A page of the interface** is a page of the listing below the
cursor. -/
theorem Alike.serve_eventsByAddress_of_knows (h : Alike m T B) (henv : env.Faultless)
    (haddress : parseEventAddress ex.geth raw = .ok address)
    (hlimit : parseEventLimit parameters = .ok limit)
    (hcursor : parseEventCursor parameters = .ok before) (hknows : ∀ c ∈ before, m.Knows c) :
    (Postgres.handler env T ex).serve (.eventsByAddress raw parameters) =
      ex.writeJSON 200 (.eventPage (newEventPageResponse ex.geth (Memory.answer
        (Paging.page limit.toNat (Paging.below Event.position (before.map EventCursor.position)
          (m.listed address)))))) := by
  have hpage := h.eventsByAddress_eq henv (ascending BlockBundle) ⟨address, limit, before⟩
  have hmemory : m.eventsByAddress (ascending BlockBundle) none ⟨address, limit, before⟩ = _ :=
    Memory.eventsByAddress_of_knows h.invariant (limit_le_of_parseEventLimit hlimit).2 hknows
  rw [hmemory] at hpage
  simp only [serve, handle, Handler.eventsByAddress, Postgres.toExchange_handler, haddress, hlimit,
    hcursor, Service.events]
  simp only [Postgres.handler, Postgres.queryStore]
  generalize Postgres.eventsByAddress env T none ⟨address, limit, before⟩ = r at hpage
  cases r with
  | error f => cases hpage
  | ok page =>
    simp only [Except.map, Except.ok.injEq] at hpage
    simp only [Except.mapError]
    rw [← newEventPageResponse_content, ← hpage, newEventPageResponse_content]

/-- A cursor whose block has gone is refused. -/
theorem Alike.serve_eventsByAddress_of_stale (h : Alike m T B) (henv : env.Faultless)
    (haddress : parseEventAddress ex.geth raw = .ok address)
    (hlimit : parseEventLimit parameters = .ok limit)
    (hcursor : parseEventCursor parameters = .ok before) (hstale : ∃ c ∈ before, ¬ m.Knows c) :
    (Postgres.handler env T ex).serve (.eventsByAddress raw parameters) =
      ex.writeError 409 "stale_cursor"
        "cursor is no longer canonical; restart pagination" := by
  have hpage := h.eventsByAddress_eq henv (ascending BlockBundle) ⟨address, limit, before⟩
  have hmemory : m.eventsByAddress (ascending BlockBundle) none ⟨address, limit, before⟩ = _ :=
    Memory.eventsByAddress_of_stale (limit_le_of_parseEventLimit hlimit).2 hstale
  rw [hmemory] at hpage
  simp only [serve, handle, Handler.eventsByAddress, Postgres.toExchange_handler, haddress, hlimit,
    hcursor, Service.events]
  simp only [Postgres.handler, Postgres.queryStore]
  generalize Postgres.eventsByAddress env T none ⟨address, limit, before⟩ = r at hpage
  cases r with
  | ok page => cases hpage
  | error f =>
    simp only [Except.map, Except.error.injEq] at hpage
    subst hpage
    rfl

end Events

/-! ## The status of every request -/

/-- The block that a cursor names is in the window. -/
def BundleMap.Knows (B : BundleMap) (c : EventCursor) : Prop :=
  ∃ b, B.get? c.blockNumber = some b ∧ b.block.hash = c.blockHash

theorem Alike.knows_iff {m : Memory} {T : Tables} {B : BundleMap} (h : Alike m T B)
    {c : EventCursor} : m.Knows c ↔ B.Knows c := by
  simp only [Memory.Knows, BundleMap.Knows, h.get?, Option.map_eq_some_iff]
  constructor
  · rintro ⟨_, ⟨b, hb, rfl⟩, hhash⟩
    exact ⟨b, hb, hhash⟩
  · rintro ⟨b, hb, hhash⟩
    exact ⟨cloneBundle b, ⟨b, hb, rfl⟩, hhash⟩

open Classical in
/-- **The status that a request should get**, by its texts and by what the
window holds. -/
noncomputable def BundleMap.status (B : BundleMap) (geth : Server.GoEthereum) : Server.Target → ℕ
  | .health => 200
  | .readiness => if B = ∅ then 503 else 200
  | .blockByNumber raw =>
    match Server.parseBlockNumber raw with
    | .error _ => 400
    | .ok n => if n ∈ B then 200 else 404
  | .transactionByHash raw =>
    match Server.parseTransactionHash geth raw with
    | .error _ => 400
    | .ok hash => if B.Has fun b => ∃ t ∈ b.transactions, t.hash = hash then 200 else 404
  | .eventsByAddress raw parameters =>
    match Server.parseEventAddress geth raw, Server.parseEventLimit parameters,
        Server.parseEventCursor parameters with
    | .ok _, .ok _, .ok before => if ∀ c ∈ before, B.Knows c then 200 else 409
    | _, _, _ => 400

section Status

open Server Server.Handler

variable {m : Memory} {T : Tables} {B : BundleMap} {env : PostgresEnv} (ex : Exchange)

/-- The status of a page, by its texts and its cursor. -/
theorem Alike.status_eventsByAddress (h : Alike m T B) (henv : env.Faultless) (raw : Text)
    (parameters : Values) :
    ∃ body, (Postgres.handler env T ex).serve (.eventsByAddress raw parameters) =
      ex.writeJSON (B.status ex.geth (.eventsByAddress raw parameters)) body := by
  cases haddress : parseEventAddress ex.geth raw with
  | error err =>
    simp only [BundleMap.status, serve, handle, Handler.eventsByAddress,
      Postgres.toExchange_handler, haddress]
    exact ⟨_, rfl⟩
  | ok address =>
    cases hlimit : parseEventLimit parameters with
    | error err =>
      simp only [BundleMap.status, serve, handle, Handler.eventsByAddress,
        Postgres.toExchange_handler, haddress, hlimit]
      exact ⟨_, rfl⟩
    | ok limit =>
      cases hcursor : parseEventCursor parameters with
      | error err =>
        simp only [BundleMap.status, serve, handle, Handler.eventsByAddress,
          Postgres.toExchange_handler, haddress, hlimit, hcursor]
        exact ⟨_, rfl⟩
      | ok before =>
        simp only [BundleMap.status, haddress, hlimit, hcursor]
        split
        · rename_i hknows
          exact ⟨_, h.serve_eventsByAddress_of_knows henv haddress hlimit hcursor
            fun c hc => h.knows_iff.2 (hknows c hc)⟩
        · rename_i hstale
          push Not at hstale
          obtain ⟨c, hc, hnot⟩ := hstale
          exact ⟨_, h.serve_eventsByAddress_of_stale henv haddress hlimit hcursor
            ⟨c, hc, fun hknows => hnot (h.knows_iff.1 hknows)⟩⟩

/-- The process is ready once a block is stored. -/
theorem Alike.status_readiness (h : Alike m T B) (henv : env.Faultless) :
    ∃ body, (Postgres.handler env T ex).serve .readiness =
      ex.writeJSON (B.status ex.geth .readiness) body := by
  have htip : Postgres.canonicalTip env T =
      (Postgres.decodeTip T.selectTip).wrap "decode canonical tip" := by
    rw [Postgres.canonicalTip, call_of_faultless henv, ok_bind]
  simp only [BundleMap.status, serve, handle, Handler.readiness, Service.ready, Postgres.handler,
    Postgres.readinessStore, htip]
  rcases Postgres.selectTip_cases h.holds.mirrors with ⟨rfl, hselect⟩ | ⟨b, hb, hselect⟩
  · rw [hselect, if_pos rfl]
    exact ⟨_, rfl⟩
  · have hne : B ≠ ∅ := by
      rintro rfl
      have hget := hb.get?
      rw [GoMap.get?_empty] at hget
      cases hget
    rw [hselect, Postgres.decodeTip_row, if_neg hne]
    exact ⟨_, rfl⟩

/-- **Every request gets the status it should**, on tables that any calls
have come to and with a database that answers. In particular none fails,
and nothing is logged but a response that cannot be written. -/
theorem Postgres.Calls.statuses (h : Postgres.Calls Tables.empty T) (henv : env.Faultless)
    (hwire : FaithfulWire env.wire) :
    ∃ B, Postgres.Holds T B ∧ ∀ target, ∃ body,
      (Postgres.handler env T ex).serve target = ex.writeJSON (B.status ex.geth target) body := by
  obtain ⟨m, B, -, halike⟩ := h.exists_alike
  have hmirrors := halike.holds.mirrors
  refine ⟨B, halike.holds, fun target => ?_⟩
  cases target with
  | health => exact ⟨_, rfl⟩
  | readiness => exact halike.status_readiness ex henv
  | blockByNumber raw =>
    cases hraw : parseBlockNumber raw with
    | error err =>
      simp only [BundleMap.status, serve, handle, Handler.blockByNumber, hraw]
      exact ⟨_, rfl⟩
    | ok n =>
      simp only [BundleMap.status, hraw, Postgres.serve_blockByNumber hmirrors henv hwire hraw]
      cases hb : B.get? n with
      | none =>
        rw [if_neg (GoMap.get?_eq_none_iff.1 hb)]
        exact ⟨_, rfl⟩
      | some b =>
        rw [if_pos (GoMap.mem_of_get? hb)]
        exact ⟨_, rfl⟩
  | transactionByHash raw =>
    cases hraw : parseTransactionHash ex.geth raw with
    | error err =>
      simp only [BundleMap.status, serve, handle, Handler.transactionByHash,
        Postgres.toExchange_handler, hraw]
      exact ⟨_, rfl⟩
    | ok hash =>
      simp only [BundleMap.status, hraw]
      split
      · rename_i hhas
        obtain ⟨n, b, hb, t, ht, rfl⟩ := hhas
        obtain ⟨x, -, hserve⟩ :=
          Postgres.serve_transactionByHash_of_mem hmirrors henv hwire hb ht hraw
        exact ⟨_, hserve⟩
      · rename_i hnone
        exact ⟨_, Postgres.serve_transactionByHash_of_not_mem hmirrors henv hraw hnone⟩
  | eventsByAddress raw parameters =>
    exact halike.status_eventsByAddress ex henv raw parameters

/-- The tables with block 7 have no block 8. -/
theorem statuses_seven : ∃ B, Postgres.Holds Postgres.tablesSeven B ∧
    ∃ body, (Postgres.handler .plain Postgres.tablesSeven (.plain "1")).serve
      (.blockByNumber [56]) = (Exchange.plain "1").writeJSON
        (B.status .plain (.blockByNumber [56])) body := by
  have hcalls : Postgres.Calls Tables.empty Postgres.tablesSeven := .apply _ _ _ .refl
  obtain ⟨B, hB, hstatus⟩ := hcalls.statuses (.plain "1") PostgresEnv.faultless_plain
    faithfulWire_plain
  exact ⟨B, hB, hstatus _⟩

end Status

end EthIndexer
