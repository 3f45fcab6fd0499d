import EthIndexer.Server.Texts
import EthIndexer.Store.Answers
/-!
# What a response says

A response is made of a record of the store, and of its content only: it
does not show whether an empty slice is nil (`handle_content`). It loses
nothing else; two records with one response have the same content, since
hashes, addresses, amounts and cursors each have their own text.

An error of the store is shown by its kind at most. What the kind is not
known of goes to the log, once, and the client is told no more than that
something failed. A response that cannot be encoded or written leaves an
entry of its own, after that.
-/

namespace EthIndexer

open Go

namespace Server

/-! ## Records by their content -/

section Content

variable (geth : GoEthereum)

/-- The response of an event does not show which slices are nil. -/
theorem newEventResponse_content (e : Event) :
    newEventResponse geth e.content = newEventResponse geth e := rfl

/-- The response of a transaction does not show which slices are nil. -/
theorem newTransactionResponse_content (r : TransactionResult) :
    newTransactionResponse geth r.content = newTransactionResponse geth r := by
  have hevents : r.content.events.map (newEventResponse geth) =
      r.events.map (newEventResponse geth) := by
    rw [TransactionResult.content, List.map_map]
    rfl
  unfold newTransactionResponse
  rw [hevents]
  rfl

/-- Nor does that of a page. -/
theorem newEventPageResponse_content (p : EventPage) :
    newEventPageResponse geth p.content = newEventPageResponse geth p := by
  simp only [newEventPageResponse, EventPage.content, List.map_map]
  rfl

end Content

/-! ## Nothing is lost -/

/-- Bytes that print alike are equal. -/
theorem HexFixed.Lawful.hex_injective {n : ℕ} {lib : HexFixed n} (hlib : lib.Lawful) :
    Function.Injective lib.hex := fun a b h =>
  Subtype.ext ((h ▸ hlib.hex a).inj (hlib.hex b))

/-- Data that print alike are equal. -/
theorem GoEthereum.Lawful.encode_injective {geth : GoEthereum} (hgeth : geth.Lawful) :
    Function.Injective geth.encode := fun a b h => (h ▸ hgeth.encode a).inj (hgeth.encode b)

/-- A cursor is what its text is decoded to. -/
theorem encodeEventCursor_injective : Function.Injective encodeEventCursor := by
  intro c c' h
  have hbytes : some (cursorBytes c) = some (cursorBytes c') := by
    rw [← Base64.decode_encode rawURLEncoding (cursorBytes c),
      ← Base64.decode_encode rawURLEncoding (cursorBytes c')]
    exact congrArg _ h
  have hfixed : (⟨cursorBytes c, length_cursorBytes c⟩ : FixedBytes eventCursorEncodedSize) =
      ⟨cursorBytes c', length_cursorBytes c'⟩ := Subtype.ext (Option.some.inj hbytes)
  rw [← cursorOfBytes_cursorBytes c, ← cursorOfBytes_cursorBytes c', hfixed]

/-- Amounts that print alike are equal, and one that is not given prints as
none. -/
theorem optionalBigIntString_injective : Function.Injective optionalBigIntString :=
  Option.map_injective Decimal.intText_injective

section Lossless

variable {geth : GoEthereum} (hgeth : geth.Lawful)

include hgeth

/-- Events with one response differ in nil slices at most. -/
theorem newEventResponse_inj {e e' : Event} (h : newEventResponse geth e = newEventResponse geth e') :
    e.content = e'.content := by
  simp only [newEventResponse, EventResponse.mk.injEq] at h
  obtain ⟨hnumber, hblock, htransaction, hindex, hlog, haddress, htopics, hdata⟩ := h
  have hhash := hgeth.hash.hex_injective
  simp only [Event.content, hnumber, hhash hblock, hhash htransaction, hindex, hlog,
    hgeth.address.hex_injective haddress, hgeth.encode_injective hdata,
    List.map_injective_iff.2 hhash htopics]

/-- Lists of events, response by response. -/
theorem map_content_of_map_response {l l' : List Event}
    (h : l.map (newEventResponse geth) = l'.map (newEventResponse geth)) :
    l.map Event.content = l'.map Event.content := by
  induction l generalizing l' with
  | nil =>
    cases l' with
    | nil => rfl
    | cons e' l' => cases h
  | cons e l ih =>
    cases l' with
    | nil => cases h
    | cons e' l' =>
      obtain ⟨hhead, htail⟩ := List.cons.inj h
      rw [List.map_cons, List.map_cons, newEventResponse_inj hgeth hhead, ih htail]

/-- The response of a block shows all of its record. -/
theorem newBlockResponse_inj {r r' : BlockResult}
    (h : newBlockResponse geth r = newBlockResponse geth r') : r = r' := by
  obtain ⟨⟨_, _, _, _, _, _, _, _, _⟩, _⟩ := r
  obtain ⟨⟨_, _, _, _, _, _, _, _, _⟩, _⟩ := r'
  simp only [newBlockResponse, BlockResponse.mk.injEq] at h
  obtain ⟨rfl, hhash, hparent, rfl, rfl, rfl, hfee, rfl, hhashes, rfl⟩ := h
  have hinj := hgeth.hash.hex_injective
  rw [hinj hhash, hinj hparent, optionalBigIntString_injective hfee,
    List.map_injective_iff.2 hinj hhashes]

omit hgeth in
/-- A transaction without a value has no response. -/
theorem newTransactionResponse_eq_ok {r : TransactionResult} {x : TransactionResponse}
    (h : newTransactionResponse geth r = .ok x) :
    r.transaction.value.map Decimal.intText = some x.valueWei := by
  unfold newTransactionResponse at h
  split at h
  · cases h
  · rename_i value hvalue
    cases h
    rw [hvalue]
    rfl

/-- Transactions with one response differ in nil slices at most. -/
theorem newTransactionResponse_inj {r r' : TransactionResult} {x : TransactionResponse}
    (h : newTransactionResponse geth r = .ok x) (h' : newTransactionResponse geth r' = .ok x) :
    r.content = r'.content := by
  have hvalue : r.transaction.value = r'.transaction.value := by
    have heq := (newTransactionResponse_eq_ok h).trans (newTransactionResponse_eq_ok h').symm
    exact Option.map_injective Decimal.intText_injective heq
  rw [← h', newTransactionResponse, newTransactionResponse, hvalue] at h
  cases hv : r'.transaction.value with
  | none =>
    have hsome := newTransactionResponse_eq_ok h'
    rw [hv] at hsome
    cases hsome
  | some value =>
    rw [hv] at h
    simp only [Except.ok.injEq, TransactionResponse.mk.injEq] at h
    obtain ⟨hhash, hnumber, hblock, hindex, htype, hnonce, hsender, hrecipient, -, hgas, hprice,
      hmax, hpriority, hinput, hevents⟩ := h
    have haddress := hgeth.address.hex_injective
    simp only [TransactionResult.content, Transaction.content, hvalue,
      hgeth.hash.hex_injective hhash, hnumber, hgeth.hash.hex_injective hblock, hindex, htype,
      hnonce, haddress hsender, Option.map_injective haddress hrecipient, hgas,
      optionalBigIntString_injective hprice, optionalBigIntString_injective hmax,
      optionalBigIntString_injective hpriority, hgeth.encode_injective hinput,
      map_content_of_map_response hgeth hevents]

/-- Pages with one response differ in nil slices at most. -/
theorem newEventPageResponse_inj {p p' : EventPage}
    (h : newEventPageResponse geth p = newEventPageResponse geth p') : p.content = p'.content := by
  simp only [newEventPageResponse, EventPageResponse.mk.injEq] at h
  obtain ⟨hevents, hcursor⟩ := h
  simp only [EventPage.content, map_content_of_map_response hgeth hevents,
    Option.map_injective encodeEventCursor_injective hcursor]

end Lossless

/-- **A response loses nothing**: records with one response have one
content. -/
theorem responses_lossless {geth : GoEthereum} (hgeth : geth.Lawful) :
    (∀ r r' : BlockResult, newBlockResponse geth r = newBlockResponse geth r' → r = r') ∧
    (∀ (r r' : TransactionResult) (x : TransactionResponse),
      newTransactionResponse geth r = .ok x → newTransactionResponse geth r' = .ok x →
        r.content = r'.content) ∧
    ∀ p p' : EventPage, newEventPageResponse geth p = newEventPageResponse geth p' →
      p.content = p'.content :=
  ⟨fun _ _ => newBlockResponse_inj hgeth, fun _ _ _ => newTransactionResponse_inj hgeth,
    fun _ _ => newEventPageResponse_inj hgeth⟩

/-- Blocks with other transactions have other responses. -/
theorem responses_lossless_blocks :
    newBlockResponse .plain ⟨default, [.spelling 70]⟩ ≠
      newBlockResponse .plain ⟨default, [.spelling 71]⟩ := fun h => by
  have heq := (responses_lossless GoEthereum.lawful_plain).1 _ _ h
  exact absurd heq (by decide)

/-! ## Responses by the content of the answers -/

/-- The instant of a block to the microsecond. -/
def BlockResponse.rounded (b : BlockResponse) : BlockResponse :=
  { b with indexedAt := microseconds b.indexedAt }

def Body.rounded : Body → Body
  | .block b => .block b.rounded
  | body => body

def Response.rounded (r : Response) : Response := { r with body := r.body.map Body.rounded }

/-- A store that answers with contents. -/
def contentOf (store : Service.QueryStore) : Service.QueryStore where
  blockByNumber n := (store.blockByNumber n).map BlockResult.content
  transactionByHash hash := (store.transactionByHash hash).map TransactionResult.content
  eventsByAddress query := (store.eventsByAddress query).map EventPage.content

theorem mapError_map {α β ε ε' : Type} (x : Except ε α) (f : α → β) (g : ε → ε') :
    (x.map f).mapError g = (x.mapError g).map f := by
  cases x <;> rfl

namespace Exchange

variable (ex : Exchange)

/-- Whether a block's response can be written does not hang on the
fractions of a microsecond. -/
def Rounds : Prop :=
  ∀ b : BlockResponse, ex.encodeError (.block b.rounded) = ex.encodeError (.block b)

@[simp] theorem status_writeJSON (status : ℕ) (body : Body) :
    (ex.writeJSON status body).status = status := by
  unfold writeJSON
  split <;> rfl

/-- A client that has a body has the whole of it. -/
theorem body_writeJSON_eq_some_iff {status : ℕ} {body body' : Body} :
    (ex.writeJSON status body).body = some body' ↔ ex.encodeError body = none ∧ body = body' := by
  unfold writeJSON
  cases ex.encodeError body <;> simp

variable {ex}

/-- The body of an error is no record. -/
theorem exists_of_body_writeError {status : ℕ} {code message : String} {body : Body}
    (h : (ex.writeError status code message).body = some body) : ∃ err, body = .error err :=
  ⟨_, (ex.body_writeJSON_eq_some_iff.1 h).2.symm⟩

/-- Rounding before a response is written or after. -/
theorem Rounds.rounded_writeJSON (hex : ex.Rounds) (status : ℕ) (body : Body) :
    (ex.writeJSON status body).rounded = ex.writeJSON status body.rounded := by
  have hencode : ex.encodeError body.rounded = ex.encodeError body := by
    cases body with
    | block b => exact hex b
    | _ => rfl
  unfold writeJSON
  rw [hencode]
  cases ex.encodeError body <;> rfl

/-- The same for one that comes after entries of the log. -/
theorem Rounds.rounded_respond (hex : ex.Rounds) (logged : List Logged) (status : ℕ) (body : Body) :
    (ex.respond logged status body).rounded = ex.respond logged status body.rounded := by
  unfold respond
  rw [← hex.rounded_writeJSON]
  rfl

/-- An error's response has no instant in it. -/
theorem Rounds.rounded_writeError (hex : ex.Rounds) (status : ℕ) (code message : String) :
    (ex.writeError status code message).rounded = ex.writeError status code message :=
  hex.rounded_writeJSON status _

theorem Rounds.rounded_internalError (hex : ex.Rounds) (err : Service.Err) (subject : Subject)
    (message : String) :
    (ex.internalError err subject message).rounded = ex.internalError err subject message :=
  hex.rounded_respond _ 500 _

/-- A connection that every response is written to. -/
def plain (requestID : String) : Exchange where
  geth := .plain
  encodeError _ := none
  recoverer _ := ⟨500, none, []⟩
  requestID := requestID

theorem rounds_plain (requestID : String) : (plain requestID).Rounds := fun _ => rfl

end Exchange

namespace Handler

/-- The same handlers, on a store that answers with contents. -/
def byContent (h : Handler) : Handler := { h with queryService := contentOf h.queryService }

section ByContent

variable {h : Handler} (hex : h.Rounds)

include hex

theorem readiness_byContent :
    h.byContent.readiness = h.readiness.map Response.rounded := by
  simp only [readiness, byContent]
  cases Service.ready h.healthService with
  | ok tip =>
    exact congrArg Except.ok (hex.rounded_writeJSON 200 (.readiness "ready" tip.number)).symm
  | error stop =>
    cases stop with
    | panic text => rfl
    | error err => exact congrArg Except.ok (hex.rounded_respond _ 503 (.health "not_ready")).symm

theorem blockByNumber_byContent (raw : Text) :
    h.byContent.blockByNumber raw = (h.blockByNumber raw).map Response.rounded := by
  simp only [blockByNumber, byContent, Service.block, contentOf, mapError_map]
  cases parseBlockNumber raw with
  | error err => exact congrArg Except.ok (hex.rounded_writeError _ _ _).symm
  | ok n =>
    dsimp only
    cases (h.queryService.blockByNumber n).mapError _ with
    | ok r =>
      exact congrArg Except.ok (hex.rounded_writeJSON 200 (.block (newBlockResponse h.geth r))).symm
    | error stop =>
      cases stop with
      | panic text => rfl
      | error err =>
        simp only [Except.map]
        split
        · exact congrArg Except.ok (hex.rounded_writeError _ _ _).symm
        · exact congrArg Except.ok (hex.rounded_internalError _ _ _).symm

theorem transactionByHash_byContent (raw : Text) :
    h.byContent.transactionByHash raw = (h.transactionByHash raw).map Response.rounded := by
  simp only [transactionByHash, byContent, Service.transaction, contentOf, mapError_map]
  cases parseTransactionHash h.geth raw with
  | error err => exact congrArg Except.ok (hex.rounded_writeError _ _ _).symm
  | ok hash =>
    dsimp only
    cases (h.queryService.transactionByHash hash).mapError _ with
    | ok r =>
      simp only [Except.map, newTransactionResponse_content]
      cases newTransactionResponse h.geth r with
      | error err => exact congrArg Except.ok (hex.rounded_internalError _ _ _).symm
      | ok response =>
        exact congrArg Except.ok (hex.rounded_writeJSON 200 (.transaction response)).symm
    | error stop =>
      cases stop with
      | panic text => rfl
      | error err =>
        simp only [Except.map]
        split
        · exact congrArg Except.ok (hex.rounded_writeError _ _ _).symm
        · exact congrArg Except.ok (hex.rounded_internalError _ _ _).symm

theorem eventsByAddress_byContent (raw : Text) (parameters : Values) :
    h.byContent.eventsByAddress raw parameters =
      (h.eventsByAddress raw parameters).map Response.rounded := by
  simp only [eventsByAddress, byContent, Service.events, contentOf, mapError_map]
  cases parseEventAddress h.geth raw with
  | error err => exact congrArg Except.ok (hex.rounded_writeError _ _ _).symm
  | ok address =>
    cases parseEventLimit parameters with
    | error err => exact congrArg Except.ok (hex.rounded_writeError _ _ _).symm
    | ok limit =>
      cases parseEventCursor parameters with
      | error err => exact congrArg Except.ok (hex.rounded_writeError _ _ _).symm
      | ok cursor =>
        dsimp only
        cases (h.queryService.eventsByAddress ⟨address, limit, cursor⟩).mapError _ with
        | ok page =>
          simp only [Except.map, newEventPageResponse_content]
          exact congrArg Except.ok
            (hex.rounded_writeJSON 200 (.eventPage (newEventPageResponse h.geth page))).symm
        | error stop =>
          cases stop with
          | panic text => rfl
          | error err =>
            simp only [Except.map]
            split
            · exact congrArg Except.ok (hex.rounded_writeError _ _ _).symm
            · split
              · exact congrArg Except.ok (hex.rounded_writeError _ _ _).symm
              · exact congrArg Except.ok (hex.rounded_internalError _ _ _).symm

/-- **A response depends on the content of an answer**, and on the instant
to the microsecond. -/
theorem handle_content (target : Target) :
    h.byContent.handle target = (h.handle target).map Response.rounded := by
  cases target with
  | health => exact congrArg Except.ok (hex.rounded_writeJSON 200 (.health "ok")).symm
  | readiness => exact readiness_byContent hex
  | blockByNumber raw => exact blockByNumber_byContent hex raw
  | transactionByHash raw => exact transactionByHash_byContent hex raw
  | eventsByAddress raw parameters => exact eventsByAddress_byContent hex raw parameters

end ByContent

/-- A response by content, whether the handler returns or panics. -/
theorem serve_rounded_of_handle (h h' : Handler) (hex : h'.toExchange = h.toExchange)
    {target : Target} (heq : (h.handle target).map Response.rounded =
      (h'.handle target).map Response.rounded) :
    (h.serve target).rounded = (h'.serve target).rounded := by
  unfold serve
  rw [hex]
  cases hr : h.handle target with
  | error text =>
    cases hr' : h'.handle target with
    | error text' =>
      rw [hr, hr'] at heq
      cases heq
      rfl
    | ok r' =>
      rw [hr, hr'] at heq
      cases heq
  | ok r =>
    cases hr' : h'.handle target with
    | error text' =>
      rw [hr, hr'] at heq
      cases heq
    | ok r' =>
      rw [hr, hr'] at heq
      exact Except.ok.inj heq

/-! ## What is told of an error -/

variable (h : Handler)

/-- An error without its text, and with the causes only that the service
looks for. -/
def mask : Fault → Fault
  | .error causes _ => .error
      (causes.filter fun s => s = .notFound ∨ s = .invalidQuery ∨ s = .staleCursor) ""
  | .panic _ => .panic ""

/-- The same handlers, on stores whose errors are masked. -/
def masked : Handler where
  toExchange := h.toExchange
  queryService :=
    { blockByNumber := fun n => (h.queryService.blockByNumber n).mapError mask
      transactionByHash := fun hash => (h.queryService.transactionByHash hash).mapError mask
      eventsByAddress := fun query => (h.queryService.eventsByAddress query).mapError mask }
  healthService :=
    { ping := h.healthService.ping.mapError mask
      canonicalTip := h.healthService.canonicalTip.mapError mask }

@[simp] theorem masked_toExchange : h.masked.toExchange = h.toExchange := rfl

/-- `r'` shows what `r` shows. What `r` does not show is logged, by the
handler before it writes its response: at most one entry, under the
request's ID and for a response that says that the server failed, and in
any case for a status 500. -/
structure Discreet (ex : Exchange) (r r' : Response) : Prop where
  status : r'.status = r.status
  body : r'.body = r.body
  logged : ∃ logged status body, r = ex.respond logged status body ∧
    (logged = [] ∨ ∃ entry, logged = [entry] ∧ entry.requestID = ex.requestID ∧
      (status = 500 ∨ status = 503)) ∧
    (status = 500 → logged ≠ [])

/-- The two handlers panic both, or one is discreet about the other. -/
def DiscreetBoth (ex : Exchange) (r r' : Except String Response) : Prop :=
  (∃ text text', r = .error text ∧ r' = .error text') ∨
    ∃ x x', r = .ok x ∧ r' = .ok x' ∧ Discreet ex x x'

variable {h} {ex : Exchange}

/-- A response that shows all there is. -/
theorem discreet_writeJSON {status : ℕ} (hstatus : status ≠ 500) (body : Body) :
    DiscreetBoth ex (.ok (ex.writeJSON status body)) (.ok (ex.writeJSON status body)) :=
  Or.inr ⟨_, _, rfl, rfl, rfl, rfl, [], status, body, rfl, Or.inl rfl, fun h => absurd h hstatus⟩

/-- A request that is refused is refused alike. -/
theorem discreet_writeError {status : ℕ} (hstatus : status ≠ 500) (code message : String) :
    DiscreetBoth ex (.ok (ex.writeError status code message))
      (.ok (ex.writeError status code message)) :=
  discreet_writeJSON hstatus _

/-- What was logged is all that two internal errors differ in. -/
theorem discreet_internalError (err err' : Service.Err) (subject : Subject) (message : String) :
    DiscreetBoth ex (.ok (ex.internalError err subject message))
      (.ok (ex.internalError err' subject message)) :=
  Or.inr ⟨_, _, rfl, rfl, rfl, rfl, _, 500, _, rfl, Or.inr ⟨_, rfl, rfl, Or.inl rfl⟩,
    fun _ => List.cons_ne_nil _ _⟩

/-- Panics are told apart by their texts only. -/
theorem discreet_panic (text text' : String) :
    DiscreetBoth ex (.error text) (.error text') :=
  Or.inl ⟨text, text', rfl, rfl⟩

/-- The service looks for the causes that masking leaves. -/
theorem own_translateStoreError_mask (causes : List Sentinel) (text text' : String) :
    (Service.translateStoreError
      (causes.filter fun s => s = .notFound ∨ s = .invalidQuery ∨ s = .staleCursor) text').own =
        (Service.translateStoreError causes text).own := by
  simp only [Service.translateStoreError, List.mem_filter, decide_eq_true_iff, or_true, and_true,
    reduceCtorEq, or_false]
  split
  · rfl
  · split
    · rfl
    · split <;> rfl

/-- A call of the store, with its errors masked or not: both succeed with
the same, or both fail and are of one kind, or both panic. -/
theorem masked_cases {α : Type} (x : Go α) :
    (∃ a, x.mapError (Service.Stop.ofStore Service.translateStoreError) = .ok a ∧
      (x.mapError mask).mapError (Service.Stop.ofStore Service.translateStoreError) = .ok a) ∨
    (∃ err err' : Service.Err, (∀ s, err'.Is s ↔ err.Is s) ∧
      x.mapError (Service.Stop.ofStore Service.translateStoreError) = .error (.error err) ∧
      (x.mapError mask).mapError (Service.Stop.ofStore Service.translateStoreError) =
        .error (.error err')) ∨
    ∃ text, x.mapError (Service.Stop.ofStore Service.translateStoreError) = .error (.panic text) ∧
      (x.mapError mask).mapError (Service.Stop.ofStore Service.translateStoreError) =
        .error (.panic "") := by
  cases x with
  | ok a => exact Or.inl ⟨a, rfl, rfl⟩
  | error f =>
    cases f with
    | error causes text =>
      refine Or.inr (Or.inl ⟨_, _, fun s => ?_, rfl, rfl⟩)
      rw [Service.Err.Is, own_translateStoreError_mask causes text ""]
      rfl
    | panic text => exact Or.inr (Or.inr ⟨text, rfl, rfl⟩)

/-- A block that is not there is not found; any other error is internal. -/
theorem discreet_blockByNumber (raw : Text) :
    DiscreetBoth h.toExchange (h.blockByNumber raw) (h.masked.blockByNumber raw) := by
  unfold blockByNumber
  cases parseBlockNumber raw with
  | error err => exact discreet_writeError (by decide) _ _
  | ok n =>
    simp only [Service.block, masked]
    rcases masked_cases (h.queryService.blockByNumber n) with
      ⟨r, hr, hr'⟩ | ⟨err, err', hkind, hr, hr'⟩ | ⟨text, hr, hr'⟩
    · rw [hr, hr']
      exact discreet_writeJSON (by decide) _
    · simp only [hr, hr', hkind]
      by_cases hnotFound : err.Is .notFound
      · simp only [if_pos hnotFound]
        exact discreet_writeError (by decide) _ _
      · simp only [if_neg hnotFound]
        exact discreet_internalError _ _ _ _
    · rw [hr, hr']
      exact discreet_panic _ _

/-- So is a transaction, and one whose value is missing is internal too. -/
theorem discreet_transactionByHash (raw : Text) :
    DiscreetBoth h.toExchange (h.transactionByHash raw) (h.masked.transactionByHash raw) := by
  simp only [transactionByHash, masked_toExchange]
  cases parseTransactionHash h.geth raw with
  | error err => exact discreet_writeError (by decide) _ _
  | ok hash =>
    simp only [Service.transaction, masked]
    rcases masked_cases (h.queryService.transactionByHash hash) with
      ⟨r, hr, hr'⟩ | ⟨err, err', hkind, hr, hr'⟩ | ⟨text, hr, hr'⟩
    · rw [hr, hr']
      dsimp only
      cases newTransactionResponse h.geth r with
      | error err => exact discreet_internalError _ _ _ _
      | ok response => exact discreet_writeJSON (by decide) _
    · simp only [hr, hr', hkind]
      by_cases hnotFound : err.Is .notFound
      · simp only [if_pos hnotFound]
        exact discreet_writeError (by decide) _ _
      · simp only [if_neg hnotFound]
        exact discreet_internalError _ _ _ _
    · rw [hr, hr']
      exact discreet_panic _ _

/-- A page is refused for its query or for a stale cursor; any other error
is internal. -/
theorem discreet_eventsByAddress (raw : Text) (parameters : Values) :
    DiscreetBoth h.toExchange (h.eventsByAddress raw parameters)
      (h.masked.eventsByAddress raw parameters) := by
  simp only [eventsByAddress, masked_toExchange]
  cases parseEventAddress h.geth raw with
  | error err => exact discreet_writeError (by decide) _ _
  | ok address =>
    cases parseEventLimit parameters with
    | error err => exact discreet_writeError (by decide) _ _
    | ok limit =>
      cases parseEventCursor parameters with
      | error err => exact discreet_writeError (by decide) _ _
      | ok cursor =>
        simp only [Service.events, masked]
        rcases masked_cases (h.queryService.eventsByAddress ⟨address, limit, cursor⟩) with
          ⟨r, hr, hr'⟩ | ⟨err, err', hkind, hr, hr'⟩ | ⟨text, hr, hr'⟩
        · rw [hr, hr']
          exact discreet_writeJSON (by decide) _
        · simp only [hr, hr', hkind]
          by_cases hinvalid : err.Is .invalidQuery
          · simp only [if_pos hinvalid]
            exact discreet_writeError (by decide) _ _
          · by_cases hstale : err.Is .staleCursor
            · simp only [if_neg hinvalid, if_pos hstale]
              exact discreet_writeError (by decide) _ _
            · simp only [if_neg hinvalid, if_neg hstale]
              exact discreet_internalError _ _ _ _
        · rw [hr, hr']
          exact discreet_panic _ _

/-- Whatever the check fails with, the answer is that it failed. -/
theorem discreet_readiness : DiscreetBoth h.toExchange h.readiness h.masked.readiness := by
  have hfailed : ∀ err err' : Service.Err, DiscreetBoth h.toExchange
      (.ok (h.respond (if err.Is .notReady then []
        else [⟨err, h.requestID, .nothing, "readiness check failed"⟩]) 503 (.health "not_ready")))
      (.ok (h.respond (if err'.Is .notReady then []
        else [⟨err', h.requestID, .nothing, "readiness check failed"⟩]) 503
          (.health "not_ready"))) := by
    intro err err'
    refine Or.inr ⟨_, _, rfl, rfl, rfl, rfl, _, 503, _, rfl, ?_, fun h500 => by cases h500⟩
    split
    · exact Or.inl rfl
    · exact Or.inr ⟨_, rfl, rfl, Or.inr rfl⟩
  unfold readiness
  simp only [Service.ready, masked]
  cases h.healthService.ping with
  | error f =>
    cases f with
    | error causes text => exact hfailed _ _
    | panic text => exact discreet_panic _ _
  | ok u =>
    cases h.healthService.canonicalTip with
    | error f =>
      cases f with
      | error causes text => exact hfailed _ _
      | panic text => exact discreet_panic _ _
    | ok tip =>
      cases tip with
      | none => exact hfailed _ _
      | some tip => exact discreet_writeJSON (by decide) _

variable (h)

/-- **Errors are hidden and logged.** A handler panics or not, and a client
sees the same response, whatever the texts of the store's errors are and
whatever else they wrap. Before it writes its response a handler logs at
most one entry, under the request's ID, and only for a response that says
that the server failed; for every response with status 500 it does. -/
theorem errors_hidden (target : Target) :
    DiscreetBoth h.toExchange (h.handle target) (h.masked.handle target) := by
  cases target with
  | health => exact discreet_writeJSON (by decide) _
  | readiness => exact discreet_readiness
  | blockByNumber raw => exact discreet_blockByNumber raw
  | transactionByHash raw => exact discreet_transactionByHash raw
  | eventsByAddress raw parameters => exact discreet_eventsByAddress raw parameters

end Handler

end Server

end EthIndexer
