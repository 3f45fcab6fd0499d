import EthIndexer.Common.Texts
import EthIndexer.Server.Cursor
import EthIndexer.Service.Model.Queries
/-!
# The handlers of the HTTP interface

One function for each route, from the texts of a request to the status and
the body of its response and to what is logged. A text is a list of bytes;
a body is the record that `encoding/json` writes, with texts where the
record has strings.

What is not of this repository is a parameter. `GoEthereum` has the texts
of hashes, addresses and bytes. `Exchange` has what a request meets beside
the services: these texts, the connection that `encoding/json` writes the
body to, and the router around the handler, which splits the path, gives
the request its ID and answers where the handler panics.
-/

namespace EthIndexer

namespace Server

/-! ## What a request holds -/

/-- The handler that the router has chosen, with the parts of the path and
the parameters it reads. -/
inductive Target
  | health
  | readiness
  | blockByNumber (number : Text)
  | transactionByHash (hash : Text)
  | eventsByAddress (address : Text) (parameters : Values)

/-- `0x`. -/
def hexStart : Text := [48, 120]

/-- The texts of bytes of a fixed number: `common.IsHexHash`,
`common.HexToHash` and `Hash.Hex`, and the same of an address. -/
structure HexFixed (n : ℕ) where
  isHex : Text → Bool
  ofHex : Text → FixedBytes n
  hex : FixedBytes n → Text

/-- **What is used of go-ethereum.** -/
structure GoEthereum where
  hash : HexFixed 32
  address : HexFixed 20
  /-- `hexutil.Encode`. -/
  encode : List UInt8 → Text

def parseBlockNumber (value : Text) : Except Decimal.NumError UInt64 :=
  if value = [] then .error .errSyntax
  else if ∃ c ∈ value, ¬ Decimal.IsDigit c then .error .errSyntax
  else Decimal.parseUint64 value

/-- The parse of a path's hash or address. -/
def parseHexFixed {n : ℕ} (lib : HexFixed n) (invalid : Fault) (value : Text) :
    Go (FixedBytes n) :=
  if value.length ≠ 2 + 2 * n ∨ ¬ hexStart <+: value ∨ lib.isHex value = false then .error invalid
  else .ok (lib.ofHex value)

def errInvalidTransactionHash : Fault := .error [] "invalid transaction hash"

def parseTransactionHash (geth : GoEthereum) (value : Text) : Go Hash :=
  parseHexFixed geth.hash errInvalidTransactionHash value

def errInvalidEventAddress : Fault := .error [] "invalid event address"

def parseEventAddress (geth : GoEthereum) (value : Text) : Go Address :=
  parseHexFixed geth.address errInvalidEventAddress value

def defaultEventPageSize : UInt32 := 100

def errInvalidEventLimit : Fault := .error [] "invalid event page limit"

def parseEventLimit (parameters : Values) : Go UInt32 :=
  match parameters.get? "limit" with
  | none => .ok defaultEventPageSize
  | some [value] =>
    match parseBlockNumber value with
    | .error _ => .error errInvalidEventLimit
    | .ok limit =>
      if limit = 0 ∨ limit > maxEventPageSize.toUInt64 then .error errInvalidEventLimit
      else .ok limit.toUInt32
  | some _ => .error errInvalidEventLimit

/-! ## What a response holds -/

structure EventResponse where
  blockNumber : UInt64
  blockHash : Text
  transactionHash : Text
  transactionIndex : UInt32
  logIndex : UInt32
  address : Text
  topics : List Text
  data : Text
  deriving DecidableEq

structure BlockResponse where
  number : UInt64
  hash : Text
  parentHash : Text
  timestamp : UInt64
  gasLimit : UInt64
  gasUsed : UInt64
  baseFeePerGasWei : Option Text
  transactionCount : ℤ
  transactionHashes : List Text
  indexedAt : Time
  deriving DecidableEq

structure TransactionResponse where
  hash : Text
  blockNumber : UInt64
  blockHash : Text
  index : UInt32
  type : UInt8
  nonce : UInt64
  sender : Text
  recipient : Option Text
  valueWei : Text
  gasLimit : UInt64
  gasPriceWei : Option Text
  maxFeePerGasWei : Option Text
  maxPriorityFeePerGasWei : Option Text
  input : Text
  events : List EventResponse
  deriving DecidableEq

structure EventPageResponse where
  events : List EventResponse
  nextCursor : Option Text
  deriving DecidableEq

structure ErrorBody where
  code : String
  message : String
  requestID : String
  deriving DecidableEq

inductive Body
  | error (body : ErrorBody)
  /-- `healthResponse`. -/
  | health (status : String)
  | readiness (status : String) (lastIndexedBlock : UInt64)
  | block (block : BlockResponse)
  | transaction (transaction : TransactionResponse)
  | eventPage (page : EventPageResponse)
  deriving DecidableEq

/-- What an error that is logged was about. -/
inductive Subject
  | nothing
  | blockNumber (number : UInt64)
  | transactionHash (hash : Text)
  | address (address : Text)
  deriving DecidableEq

/-- An entry of the log. -/
structure Logged where
  err : Service.Err
  requestID : String
  subject : Subject
  message : String
  deriving DecidableEq

/-- A response, and what was logged on the way. There is no body where
the record could not be encoded, or not be written to the end. -/
structure Response where
  status : ℕ
  body : Option Body
  logged : List Logged
  deriving DecidableEq

/-! ## Records as responses -/

section Responses

variable (geth : GoEthereum)

def optionalBigIntString (value : Option ℤ) : Option Text := value.map Decimal.intText

def optionalAddressString (address : Option Address) : Option Text :=
  address.map geth.address.hex

def newEventResponse (event : Event) : EventResponse where
  blockNumber := event.blockNumber
  blockHash := geth.hash.hex event.blockHash
  transactionHash := geth.hash.hex event.transactionHash
  transactionIndex := event.transactionIndex
  logIndex := event.logIndex
  address := geth.address.hex event.address
  topics := event.topics.elems.map geth.hash.hex
  data := geth.encode event.data.elems

def newEventPageResponse (page : EventPage) : EventPageResponse where
  events := page.events.map (newEventResponse geth)
  nextCursor := page.nextCursor.map encodeEventCursor

def newBlockResponse (result : BlockResult) : BlockResponse where
  number := result.block.number
  hash := geth.hash.hex result.block.hash
  parentHash := geth.hash.hex result.block.parentHash
  timestamp := result.block.timestamp
  gasLimit := result.block.gasLimit
  gasUsed := result.block.gasUsed
  baseFeePerGasWei := optionalBigIntString result.block.baseFeePerGas
  transactionCount := result.block.transactionCount
  transactionHashes := result.transactionHashes.map geth.hash.hex
  indexedAt := result.block.indexedAt

def errMissingTransactionValue : Service.Err := ⟨[], [], "transaction value is missing"⟩

def newTransactionResponse (result : TransactionResult) : Except Service.Err TransactionResponse :=
  match result.transaction.value with
  | none => .error errMissingTransactionValue
  | some value => .ok
    { hash := geth.hash.hex result.transaction.hash
      blockNumber := result.transaction.blockNumber
      blockHash := geth.hash.hex result.transaction.blockHash
      index := result.transaction.index
      type := result.transaction.type
      nonce := result.transaction.nonce
      sender := geth.address.hex result.transaction.sender
      recipient := optionalAddressString geth result.transaction.recipient
      valueWei := Decimal.intText value
      gasLimit := result.transaction.gasLimit
      gasPriceWei := optionalBigIntString result.transaction.gasPrice
      maxFeePerGasWei := optionalBigIntString result.transaction.maxFeePerGas
      maxPriorityFeePerGasWei := optionalBigIntString result.transaction.maxPriorityFeePerGas
      input := geth.encode result.transaction.input.elems
      events := result.events.map (newEventResponse geth) }

end Responses

/-! ## What a request meets -/

/-- **What a request meets beside the services.** -/
structure Exchange where
  geth : GoEthereum
  /-- The error of `json.NewEncoder(writer).Encode`, for a record that
  cannot be encoded or written. -/
  encodeError : Body → Option Service.Err
  /-- What the router's `Recoverer` answers to a panic. -/
  recoverer : String → Response
  requestID : String

namespace Exchange

variable (ex : Exchange)

def writeJSON (status : ℕ) (body : Body) : Response :=
  match ex.encodeError body with
  | none => ⟨status, some body, []⟩
  | some err => ⟨status, none, [⟨err, ex.requestID, .nothing, "encode HTTP response"⟩]⟩

/-- A response that comes after entries of the log. -/
def respond (logged : List Logged) (status : ℕ) (body : Body) : Response :=
  { ex.writeJSON status body with logged := logged ++ (ex.writeJSON status body).logged }

def errorBody (code message : String) : Body := .error ⟨code, message, ex.requestID⟩

def writeError (status : ℕ) (code message : String) : Response :=
  ex.writeJSON status (ex.errorBody code message)

/-- An error that is logged, and told to nobody else. -/
def internalError (err : Service.Err) (subject : Subject) (message : String) : Response :=
  ex.respond [⟨err, ex.requestID, subject, message⟩] 500
    (ex.errorBody "internal_error" "internal server error")

end Exchange

/-! ## Handlers -/

/-- The handlers of one request: the two services on their store, and what
the request meets. -/
structure Handler extends Exchange where
  queryService : Service.QueryStore
  healthService : Service.ReadinessStore

namespace Handler

variable (h : Handler)

def blockByNumber (rawNumber : Text) : Except String Response :=
  match parseBlockNumber rawNumber with
  | .error _ => .ok <| h.writeError 400 "invalid_block_number"
      "block number must be an unsigned decimal integer"
  | .ok number =>
    match Service.block h.queryService number with
    | .error (.panic text) => .error text
    | .error (.error err) =>
      if err.Is .notFound then .ok (h.writeError 404 "block_not_found" "block was not found")
      else .ok (h.internalError err (.blockNumber number) "query block")
    | .ok result => .ok (h.writeJSON 200 (.block (newBlockResponse h.geth result)))

def logTransactionError (hash : Hash) (err : Service.Err) : Response :=
  h.internalError err (.transactionHash (h.geth.hash.hex hash)) "query transaction"

def transactionByHash (rawHash : Text) : Except String Response :=
  match parseTransactionHash h.geth rawHash with
  | .error _ => .ok <| h.writeError 400 "invalid_transaction_hash"
      "transaction hash must be a 0x-prefixed 32-byte hexadecimal value"
  | .ok hash =>
    match Service.transaction h.queryService hash with
    | .error (.panic text) => .error text
    | .error (.error err) =>
      if err.Is .notFound then
        .ok (h.writeError 404 "transaction_not_found" "transaction was not found")
      else .ok (h.logTransactionError hash err)
    | .ok result =>
      match newTransactionResponse h.geth result with
      | .error err => .ok (h.logTransactionError hash err)
      | .ok response => .ok (h.writeJSON 200 (.transaction response))

def eventsByAddress (rawAddress : Text) (parameters : Values) : Except String Response :=
  match parseEventAddress h.geth rawAddress with
  | .error _ => .ok <| h.writeError 400 "invalid_address"
      "address must be a 0x-prefixed 20-byte hexadecimal value"
  | .ok address =>
    match parseEventLimit parameters with
    | .error _ => .ok <| h.writeError 400 "invalid_limit"
        "limit must be an integer from 1 to 1000"
    | .ok limit =>
      match parseEventCursor parameters with
      | .error _ => .ok (h.writeError 400 "invalid_cursor" "cursor is invalid")
      | .ok cursor =>
        match Service.events h.queryService { address := address, limit := limit, before := cursor } with
        | .error (.panic text) => .error text
        | .error (.error err) =>
          if err.Is .invalidQuery then
            .ok (h.writeError 400 "invalid_event_query" "event query is invalid")
          else if err.Is .staleCursor then
            .ok <| h.writeError 409 "stale_cursor"
              "cursor is no longer canonical; restart pagination"
          else .ok <| h.internalError err (.address (h.geth.address.hex address))
              "query events by address"
        | .ok page => .ok (h.writeJSON 200 (.eventPage (newEventPageResponse h.geth page)))

def health : Except String Response := .ok (h.writeJSON 200 (.health "ok"))

def readiness : Except String Response :=
  match Service.ready h.healthService with
  | .error (.panic text) => .error text
  | .error (.error err) => .ok <| h.respond
      (if err.Is .notReady then [] else [⟨err, h.requestID, .nothing, "readiness check failed"⟩])
      503 (.health "not_ready")
  | .ok tip => .ok (h.writeJSON 200 (.readiness "ready" tip.number))

/-- The handler of a route: its response, or the text of its panic. -/
def handle : Target → Except String Response
  | .health => h.health
  | .readiness => h.readiness
  | .blockByNumber number => h.blockByNumber number
  | .transactionByHash hash => h.transactionByHash hash
  | .eventsByAddress address parameters => h.eventsByAddress address parameters

/-- **The response to a request.** -/
def serve (target : Target) : Response :=
  match h.handle target with
  | .ok response => response
  | .error text => h.recoverer text

end Handler

end Server

end EthIndexer
