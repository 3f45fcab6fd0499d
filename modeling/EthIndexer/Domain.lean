import Mathlib.Data.Nat.Notation
import Mathlib.Data.Int.Notation
/-!
# The domain records

The records of `internal/domain` and the errors of the packages above it.
Machine integers keep their width, pointers and nil-able slices are
options, and an instant is its number of nanoseconds. An error carries
the sentinels that `errors.Is` finds in it together with its text; a
panic is kept apart from an error, since nothing in the program recovers
one.
-/

namespace EthIndexer

/-! ## Bytes -/

/-- A byte array of fixed length. -/
abbrev FixedBytes (n : ℕ) := { bytes : List UInt8 // bytes.length = n }

/-- `common.Hash`. -/
abbrev Hash := FixedBytes 32

/-- `common.Address`. -/
abbrev Address := FixedBytes 20

instance {n : ℕ} : Inhabited (FixedBytes n) := ⟨⟨List.replicate n 0, List.length_replicate⟩⟩

/-- A byte in two lower-case hexadecimal digits. -/
def hexByte (b : UInt8) : String :=
  String.ofList [Nat.digitChar (b.toNat / 16), Nat.digitChar (b.toNat % 16)]

/-- How a hash prints. -/
def FixedBytes.hex {n : ℕ} (h : FixedBytes n) : String := "0x" ++ String.join (h.1.map hexByte)

/-- The hash that spells a small number. -/
def Hash.spelling (n : ℕ) : Hash := ⟨List.replicate 31 0 ++ [UInt8.ofNat n], rfl⟩

/-- Small numbers spell different hashes. -/
theorem Hash.spelling_inj {a b : ℕ} (ha : a < 256) (hb : b < 256)
    (h : Hash.spelling a = Hash.spelling b) : a = b := by
  have hlast := congrArg (fun h => h.1.getLast?) h
  simp only [spelling, List.getLast?_append, List.getLast?_singleton, Option.some_or,
    Option.some.injEq] at hlast
  have := congrArg UInt8.toNat hlast
  rwa [UInt8.toNat_ofNat_of_lt' ha, UInt8.toNat_ofNat_of_lt' hb] at this

/-- A slice: nil, or the elements it holds. -/
abbrev Slice (α : Type) := Option (List α)

/-- The elements of a slice; a nil slice has none. -/
def Slice.elems {α : Type} (s : Slice α) : List α := s.getD []

/-- An instant, in nanoseconds. -/
abbrev Time := ℤ

/-! ## Records -/

structure Block where
  number : UInt64
  hash : Hash
  parentHash : Hash
  timestamp : UInt64
  gasLimit : UInt64
  gasUsed : UInt64
  baseFeePerGas : Option ℤ
  transactionCount : ℤ
  indexedAt : Time
  deriving DecidableEq, Inhabited

structure Transaction where
  hash : Hash
  blockNumber : UInt64
  blockHash : Hash
  index : UInt32
  type : UInt8
  nonce : UInt64
  sender : Address
  recipient : Option Address
  value : Option ℤ
  gasLimit : UInt64
  gasPrice : Option ℤ
  maxFeePerGas : Option ℤ
  maxPriorityFeePerGas : Option ℤ
  input : Slice UInt8
  deriving DecidableEq, Inhabited

/-- A raw EVM log; the address is the emitting contract's. -/
structure Event where
  blockNumber : UInt64
  blockHash : Hash
  transactionHash : Hash
  transactionIndex : UInt32
  logIndex : UInt32
  address : Address
  topics : Slice Hash
  data : Slice UInt8
  deriving DecidableEq, Inhabited

/-- The unit fetched from Ethereum and written to storage. -/
structure BlockBundle where
  block : Block
  transactions : List Transaction
  events : List Event
  deriving DecidableEq, Inhabited

structure BlockResult where
  block : Block
  transactionHashes : List Hash
  deriving DecidableEq

structure TransactionResult where
  transaction : Transaction
  events : List Event
  deriving DecidableEq

structure EventCursor where
  blockNumber : UInt64
  blockHash : Hash
  logIndex : UInt32
  deriving DecidableEq

structure EventQuery where
  address : Address
  limit : UInt32
  before : Option EventCursor
  deriving DecidableEq

structure EventPage where
  events : List Event
  nextCursor : Option EventCursor
  deriving DecidableEq

structure ChainTip where
  number : UInt64
  hash : Hash
  deriving DecidableEq

/-- One atomic chain update: blocks at and above `replaceFrom` go,
`blocks` come in ascending order, and blocks below `retainFrom` are
pruned. -/
structure CanonicalUpdate where
  chainID : UInt64
  replaceFrom : UInt64
  retainFrom : UInt64
  blocks : List BlockBundle
  syncedAt : Time

/-- `^uint64(0)`, or `math.MaxUint64`. -/
def maxUint64 : UInt64 := 0xffffffffffffffff

/-- `domain.MaxBlockWindow`. -/
def maxBlockWindow : UInt64 := 50

/-- `domain.MaxEventPageSize`. -/
def maxEventPageSize : UInt32 := 1000

/-- `domain.HeadMode`. A string that the configuration refuses is kept as
it is, with what `%q` prints for it. -/
inductive HeadMode
  | latest
  | safe
  | finalized
  | unsupported (text quoted : String)
  deriving DecidableEq

def HeadMode.text : HeadMode → String
  | .latest => "latest"
  | .safe => "safe"
  | .finalized => "finalized"
  | .unsupported text _ => text

/-! ## Equality up to the indexing time

Two records of one block differ in the instant they were indexed at, and
in whether an empty slice is nil. The content of a record is what is left
when both are put aside. -/

def Transaction.content (t : Transaction) : Transaction := { t with input := some t.input.elems }

def Event.content (e : Event) : Event :=
  { e with topics := some e.topics.elems, data := some e.data.elems }

def BlockBundle.content (b : BlockBundle) : BlockBundle where
  block := { b.block with indexedAt := 0 }
  transactions := b.transactions.map Transaction.content
  events := b.events.map Event.content

/-! ## Errors -/

/-- The sentinel errors of the store and of the indexer. -/
inductive Sentinel
  | notFound
  | invalidCanonicalUpdate
  | invalidQuery
  | staleCursor
  | inconsistentData
  | inconsistentBlockData
  | invalidLowFetchRange
  | invalidLargeFetchRange
  | invalidSyncConfig
  | invalidSyncDependency
  | headChanged
  | syncRetriesExhausted
  deriving DecidableEq

def Sentinel.text : Sentinel → String
  | .notFound => "store: not found"
  | .invalidCanonicalUpdate => "store: invalid canonical update"
  | .invalidQuery => "store: invalid query"
  | .staleCursor => "store: stale event cursor"
  | .inconsistentData => "store: inconsistent data"
  | .inconsistentBlockData => "indexer: inconsistent block data"
  | .invalidLowFetchRange => "indexer: invalid low fetch range"
  | .invalidLargeFetchRange => "indexer: invalid large fetch range"
  | .invalidSyncConfig => "indexer: invalid sync config"
  | .invalidSyncDependency => "indexer: invalid sync dependency"
  | .headChanged => "indexer: selected head changed during sync"
  | .syncRetriesExhausted => "indexer: sync retries exhausted"

/-- What stops a call: an error it returns, or a panic. -/
inductive Fault
  | error (causes : List Sentinel) (text : String)
  | panic (text : String)
  deriving DecidableEq

/-- The result of a call that may fail. -/
abbrev Go (α : Type) := Except Fault α

namespace Fault

/-- The sentinels `errors.Is` finds. -/
def causes : Fault → List Sentinel
  | .error causes _ => causes
  | .panic _ => []

/-- `errors.Is`. -/
def Is (f : Fault) (s : Sentinel) : Prop := s ∈ f.causes

instance (f : Fault) (s : Sentinel) : Decidable (f.Is s) := inferInstanceAs (Decidable (s ∈ _))

/-- The sentinel itself as an error. -/
def ofSentinel (s : Sentinel) : Fault := .error [s] s.text

/-- `fmt.Errorf("%w: ...", sentinel)`. -/
def because (s : Sentinel) (text : String) : Fault := .error [s] (s.text ++ ": " ++ text)

/-- `fmt.Errorf("...: %w", err)`. A panic is not wrapped by anything. -/
def wrap (context : String) : Fault → Fault
  | .error causes text => .error causes (context ++ ": " ++ text)
  | .panic text => .panic text

/-- `fmt.Errorf("%w: ...: %w", sentinel, err)`. -/
def wrapBecause (s : Sentinel) (context : String) : Fault → Fault
  | .error causes text => .error (s :: causes) (s.text ++ ": " ++ context ++ ": " ++ text)
  | .panic text => .panic text

/-- `errors.Is` sees through a context. -/
@[simp] theorem causes_wrap (context : String) (f : Fault) : (f.wrap context).causes = f.causes := by
  cases f <;> rfl

@[simp] theorem causes_because (s : Sentinel) (text : String) : (because s text).causes = [s] := rfl

/-- An error that is returned. -/
def IsError : Fault → Prop
  | .error _ _ => True
  | .panic _ => False

theorem IsError.wrap {f : Fault} (h : f.IsError) (context : String) :
    (f.wrap context).IsError := by
  cases f with
  | error => trivial
  | panic => exact h

end Fault

/-- The errors of a context that is done. -/
inductive ContextError
  | canceled
  | deadlineExceeded
  deriving DecidableEq

def ContextError.fault : ContextError → Fault
  | .canceled => .error [] "context canceled"
  | .deadlineExceeded => .error [] "context deadline exceeded"

@[simp] theorem ContextError.causes_fault (err : ContextError) : err.fault.causes = [] := by
  cases err <;> rfl

/-- What `ctx.Err()` answers at the point where it is asked. -/
abbrev Context := Option ContextError

namespace Go

variable {α β : Type}

/-- The result of a call outside the program, whose errors wrap none of
its sentinels. -/
def ofExternal (x : Except String α) : Go α := x.mapError (Fault.error [])

/-- Wrap the error of a call, as `fmt.Errorf("...: %w", err)` does. -/
def wrap (context : String) (x : Go α) : Go α := x.mapError (Fault.wrap context)

/-- `if bad { return err }`. -/
def failIf (bad : Prop) [Decidable bad] (f : Fault) : Go Unit := if bad then .error f else .ok ()

/-- A check passes where nothing is bad. -/
theorem failIf_eq_ok_iff {bad : Prop} [Decidable bad] {f : Fault} {u : Unit} :
    failIf bad f = .ok u ↔ ¬ bad := by
  by_cases h : bad <;> simp [failIf, h]

theorem failIf_of_not {bad : Prop} [Decidable bad] {f : Fault} (h : ¬ bad) :
    failIf bad f = .ok () := if_neg h

/-- A sequence of calls succeeds when each of them does. -/
theorem bind_eq_ok_iff {x : Go α} {f : α → Go β} {b : β} :
    (x >>= f) = .ok b ↔ ∃ a, x = .ok a ∧ f a = .ok b := by
  cases x <;> simp [bind, Except.bind]

/-- A check before a call. -/
theorem seq_eq_ok_iff {x : Go Unit} {f : Unit → Go β} {b : β} :
    (x >>= f) = .ok b ↔ x = .ok () ∧ f () = .ok b := by
  cases x <;> simp [bind, Except.bind]

@[simp] theorem ok_bind (a : α) (f : α → Go β) : (.ok a >>= f : Go β) = f a := rfl

theorem pure_eq_ok_iff {a b : α} : (pure a : Go α) = .ok b ↔ a = b := by
  simp [pure, Except.pure]

@[simp] theorem wrap_ok (context : String) (a : α) : wrap context (.ok a) = .ok a := rfl

@[simp] theorem wrap_error (context : String) (f : Fault) :
    wrap context (.error f : Go α) = .error (f.wrap context) := rfl

/-- A context is put around errors only. -/
theorem wrap_eq_ok_iff {context : String} {x : Go α} {a : α} : x.wrap context = .ok a ↔ x = .ok a := by
  cases x <;> simp

/-- Whatever stops the call is a `P`. -/
def FailsAs (P : Fault → Prop) (x : Go α) : Prop := ∀ f, x = .error f → P f

variable {P : Fault → Prop}

@[simp] theorem failsAs_ok (a : α) : FailsAs P (.ok a) := fun _ h => by cases h

theorem failsAs_error {f : Fault} (h : P f) : FailsAs P (.error f : Go α) :=
  fun _ hf => by cases hf; exact h

/-- A check fails with its own error. -/
theorem failsAs_failIf (bad : Prop) [Decidable bad] {f : Fault} (h : P f) :
    FailsAs P (failIf bad f) := by
  unfold failIf
  split
  · exact failsAs_error h
  · exact failsAs_ok _

/-- A sequence of calls, where the second is made on what the first
returned. -/
theorem FailsAs.bind_of_ok {x : Go α} {f : α → Go β} (hx : FailsAs P x)
    (hf : ∀ a, x = .ok a → FailsAs P (f a)) : FailsAs P (x >>= f) := by
  cases x with
  | error e => exact fun g h => hx g (by cases h; rfl)
  | ok a => exact hf a rfl

/-- A sequence fails as its parts do. -/
theorem FailsAs.bind {x : Go α} {f : α → Go β} (hx : FailsAs P x)
    (hf : ∀ a, FailsAs P (f a)) : FailsAs P (x >>= f) :=
  hx.bind_of_ok fun a _ => hf a

/-- Errors that are rewritten, one by one. -/
theorem FailsAs.mapError {Q : Fault → Prop} {x : Go α} {g : Fault → Fault} (hx : FailsAs P x)
    (hg : ∀ f, P f → Q (g f)) : FailsAs Q (x.mapError g) := by
  cases x with
  | error e => exact failsAs_error (hg e (hx e rfl))
  | ok a => exact failsAs_ok a

/-- The call does not panic. -/
abbrev NoPanic (x : Go α) : Prop := FailsAs Fault.IsError x

theorem NoPanic.wrap {x : Go α} (h : x.NoPanic) (context : String) : (x.wrap context).NoPanic :=
  h.mapError fun _ hf => hf.wrap context

/-- The call fails with errors that wrap `s` and no other sentinel. -/
abbrev FailsWith (s : Sentinel) (x : Go α) : Prop := FailsAs (fun f => f.causes = [s]) x

/-- An error made for a sentinel is that sentinel. -/
theorem failsWith_because {s : Sentinel} (text : String) :
    FailsWith s (.error (.because s text) : Go α) := failsAs_error rfl

theorem failsWith_failIf {s : Sentinel} (bad : Prop) [Decidable bad] (text : String) :
    FailsWith s (failIf bad (.because s text)) := failsAs_failIf bad rfl

end Go

end EthIndexer
