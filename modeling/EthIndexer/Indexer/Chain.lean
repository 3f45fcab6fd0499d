import EthIndexer.Indexer.Fetcher
/-!
# Nodes that serve one chain

`EthChain.node` answers every call from one chain: the head for a head
mode, and block, header and logs of any height up to it. It is what a
node looks like to a synchronization during which nothing moves.
-/

namespace EthIndexer

/-- A chain up to its head, with the logs of every block. -/
structure EthChain where
  head : UInt64
  block : UInt64 → EthBlock
  logs : UInt64 → List Log

namespace EthChain

variable {c : EthChain}

/-- The header of a height. -/
def header (c : EthChain) (n : UInt64) : Header := ⟨(c.block n).number, (c.block n).hash⟩

/-- **The node that serves a chain.** -/
def node (c : EthChain) : Node where
  headerByNumber
    | .number n => if n ≤ c.head then .ok (some (c.header n)) else .error "not found"
    | _ => .ok (some (c.header c.head))
  blockByNumber n := if n ≤ c.head then .ok (some (c.block n)) else .error "not found"
  logsByBlockHash n hash :=
    if n ≤ c.head ∧ hash = (c.block n).hash then .ok (c.logs n) else .error "unknown block"

/-- **A hash-linked chain**: each block carries the number of its height
and names the block below. -/
structure HashLinked (c : EthChain) : Prop where
  number : ∀ {n : UInt64}, n ≤ c.head → (c.block n).number = some (n.toNat : ℤ)
  linked : ∀ {n m : UInt64}, m.toNat = n.toNat + 1 → m ≤ c.head →
    (c.block m).parentHash = (c.block n).hash

/-- **A valid chain for a fetcher**: each block names the one below, no
transaction is in two blocks, and every block can be fetched. -/
structure Valid (c : EthChain) (f : Fetcher) : Prop where
  linked : ∀ {n m : UInt64}, m.toNat = n.toNat + 1 → m ≤ c.head →
    (c.block m).parentHash = (c.block n).hash
  distinct : ∀ {n m t u}, n ≤ c.head → m ≤ c.head → some t ∈ (c.block n).transactions →
    some u ∈ (c.block m).transactions → t.hash = u.hash → n = m
  fetched : ∀ {env : Env} {n : UInt64}, env.node = c.node → n ≤ c.head →
    ∃ b, f.fetchBlock env n = .ok b

theorem blockByNumber_node {n : UInt64} (h : n ≤ c.head) :
    c.node.blockByNumber n = .ok (some (c.block n)) := if_pos h

/-- The chain of blocks without transactions under given hashes. -/
def bare (head : UInt64) (hash : UInt64 → Hash) : EthChain where
  head := head
  block n :=
    { number := some n.toNat, hash := hash n, parentHash := hash (n - 1), time := 0
      gasLimit := 0, gasUsed := 0, baseFee := none, transactions := [] }
  logs _ := []

/-- What is fetched from it at a height. -/
def bareBundle (hash : UInt64 → Hash) (indexedAt : Time) (n : UInt64) : BlockBundle where
  block :=
    { number := n, hash := hash n, parentHash := hash (n - 1), timestamp := 0, gasLimit := 0
      gasUsed := 0, baseFeePerGas := none, transactionCount := 0, indexedAt := indexedAt }
  transactions := []
  events := []

theorem fetchBlock_bare {head n : UInt64} {hash : UInt64 → Hash} (f : Fetcher) {env : Env}
    (hnode : env.node = (bare head hash).node) (hn : n ≤ head) :
    f.fetchBlock env n = .ok (bareBundle hash (env.fetchedAt n) n) := by
  have hblock : env.node.blockByNumber n = .ok (some ((bare head hash).block n)) := by
    rw [hnode, blockByNumber_node hn]
  have hlogs : env.node.logsByBlockHash n ((bare head hash).block n).hash = .ok [] := by
    rw [hnode]
    exact if_pos ⟨hn, rfl⟩
  have hnumber : asUint64 ((bare head hash).block n).number = some n :=
    asUint64_eq_some_iff.2 rfl
  simp only [Fetcher.fetchBlock, Go.bind_eq_ok_iff]
  refine ⟨some ((bare head hash).block n), by rw [hblock]; rfl, ?_⟩
  simp only [Go.bind_eq_ok_iff, Go.pure_eq_ok_iff, validateBlockNumber, Go.failIf_eq_ok_iff,
    exists_const]
  exact ⟨not_not.2 hnumber, ([], ∅), rfl, [], by rw [hlogs]; rfl, [], rfl, rfl⟩

/-- Such a chain is valid. -/
theorem bare_valid (head : UInt64) (hash : UInt64 → Hash) (f : Fetcher) :
    (bare head hash).Valid f where
  linked {n m} hnm _ := by
    have hpos : (1 : UInt64) ≤ m := UInt64.le_iff_toNat_le.2 (by change 1 ≤ m.toNat; omega)
    have hpred : m - 1 = n := UInt64.toNat_inj.1 (by
      rw [UInt64.toNat_sub_of_le _ _ hpos]
      change m.toNat - 1 = n.toNat
      omega)
    change hash (m - 1) = hash n
    rw [hpred]
  distinct _ _ ht := absurd ht List.not_mem_nil
  fetched hnode hn := ⟨_, fetchBlock_bare f hnode hn⟩

/-- A synchronization that meets the chain and no trouble. -/
def env (c : EthChain) : Env where
  node := c.node
  fetchedAt _ := 0
  first := 0
  rangeCtx := none
  now := 0

/-- What can be fetched carries its number. -/
theorem Valid.hashLinked {f : Fetcher} (hc : c.Valid f) : c.HashLinked where
  number {n} hn := by
    have hnode : c.env.node = c.node := rfl
    obtain ⟨b, hb⟩ := hc.fetched hnode hn
    obtain ⟨block, -, -, -, hblock, hnumber, -⟩ := fetchBlock_eq_ok hb
    rw [hnode, blockByNumber_node hn] at hblock
    cases hblock
    exact hnumber
  linked := hc.linked

end EthChain

end EthIndexer
