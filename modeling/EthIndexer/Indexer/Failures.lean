import EthIndexer.Indexer.Call
/-!
# Failures that are retried

The runner gives up on four sentinels and retries everything else. Going
through the steps of a call, every failure of the node, of a fetch, of a
check on what was fetched and of a read of the store is one of the others,
and no step panics. What is left is the update: only its refusal by the
store can end a synchronization for good (`refused_of_not_transient`).
-/

namespace EthIndexer

open Go

/-- An error the runner retries; a panic is none. -/
def Transient : Fault → Prop
  | .error causes text => isPermanentSyncError (.error causes text) = false
  | .panic _ => False

/-- A context around an error does not change whether it may pass. -/
theorem transient_wrap_iff {err : Fault} {context : String} :
    Transient (err.wrap context) ↔ Transient err := by
  cases err <;> rfl

/-- A context that is done is no error of the data. -/
theorem transient_fault (err : ContextError) : Transient err.fault := by
  cases err <;> rfl

/-- An update that the store refuses stays refused. -/
theorem not_transient_of_causes {err : Fault} (h : err.causes = [.invalidCanonicalUpdate]) :
    ¬ Transient err := by
  cases err with
  | error causes text =>
    obtain rfl : causes = _ := h
    simp [Transient, isPermanentSyncError, Fault.Is, Fault.causes]
  | panic text => exact id

/-- An error of the node may pass. -/
theorem transient_ofExternal {α : Type} (x : Except String α) :
    FailsAs Transient (ofExternal x) := by
  cases x with
  | error text => exact failsAs_error rfl
  | ok a => exact failsAs_ok a

theorem transient_wrap {α : Type} {x : Go α} {context : String} (h : FailsAs Transient x) :
    FailsAs Transient (x.wrap context) :=
  h.mapError fun _ hf => transient_wrap_iff.2 hf

theorem transient_failIf {bad : Prop} [Decidable bad] {err : Fault} (h : Transient err) :
    FailsAs Transient (failIf bad err) := failsAs_failIf bad h

section Fetch

variable {f : Fetcher} {env : Env} {number : UInt64} {blockHash : Hash}

/-- A transaction of another chain is the node's mistake, as long as the
fetcher knows its own chain. -/
theorem transient_validateChainID (hf : f.chainID ≠ none) (t : EthTransaction) :
    FailsAs Transient (f.validateChainID t) := by
  unfold Fetcher.validateChainID
  split
  · split
    · exact absurd (by assumption) hf
    · exact transient_failIf rfl
  · exact failsAs_ok _

theorem transient_deriveSender (t : EthTransaction) : FailsAs Transient t.deriveSender := by
  unfold EthTransaction.deriveSender
  cases t.sender with
  | error text => exact failsAs_error rfl
  | ok sender => exact failsAs_ok _

/-- Every check of a transaction fails by what the node sent. -/
theorem transient_mapTransactionsFrom (hf : f.chainID ≠ none) (ts : List (Option EthTransaction))
    (index : ℕ) (positions : GoMap Hash UInt32) :
    FailsAs Transient (f.mapTransactionsFrom number blockHash index positions ts) := by
  induction ts generalizing index positions with
  | nil => exact failsAs_ok _
  | cons t ts ih =>
    cases t with
    | none => exact failsAs_error rfl
    | some t =>
      exact FailsAs.bind (transient_validateChainID hf t) fun _ =>
        FailsAs.bind (transient_deriveSender t) fun _ =>
        FailsAs.bind (transient_failIf rfl) fun _ => FailsAs.bind (ih _ _) fun _ => failsAs_ok _

theorem transient_mapTransactions (hf : f.chainID ≠ none) (block : EthBlock) :
    FailsAs Transient (f.mapTransactions number block) := by
  unfold Fetcher.mapTransactions
  split
  · exact failsAs_error rfl
  · exact transient_mapTransactionsFrom hf _ _ _

/-- Every check of a log fails by what the node sent. -/
theorem transient_mapLogs (positions : GoMap Hash UInt32) (logs : List Log)
    (seen : Finset UInt32) : FailsAs Transient (mapLogs number blockHash positions seen logs) := by
  induction logs generalizing seen with
  | nil => exact failsAs_ok _
  | cons log logs ih =>
    refine FailsAs.bind (transient_failIf rfl) fun _ => FailsAs.bind (transient_failIf rfl) fun _ =>
      FailsAs.bind (transient_failIf rfl) fun _ => FailsAs.bind (transient_failIf rfl) fun _ => ?_
    split
    · exact failsAs_error rfl
    · exact FailsAs.bind (transient_failIf rfl) fun _ =>
        FailsAs.bind (transient_failIf rfl) fun _ => FailsAs.bind (ih _) fun _ => failsAs_ok _

/-- **A block is not fetched** because of the node only. -/
theorem transient_fetchBlock (hf : f.chainID ≠ none) :
    FailsAs Transient (f.fetchBlock env number) := by
  refine FailsAs.bind (transient_wrap (transient_ofExternal _)) fun answer => ?_
  cases answer with
  | none => exact failsAs_error rfl
  | some block =>
    exact FailsAs.bind (transient_failIf rfl) fun _ =>
      FailsAs.bind (transient_mapTransactions hf block) fun _ =>
      FailsAs.bind (transient_wrap (transient_ofExternal _)) fun _ =>
      FailsAs.bind (FailsAs.bind (transient_mapLogs _ _ _) fun _ => failsAs_ok _) fun _ =>
      failsAs_ok _

/-- A fetched range that is not a chain may be one the next time. -/
theorem transient_validateFetchedFrom (start : UInt64) (bundles : List BlockBundle) (i : ℕ)
    (previous : Option BlockBundle) :
    FailsAs Transient (validateFetchedFrom start i previous bundles) := by
  induction bundles generalizing i previous with
  | nil => exact failsAs_ok _
  | cons b bundles ih =>
    refine FailsAs.bind (transient_failIf rfl) fun _ => ?_
    cases previous with
    | none => exact ih _ _
    | some previous => exact FailsAs.bind (transient_failIf rfl) fun _ => ih _ _

/-- **No failure of a fetch is permanent.** -/
theorem transient_fetchRange (hf : f.chainID ≠ none) (start stop : UInt64) :
    FailsAs Transient (f.fetchRange env start stop) := by
  unfold Fetcher.fetchRange
  split
  · exact failsAs_error rfl
  · split
    · exact failsAs_error rfl
    · dsimp only
      split
      · rename_i err herr
        obtain ⟨n, -, hn⟩ := List.exists_of_findSome?_eq_some herr
        unfold Fetcher.failure at hn
        split at hn
        · cases hn
        · rename_i err' herr'
          cases hn
          exact failsAs_error (transient_wrap_iff.2 (transient_fetchBlock hf _ herr'))
      · split
        · exact failsAs_error (transient_fault _)
        · exact FailsAs.bind (transient_validateFetchedFrom _ _ _ _) fun _ => failsAs_ok _

/-- **A range is not fetched** because of the node only. -/
theorem transient_fetchCanonical {s : Syncer} (hs : s.validateSyncOnceConfig = .ok ())
    {replaceFrom headNumber : UInt64} {hash : Hash} :
    FailsAs Transient (s.fetchCanonical env replaceFrom headNumber hash) := by
  obtain ⟨f, hfetcher, -, hid, -⟩ := validateSyncOnceConfig_eq_ok_iff.1 hs
  have hf : f.chainID ≠ none := by
    rw [hid]
    exact Option.some_ne_none _
  unfold Syncer.fetchCanonical
  split
  · rw [hfetcher]
    dsimp only
    cases hrange : f.fetchRange env replaceFrom headNumber with
    | error err => exact failsAs_error (transient_wrap_iff.2 (transient_fetchRange hf _ _ _ hrange))
    | ok bundles =>
      -- the range is not empty, so its last block is there
      have hlen := (consecutive_of_fetchRange hrange).2
      have hle := UInt64.le_iff_toNat_le.1 (fetchRange_eq_ok_iff.1 hrange).1
      have hne : bundles ≠ [] := fun hnil => by
        rw [hnil, List.length_nil] at hlen
        omega
      obtain ⟨last, hlast⟩ := Option.ne_none_iff_exists'.1 (mt List.getLast?_eq_none_iff.1 hne)
      simp only [Go.wrap_ok, bind, Except.bind, hlast]
      exact FailsAs.bind (transient_failIf rfl) fun _ => failsAs_ok _
  · exact failsAs_ok _

end Fetch

/-! ## The reads of the plan -/

/-- A header without a number is the node's mistake. -/
theorem transient_validHeaderNumber (header : Header) :
    FailsAs Transient (validHeaderNumber header) := by
  unfold validHeaderNumber
  split
  · exact failsAs_ok _
  · exact failsAs_error rfl

theorem transient_selectedHead (config : Config) (node : Node) :
    FailsAs Transient (config.selectedHead node) := by
  refine FailsAs.bind (transient_wrap (transient_ofExternal _)) fun answer => ?_
  cases answer with
  | none => exact failsAs_error rfl
  | some header => exact failsAs_ok _

theorem transient_chainHash (node : Node) (number headNumber : UInt64) (headHash : Hash) :
    FailsAs Transient (chainHash node number headNumber headHash) := by
  unfold chainHash
  split
  · exact failsAs_ok _
  · refine FailsAs.bind (transient_wrap (transient_ofExternal _)) fun answer => ?_
    cases answer with
    | none => exact failsAs_error rfl
    | some header =>
      exact FailsAs.bind (transient_validHeaderNumber header) fun _ =>
        FailsAs.bind (transient_failIf rfl) fun _ => failsAs_ok _

/-- Answers of the store whose errors are retried, as far as reads go. -/
def TransientReads : (r : Request) → Response r → Prop
  | .canonicalTip, answer => FailsAs Transient answer
  | .canonicalHash _, answer => FailsAs Transient answer
  | .applyCanonicalUpdate _, _ => True

/-- Reading the in-memory store fails with the context only. -/
theorem transientReads_memory (e : MemoryEnv) (r : Request) (m : Memory) :
    TransientReads r ((Memory.indexStore e).handle r m).1 := by
  cases r with
  | canonicalTip =>
    change FailsAs Transient (m.canonicalTip _ _)
    unfold Memory.canonicalTip
    split
    · exact failsAs_error (transient_fault _)
    · exact failsAs_ok _
  | canonicalHash n =>
    change FailsAs Transient (m.canonicalHash _ _)
    unfold Memory.canonicalHash
    split
    · exact failsAs_error (transient_fault _)
    · split
      · exact failsAs_error rfl
      · exact failsAs_ok _
  | applyCanonicalUpdate u => trivial

section Plan

variable {node : Node} {storedTip : ChainTip} {headNumber : UInt64} {headHash : Hash}
  {retainFrom : UInt64}

/-- A step of the search for an ancestor. -/
theorem transient_probe (number : UInt64) :
    (probe node storedTip headNumber headHash number).FailsAs TransientReads Transient := by
  have hcompare : ∀ stored : Hash, (do
      let chainHash ← Session.lift (chainHash node number headNumber headHash)
      if stored = chainHash then return .found { number := number, hash := stored }
      else return .differs : Sync Probe).FailsAs TransientReads Transient := fun stored =>
    (Session.failsAs_lift (transient_chainHash _ _ _ _)).bind fun chain => by
      split <;> trivial
  unfold probe storedHash
  split
  · exact hcompare storedTip.hash
  · intro answer hanswer
    cases answer with
    | error err =>
      change Session.FailsAs TransientReads Transient (if err.Is .notFound then _ else _)
      split
      · trivial
      · exact Session.failsAs_lift (failsAs_error (transient_wrap_iff.2 (hanswer err rfl)))
    | ok stored => exact hcompare stored

/-- The search, for any number of steps. -/
theorem transient_commonAncestorFrom (fuel : ℕ) (number : UInt64) :
    (commonAncestorFrom node storedTip headNumber headHash retainFrom fuel number).FailsAs
      TransientReads Transient := by
  induction fuel using Nat.strongRecOn generalizing number with
  | _ fuel ih =>
    unfold commonAncestorFrom
    refine (transient_probe number).bind fun r => ?_
    cases r with
    | missing => trivial
    | found a => trivial
    | differs =>
      dsimp only
      split
      · trivial
      · cases fuel with
        | zero => trivial
        | succ fuel => exact ih fuel (by omega) _

/-- A plan from what the search found. -/
theorem transient_ancestorPlan (ancestor : Option ChainTip) :
    FailsAs Transient (ancestorPlan storedTip retainFrom ancestor) := by
  cases ancestor with
  | none => exact failsAs_ok _
  | some a =>
    unfold ancestorPlan
    dsimp only
    split
    · exact failsAs_error rfl
    · split <;> exact failsAs_ok _

/-- **No failure of the plan is permanent.** -/
theorem transient_replacementStart (tip : Option ChainTip) :
    (replacementStart node tip headNumber headHash retainFrom).FailsAs
      TransientReads Transient := by
  cases tip with
  | none => trivial
  | some tip =>
    unfold replacementStart
    dsimp only
    split
    · trivial
    · split
      · split
        · exact Session.failsAs_lift (failsAs_error rfl)
        · trivial
      · exact (transient_commonAncestorFrom _ _).bind fun ancestor =>
          Session.failsAs_lift (transient_ancestorPlan ancestor)

end Plan

/-! ## The update that is refused -/

section Refused

variable {σ : Type} {S : IndexStore σ} {s : Syncer} {env : Env} {st st' : σ}

/-- The update of a call that comes to `replaceFrom` and fetched
`bundles`. -/
def Syncer.update (s : Syncer) (env : Env) (headNumber replaceFrom : UInt64)
    (bundles : List BlockBundle) : CanonicalUpdate where
  chainID := s.config.chainID
  replaceFrom := replaceFrom
  retainFrom := windowStart headNumber s.config.blockWindow
  blocks := bundles
  syncedAt := env.now

/-- A call comes to its update, and the store refuses it. -/
structure Refused (S : IndexStore σ) (s : Syncer) (env : Env) (st : σ) (header : Header)
    (headNumber : UInt64) (plan : ReplacementPlan) (bundles : List BlockBundle) (err : Fault) :
    Prop where
  head : s.config.selectedHead env.node = .ok header
  number : validHeaderNumber header = .ok headNumber
  planned : ∃ storedTip, S.canonicalTip st = .ok storedTip ∧
    (replacementStart env.node storedTip headNumber header.hash
      (windowStart headNumber s.config.blockWindow)).run S.handle st = (.ok plan, st)
  fetch : s.fetchCanonical env plan.replaceFrom headNumber header.hash = .ok bundles
  refuse : (S.applyCanonicalUpdate (s.update env headNumber plan.replaceFrom bundles) st).1 =
    .error err

/-- **Only the store can fail a call for good.** -/
theorem refused_of_not_transient (hs : s.validateSyncOnceConfig = .ok ())
    (hreads : ∀ r st, TransientReads r (S.handle r st).1) {err : Fault}
    (h : (s.syncOnce env).run S.handle st = (.error err, st')) (herr : ¬ Transient err) :
    ∃ header headNumber plan bundles err',
      Refused S s env st header headNumber plan bundles err' ∧ ¬ Transient err' := by
  simp only [Syncer.syncOnce, Session.run_bind_eq_error_iff, Session.run_lift, Session.run_request,
    IndexStore.handle, Prod.mk.injEq, Session.pure_eq, Session.run_ret, reduceCtorEq, hs,
    false_and, false_or, Go.wrap_eq_ok_iff] at h
  obtain ⟨_, _, ⟨-, rfl⟩, h⟩ := h
  -- stage by stage: a failure before the update is transient
  rcases h with ⟨hhead, -⟩ | ⟨header, _, ⟨hhead, rfl⟩, h⟩
  · exact absurd (transient_selectedHead _ _ _ hhead) herr
  rcases h with ⟨hnumber, -⟩ | ⟨headNumber, _, ⟨hnumber, rfl⟩, h⟩
  · exact absurd (transient_validHeaderNumber _ _ hnumber) herr
  rcases h with ⟨htip, -⟩ | ⟨tip, _, ⟨htip, rfl⟩, h⟩
  · exact absurd (transient_wrap (hreads .canonicalTip st) _ htip) herr
  rcases h with hplan | ⟨plan, st₁, hplan, h⟩
  · exact absurd ((transient_replacementStart _).run hreads hplan) herr
  have hst₁ : st₁ = st := (congrArg Prod.snd hplan).symm.trans run_replacementStart_snd
  subst hst₁
  rcases h with ⟨hfetch, -⟩ | ⟨bundles, _, ⟨hfetch, rfl⟩, h⟩
  · exact absurd (transient_fetchCanonical hs _ hfetch) herr
  rcases h with ⟨happ, -⟩ | ⟨_, _, -, hfalse, -⟩
  · cases hu : (S.applyCanonicalUpdate (s.update env headNumber plan.replaceFrom bundles) st₁).1 with
    | error err' =>
      refine ⟨header, headNumber, plan, bundles, err', ⟨hhead, hnumber, ⟨tip, htip, hplan⟩, hfetch,
        hu⟩, fun herr' => herr ?_⟩
      change Go.wrap _ (S.applyCanonicalUpdate
        (s.update env headNumber plan.replaceFrom bundles) st₁).1 = _ at happ
      rw [hu] at happ
      cases happ
      exact transient_wrap_iff.2 herr'
    | ok _ =>
      change Go.wrap _ (S.applyCanonicalUpdate
        (s.update env headNumber plan.replaceFrom bundles) st₁).1 = _ at happ
      rw [hu] at happ
      cases happ

/-- And a refusal fails the call. -/
theorem Refused.run (hs : s.validateSyncOnceConfig = .ok ()) {header : Header}
    {headNumber : UInt64} {plan : ReplacementPlan} {bundles : List BlockBundle} {err : Fault}
    (h : Refused S s env st header headNumber plan bundles err) :
    ∃ context st', (s.syncOnce env).run S.handle st = (.error (err.wrap context), st') := by
  obtain ⟨tip, htip, hplan⟩ := h.planned
  refine ⟨s!"apply canonical update from block {plan.replaceFrom}",
    (S.applyCanonicalUpdate (s.update env headNumber plan.replaceFrom bundles) st).2, ?_⟩
  simp only [Syncer.syncOnce, Session.run_bind_eq_error_iff, Session.run_lift, Session.run_request,
    IndexStore.handle, Prod.mk.injEq]
  refine Or.inr ⟨(), st, ⟨hs, rfl⟩, Or.inr ⟨header, st, ⟨h.head, rfl⟩, Or.inr ⟨headNumber, st,
    ⟨h.number, rfl⟩, Or.inr ⟨tip, st, ⟨Go.wrap_eq_ok_iff.2 htip, rfl⟩, Or.inr ⟨plan, st, hplan,
    Or.inr ⟨bundles, st, ⟨h.fetch, rfl⟩, Or.inl ⟨?_, rfl⟩⟩⟩⟩⟩⟩⟩
  exact congrArg (Go.wrap _) h.refuse

end Refused

end EthIndexer
