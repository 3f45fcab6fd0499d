import EthIndexer.Indexer.Acceptance
import EthIndexer.Indexer.Convergence
import EthIndexer.Indexer.Failures
import EthIndexer.Indexer.Model.Live
import EthIndexer.Store.Connections
import EthIndexer.Store.Pair
import EthIndexer.Store.Schema
/-!
# Synchronizing the tables

`Durable` is what the calls of one syncer keep of the tables, whatever the
node answers, whichever call on the database fails, and whether or not a
commit that failed took place: they hold the window of their own tip, of
the syncer's chain. `Durable.sync` says all that one call can do to them.

When the node serves one chain, `exists_update_of_chain` brings the call up
to its update, for any lawful store. That the tables take the update is
what the database adds: its columns hold the chain's values, no byte field
is NULL because the fetcher copies every slice, and no hash comes twice
because a hash determines its block.
-/

namespace EthIndexer

open Go

/-! ## Seen through a change that keeps the chain -/

section KeepsChain

variable {B B' : BundleMap} {g : BlockBundle → BlockBundle}

/-- A window and its image have the same numbers. -/
theorem mem_iff_of_map (h : ∀ n, B'.get? n = (B.get? n).map g) {n : UInt64} : n ∈ B' ↔ n ∈ B := by
  rw [GoMap.mem_iff_get?, GoMap.mem_iff_get?]
  simp [h]

/-- A number is confirmed for a window if it is for the image. -/
theorem Confirmed.of_map (hg : KeepsChain g) (h : ∀ n, B'.get? n = (B.get? n).map g) {node : Node}
    {headNumber retainFrom n : UInt64} {headHash : Hash}
    (hn : Confirmed B' node headNumber headHash retainFrom n) :
    Confirmed B node headNumber headHash retainFrom n where
  retain := hn.retain
  head k hk := hn.head k ((mem_iff_of_map h).2 hk)
  block := by
    obtain ⟨b', hb', hhash⟩ := hn.block
    rw [h] at hb'
    obtain ⟨b, hb, rfl⟩ := Option.map_eq_some_iff.1 hb'
    exact ⟨b, hb, by rw [hhash, hg.hash]⟩

theorem Confirmed.map (hg : KeepsChain g) (h : ∀ n, B'.get? n = (B.get? n).map g) {node : Node}
    {headNumber retainFrom n : UInt64} {headHash : Hash}
    (hn : Confirmed B node headNumber headHash retainFrom n) :
    Confirmed B' node headNumber headHash retainFrom n where
  retain := hn.retain
  head k hk := hn.head k ((mem_iff_of_map h).1 hk)
  block := by
    obtain ⟨b, hb, hhash⟩ := hn.block
    exact ⟨g b, by rw [h, hb, Option.map_some], by rw [hg.hash, hhash]⟩

theorem Windowed.of_map (hg : KeepsChain g) (h : ∀ n, B'.get? n = (B.get? n).map g) {w : UInt64}
    (hB' : Windowed w B') : Windowed w B := by
  rcases hB' with rfl | ⟨tip, htip, hspans⟩
  · left
    refine GoMap.ext_get? fun n => ?_
    have hn := h n
    rw [GoMap.get?_empty] at hn
    rw [GoMap.get?_empty]
    exact Option.map_eq_none_iff.1 hn.symm
  · have hget := htip.get?
    rw [h] at hget
    obtain ⟨b, hb, rfl⟩ := Option.map_eq_some_iff.1 hget
    rw [hg.number] at hb hspans
    refine Or.inr ⟨b, ⟨hb, fun n hn => ?_⟩, fun n => (mem_iff_of_map h).symm.trans (hspans n)⟩
    have hle := htip.le n ((mem_iff_of_map h).2 hn)
    rwa [hg.number] at hle

end KeepsChain

/-! ## The update a call comes to -/

section Planned

variable {σ : Type} {S : IndexStore σ} {view : σ → BundleMap} {inv : σ → Prop} {s : Syncer}
  {f : Fetcher} {c : EthChain} {env : Env} {st : σ}

/-- **What a call comes to when the node serves one chain**: an update of
the chain's blocks on top of a height the chain confirms, or of the whole
window. The call succeeds if the store takes it. -/
theorem exists_update_of_chain (hS : LawfulStore S view inv) (hst : inv st)
    (hs : s.validateSyncOnceConfig = .ok ()) (hf : s.fetcher = some f) (hc : c.Valid f)
    (hmax : c.head < maxUint64) (hnode : env.node = c.node) (hctx : env.rangeCtx = none)
    {tip : Option ChainTip} (htip : S.canonicalTip st = .ok tip)
    (hstore : ∀ n err, S.canonicalHash n st = .error err → err.Is .notFound) :
    ∃ u, Fits s.config ⟨c.head, (c.block c.head).hash⟩ u ∧
      (∀ b ∈ u.blocks, f.fetchBlock env b.block.number = .ok b) ∧
      ((u.replaceFrom = u.retainFrom ∧ ∀ n, ¬ Confirmed (view st) env.node c.head
          (c.block c.head).hash u.retainFrom n) ∨
        ∃ n, Confirmed (view st) env.node c.head (c.block c.head).hash u.retainFrom n ∧
          u.replaceFrom.toNat = n.toNat + 1) ∧
      ∀ st', S.applyCanonicalUpdate u st = (.ok (), st') → ∃ result,
        (s.syncOnce env).run S.handle st = (.ok result, st') ∧
        result.head = ⟨c.head, (c.block c.head).hash⟩ := by
  obtain ⟨_, -, -, -, hw, hwmax, -⟩ := validateSyncOnceConfig_eq_ok_iff.1 hs
  obtain ⟨hhead, hnumber⟩ := hc.hashLinked.selectedHead_eq hnode s.config
  have hchain : ∀ n, n ≤ c.head → ∃ h, chainHash env.node n c.head (c.block c.head).hash = .ok h :=
    fun n hn => ⟨_, hc.hashLinked.chainHash_eq hnode hn⟩
  obtain ⟨plan, hplan⟩ : ∃ plan, (replacementStart env.node tip c.head (c.block c.head).hash
      (windowStart c.head s.config.blockWindow)).run S.handle st = (.ok plan, st) :=
    exists_run_replacementStart hS hst htip hstore hchain fun _ => UInt64.ne_of_lt hmax
  have hbounds := (ensures_replacementStart tip (windowStart_le hw)).run hplan
  obtain ⟨bundles, hfetch⟩ := exists_fetchCanonical hf hc hnode hctx plan.replaceFrom
    fun hle => by
      have hsub := UInt64.toNat_sub_of_le _ _ hle
      have hstart := toNat_windowStart (h := c.head) hw
      have h1 := UInt64.le_iff_toNat_le.1 hbounds.1
      have h2 : s.config.blockWindow.toNat ≤ 50 := UInt64.le_iff_toNat_le.1 hwmax
      rw [maxInt]
      omega
  exact ⟨_, fits_of_fetchCanonical ⟨c.head, (c.block c.head).hash⟩ hbounds hfetch,
    fun b hb => fetchBlock_of_mem_fetchCanonical hf hfetch hb,
    confirmed_of_run_replacementStart hS hst htip hplan,
    fun st' happ => ⟨_, run_syncOnce_eq_ok_iff.2 ⟨_, _, _, _, _, _, hs, hhead, hnumber, htip, hplan,
      hfetch, happ, rfl⟩, rfl⟩⟩

end Planned

/-! ## No call panics -/

section NoPanic

theorem noPanic_of_failsWith {α : Type} {sentinel : Sentinel} {x : Go α}
    (h : FailsWith sentinel x) : NoPanic x := by
  intro err herr
  have hcauses := h err herr
  cases err with
  | error causes text => trivial
  | panic text => cases hcauses

theorem isError_of_transient {err : Fault} (h : Transient err) : err.IsError := by
  cases err with
  | error causes text => trivial
  | panic text => exact h

/-- A list of checks fails as each of them does. -/
theorem failsWith_each {α : Type} {sentinel : Sentinel} {check : α → Go Unit}
    (h : ∀ a, FailsWith sentinel (check a)) (l : List α) :
    FailsWith sentinel (Go.each check l) := by
  induction l with
  | nil => exact failsAs_ok _
  | cons a l ih => exact (h a).bind fun _ => ih

/-- An amount that does not fit is an invalid update. -/
theorem failsWith_validateUint256 (name : String) (value : Option ℤ) (required : Bool) :
    FailsWith .invalidCanonicalUpdate (validateUint256 name value required) := by
  unfold validateUint256
  split
  · exact failsWith_failIf _ _
  · exact failsWith_failIf _ _

/-- **Everything that is refused before the transaction is an invalid
update.** -/
theorem failsWith_validatePostgresUpdate (ord : RangeOrder UInt64 BlockBundle)
    (u : CanonicalUpdate) : FailsWith .invalidCanonicalUpdate (validatePostgresUpdate ord u) := by
  refine (failsWith_failIf _ _).bind fun _ => (failsWith_failIf _ _).bind fun _ =>
    (failsWith_failIf _ _).bind fun _ => (failsWith_failIf _ _).bind fun _ =>
    (failsWith_validateReplacement u).bind fun _ =>
    (failsWith_validateCanonicalBundles ord _).bind fun _ => failsWith_each (fun b => ?_) _
  refine FailsAs.bind ?_ fun _ => FailsAs.bind (failsWith_each (fun t => ?_) _) fun _ =>
    failsWith_each (fun e => failsWith_failIf _ _) _
  · exact (failsWith_failIf _ _).bind fun _ => (failsWith_failIf _ _).bind fun _ =>
      failsWith_validateUint256 _ _ _
  · exact (failsWith_failIf _ _).bind fun _ => (failsWith_failIf _ _).bind fun _ =>
      failsWith_each (fun check => failsWith_validateUint256 _ _ _) _

theorem Mirrors.bigint {T : Tables} {B : BundleMap} (h : Mirrors T B) : T.Bigint := by
  intro r hr
  obtain ⟨n, b, hb, rfl⟩ := (h.blocks.mem r).1 hr
  exact Int.ofNat_le.2 (UInt64.le_iff_toNat_le.1 (h.storable.fits hb).block.number)

namespace Postgres

variable {T : Tables} {B : BundleMap} {env : PostgresEnv}

/-- **No update panics**, valid or not. -/
theorem noPanic_applyCanonicalUpdate (h : Mirrors T B) (env : PostgresEnv)
    (ord : RangeOrder UInt64 BlockBundle) (u : CanonicalUpdate) :
    NoPanic (applyCanonicalUpdate env ord u T).1 := by
  have hcommit : NoPanic (commitUpdate env ord u T) := by
    cases hvalid : validatePostgresUpdate ord u with
    | ok _ => exact noPanic_commitUpdate (validatePostgresUpdate_eq_ok_iff.1 hvalid) h.bigint
    | error err =>
      unfold commitUpdate
      rw [hvalid]
      exact failsAs_error (noPanic_of_failsWith (failsWith_validatePostgresUpdate ord u) err hvalid)
  unfold applyCanonicalUpdate
  cases hrun : commitUpdate env ord u T with
  | ok T' => exact failsAs_ok _
  | error err => exact failsAs_error (hcommit err hrun)

/-- A call that fails may succeed the next time. -/
theorem transient_call (c : PostgresCall) (context : String) :
    FailsAs Transient (env.call c context) := by
  unfold PostgresEnv.call
  split
  · exact failsAs_ok _
  · exact failsAs_error rfl

/-- What is read of sound tables decodes, so only the database can fail. -/
theorem transient_canonicalTip (h : Mirrors T B) : FailsAs Transient (canonicalTip env T) := by
  refine (transient_call _ _).bind fun _ => ?_
  rcases selectTip_cases h with ⟨-, hsel⟩ | ⟨b, -, hsel⟩
  · rw [hsel]
    exact failsAs_ok _
  · rw [hsel, decodeTip_row]
    exact failsAs_ok _

/-- The tip is found where the query is answered. -/
theorem exists_canonicalTip (h : Mirrors T B) (hcall : env.fault .query = none) :
    ∃ tip, canonicalTip env T = .ok tip := by
  rw [canonicalTip, PostgresEnv.call, hcall]
  rcases selectTip_cases h with ⟨-, hsel⟩ | ⟨b, -, hsel⟩
  · rw [hsel]
    exact ⟨_, rfl⟩
  · rw [hsel, decodeTip_row]
    exact ⟨_, rfl⟩

/-- A number is not found because it is not there. -/
theorem notFound_of_canonicalHash (h : Mirrors T B) (hcall : env.fault .query = none) {n : UInt64}
    {err : Fault} (hfail : canonicalHash env T n = .error err) : err.Is .notFound := by
  rw [canonicalHash_eq h hcall] at hfail
  cases hb : B.get? n with
  | none =>
    rw [hb] at hfail
    cases hfail
    exact List.mem_singleton.2 rfl
  | some b =>
    rw [hb] at hfail
    cases hfail

theorem transient_canonicalHash (h : Mirrors T B) (n : UInt64) :
    FailsAs Transient (canonicalHash env T n) := by
  cases hcall : env.fault .query with
  | none =>
    rw [canonicalHash_eq h hcall]
    cases B.get? n with
    | none => exact failsAs_error rfl
    | some b => exact failsAs_ok _
  | some text =>
    unfold canonicalHash
    split
    · exact failsAs_error rfl
    · rename_i hn
      rw [postgresInt64_eq_ok (UInt64.not_lt.1 hn), ok_bind, PostgresEnv.call, hcall]
      exact failsAs_error rfl

end Postgres

/-- What sound tables answer: reads fail with errors that are retried, and
an update does not panic. -/
def SoundAnswer : (r : Request) → Response r → Prop
  | .canonicalTip, answer => FailsAs Transient answer
  | .canonicalHash _, answer => FailsAs Transient answer
  | .applyCanonicalUpdate _, answer => NoPanic answer

/-- **Every call leaves tables that hold a chain.** -/
theorem Postgres.sound_applyCanonicalUpdate {T : Tables} (hT : Sound T) (env : PostgresEnv)
    (ord : RangeOrder UInt64 BlockBundle) (u : CanonicalUpdate) :
    Sound (applyCanonicalUpdate env ord u T).2 := by
  obtain ⟨B, hB⟩ := hT
  rcases applyCanonicalUpdate_cases hB env ord u with ⟨-, T', heq, hB', -⟩ | ⟨err, heq⟩
  · rw [heq]
    exact ⟨_, hB'⟩
  · rw [heq]
    exact ⟨B, hB⟩

/-- So does every request of a synchronization, and it is answered by the
rules. -/
theorem soundAnswer_handle (e : PostgresCalls) (lost : Bool) (r : Request) (T : Tables)
    (hT : Postgres.Sound T) : SoundAnswer r ((Postgres.losingStore e lost).handle r T).1 ∧
      Postgres.Sound ((Postgres.losingStore e lost).handle r T).2 := by
  have hsound := hT
  obtain ⟨B, hB⟩ := hT
  cases r with
  | canonicalTip => exact ⟨Postgres.transient_canonicalTip hB.mirrors, hsound⟩
  | canonicalHash n => exact ⟨Postgres.transient_canonicalHash hB.mirrors n, hsound⟩
  | applyCanonicalUpdate u =>
    exact ⟨Postgres.noPanic_applyCanonicalUpdate hB.mirrors _ _ u,
      Postgres.sound_applyCanonicalUpdate hsound _ _ u⟩

/-- **A synchronization does not panic** where its store answers so. -/
theorem isError_syncOnce {s : Syncer} (hs : s.validateSyncOnceConfig = .ok ()) (env : Env) :
    (s.syncOnce env).FailsAs SoundAnswer Fault.IsError := by
  have hlift : ∀ {α : Type} {x : Go α}, FailsAs Transient x →
      (Session.lift x : Sync α).FailsAs SoundAnswer Fault.IsError := fun hx =>
    Session.failsAs_lift fun err herr => isError_of_transient (hx err herr)
  refine Session.FailsAs.bind (Session.failsAs_lift fun err herr => ?_) fun _ =>
    (hlift (transient_selectedHead _ _)).bind fun header =>
    (hlift (transient_validHeaderNumber header)).bind fun headNumber =>
    Session.FailsAs.bind (fun answer hanswer => ?_) fun storedTip =>
    Session.FailsAs.bind ?_ fun plan =>
    (hlift (transient_fetchCanonical hs)).bind fun bundles =>
    Session.FailsAs.bind (fun answer hanswer => ?_) fun _ => trivial
  · rw [hs] at herr
    cases herr
  · exact Session.failsAs_lift fun err herr =>
      isError_of_transient (transient_wrap hanswer err herr)
  · refine (transient_replacementStart storedTip).mono (fun r x hx => ?_)
      fun err => isError_of_transient
    cases r with
    | canonicalTip => exact hx
    | canonicalHash n => exact hx
    | applyCanonicalUpdate u => trivial
  · exact Session.failsAs_lift fun err herr => NoPanic.wrap hanswer _ err herr

/-- **A synchronization on the tables does not panic.** -/
theorem noPanic_syncPostgres {s : Syncer} (hs : s.validateSyncOnceConfig = .ok ()) (env : Env)
    (e : PostgresCalls) (lost : Bool) {T : Tables} (hT : Postgres.Sound T) :
    NoPanic (s.syncPostgres env e lost T).1 := fun _ herr =>
  (isError_syncOnce hs env).run_of_invariant (soundAnswer_handle e lost) hT (Prod.ext herr rfl)

end NoPanic

/-! ## Commits that are lost -/

section Lost

/-- The same calls, with commits that succeed. -/
def PostgresCalls.committing (e : PostgresCalls) : PostgresCalls :=
  { e with env := fun r => Postgres.committing (e.env r) }

variable {e : PostgresCalls} {lost : Bool} {T : Tables}

theorem sameReads_losingStore :
    SameReads (Postgres.indexStore e) (Postgres.losingStore e lost) :=
  ⟨fun _ => rfl, fun _ _ => rfl⟩

theorem sameReads_committing :
    SameReads (Postgres.indexStore e) (Postgres.indexStore e.committing) :=
  ⟨fun _ => rfl, fun _ _ => rfl⟩

/-- An update over such a connection is an update, or one that was
committed and is answered with an error. -/
theorem losingStore_cases (e : PostgresCalls) (lost : Bool) (u : CanonicalUpdate) (T : Tables) :
    (Postgres.losingStore e lost).applyCanonicalUpdate u T =
        (Postgres.indexStore e).applyCanonicalUpdate u T ∨
      lost = true ∧ (e.env (.applyCanonicalUpdate u)).fault .commit ≠ none ∧ ∃ err T',
        (Postgres.losingStore e lost).applyCanonicalUpdate u T = (.error err, T') ∧
        (Postgres.indexStore e.committing).applyCanonicalUpdate u T = (.ok (), T') := by
  cases lost with
  | false => exact Or.inl rfl
  | true =>
    rcases Postgres.committing_cases (e.env (.applyCanonicalUpdate u))
      (e.order (.applyCanonicalUpdate u)) u T with heq | ⟨text, T', hcommit, hanswer, hleft⟩
    · have hsnd := congrArg Prod.snd heq
      exact Or.inl (Prod.ext rfl hsnd)
    · have hsnd := congrArg Prod.snd hleft
      exact Or.inr ⟨rfl, hcommit ▸ Option.some_ne_none text, _, T', Prod.ext hanswer hsnd, hleft⟩

/-- Where no commit fails, none is lost. -/
theorem losingStore_of_faultless (he : ∀ r, (e.env r).Faultless) :
    Postgres.losingStore e lost = Postgres.indexStore e := by
  have happ : (Postgres.losingStore e lost).applyCanonicalUpdate =
      (Postgres.indexStore e).applyCanonicalUpdate := by
    funext u T
    exact (losingStore_cases e lost u T).resolve_right fun hlost => hlost.2.1 (he _ _)
  exact congrArg (IndexStore.mk _ _) happ

/-- **What a call leaves**: what was there, or what a call leaves that
succeeds on the same tables. So it does where it succeeds itself, and
where it fails because the answer to its commit was lost. -/
theorem Syncer.syncPostgres_cases (s : Syncer) (env : Env) (e : PostgresCalls) (lost : Bool)
    (T : Tables) :
    (∃ err, s.syncPostgres env e lost T = (.error err, T)) ∨
    ∃ e' answer result T', s.syncPostgres env e lost T = (answer, T') ∧
      (s.syncOnce env).run (Postgres.indexStore e').handle T = (.ok result, T') ∧
      (answer = .ok result ∨ lost = true ∧ ∃ err, answer = .error err) := by
  rcases run_syncOnce_of_reads s env (Postgres.indexStore e) T with
    ⟨err, hrun⟩ | ⟨u, context, result, hrun⟩
  · exact Or.inl ⟨err, hrun _ sameReads_losingStore⟩
  · have hsync : s.syncPostgres env e lost T = _ := hrun _ sameReads_losingStore
    rcases losingStore_cases e lost u T with
      heq | ⟨hlost, -, err, T', hanswer, hcommitted⟩
    · rw [heq] at hsync
      rcases happ : (Postgres.indexStore e).applyCanonicalUpdate u T with ⟨err | _, T'⟩
      · obtain rfl : T' = T := (Postgres.lawful e).apply_error happ
        rw [happ] at hsync
        exact Or.inl ⟨_, hsync⟩
      · have hplain := hrun (Postgres.indexStore e) ⟨fun _ => rfl, fun _ _ => rfl⟩
        rw [happ] at hsync hplain
        exact Or.inr ⟨e, _, result, T', hsync, hplain, Or.inl rfl⟩
    · have hcommitting := hrun _ sameReads_committing
      rw [hanswer] at hsync
      rw [hcommitted] at hcommitting
      exact Or.inr ⟨e.committing, _, result, T', hsync, hcommitting, Or.inr ⟨hlost, _, rfl⟩⟩

end Lost

/-! ## One call on the tables -/

/-- **What the calls of one syncer keep of the tables**: a window of their
own tip, of the syncer's chain. -/
structure Durable (s : Syncer) (T : Tables) (B : BundleMap) : Prop where
  holds : Postgres.Holds T B
  windowed : Windowed s.config.blockWindow B
  chain : ∀ r ∈ T.syncState, r.chainID = s.config.chainID.toNat

theorem durable_empty (s : Syncer) : Durable s Tables.empty ∅ :=
  ⟨Postgres.holds_empty, Or.inl rfl, fun _ hr => absurd hr List.not_mem_nil⟩

section Sync

variable {s : Syncer} {f : Fetcher} {T : Tables} {B : BundleMap}

/-- What is seen of durable tables is a window. -/
theorem Durable.windowed_view (h : Durable s T B) :
    Windowed s.config.blockWindow (Postgres.view T) := by
  have hget := Postgres.get?_view h.holds.mirrors
  rcases h.windowed with rfl | ⟨tip, htip, hspans⟩
  · exact Or.inl (Postgres.view_eq_empty h.holds.mirrors)
  · exact Or.inr ⟨_, Postgres.isTip_view h.holds.mirrors htip,
      fun n => (mem_iff_of_map hget).trans (hspans n)⟩

/-- A call that succeeds leaves the window of the head it selected, made
of blocks that were there and of blocks it fetched. -/
theorem Durable.sync_ok (h : Durable s T B) (hs : s.validateSyncOnceConfig = .ok ())
    (hf : s.fetcher = some f) {env : Env} {e : PostgresCalls} {result : SyncResult} {T' : Tables}
    (hrun : (s.syncOnce env).run (Postgres.indexStore e).handle T = (.ok result, T')) :
    ∃ u, Durable s T' (B.replace u) ∧ Fits s.config result.head u ∧
      Spans (B.replace u) (windowStart result.head.number s.config.blockWindow)
        result.head.number ∧
      ∀ b ∈ u.blocks, f.fetchBlock env b.block.number = .ok b := by
  have hS := Postgres.lawful e
  have hsound : Postgres.Sound T := ⟨B, h.holds⟩
  have hspans := spans_of_windowed hS hsound h.windowed_view hrun
  have hview := windowed_of_spans hS hsound hrun hspans
  obtain ⟨header, headNumber, tip, plan, T₁, bundles, -, -, -, htip, hplan, hfetch, happ, rfl⟩ :=
    run_syncOnce_eq_ok_iff.1 hrun
  obtain ⟨-, -, -, -, hw, -⟩ := validateSyncOnceConfig_eq_ok_iff.1 hs
  have hbounds := (ensures_replacementStart tip (windowStart_le hw)).run hplan
  obtain ⟨rfl, -⟩ := run_replacementStart_eq_ok hS hsound htip hplan
  have hu := fits_of_fetchCanonical ⟨headNumber, header.hash⟩ hbounds hfetch
  rcases Postgres.applyCanonicalUpdate_cases h.holds _ _ _ with
    ⟨-, T'', heq, hB', r, hr, hchain⟩ | ⟨err, heq⟩
  · cases heq.symm.trans happ
    have hget := Postgres.get?_view hB'.mirrors
    refine ⟨_, ⟨hB', hview.of_map keepsChain_stored hget, ?_⟩, hu,
      fun n => (mem_iff_of_map hget).symm.trans (hspans n),
      fun b hb => fetchBlock_of_mem_fetchCanonical hf hfetch hb⟩
    intro r' hr'
    rw [hr, List.mem_singleton] at hr'
    rw [hr', hchain]
  · cases heq.symm.trans happ

/-- **What one call can do to the tables.** It fails and leaves them, or
it leaves the window of a head of the node, made of blocks that were there
and of blocks it fetched. In the second case it succeeds, unless the
answer to its commit is lost. -/
theorem Durable.sync (h : Durable s T B) (hs : s.validateSyncOnceConfig = .ok ())
    (hf : s.fetcher = some f) (env : Env) (e : PostgresCalls) (lost : Bool) :
    (∃ err, s.syncPostgres env e lost T = (.error err, T)) ∨
    ∃ answer T' u head, s.syncPostgres env e lost T = (answer, T') ∧ Durable s T' (B.replace u) ∧
      Fits s.config head u ∧
      Spans (B.replace u) (windowStart head.number s.config.blockWindow) head.number ∧
      (∀ b ∈ u.blocks, f.fetchBlock env b.block.number = .ok b) ∧
      ((∃ result, answer = .ok result) ∨ lost = true) := by
  rcases s.syncPostgres_cases env e lost T with hleft | ⟨e', answer, result, T', hsync, hrun, hcases⟩
  · exact Or.inl hleft
  · obtain ⟨u, hT', hu, hspans, hfetched⟩ := h.sync_ok hs hf hrun
    exact Or.inr ⟨answer, T', u, result.head, hsync, hT', hu, hspans, hfetched,
      hcases.imp (fun hok => ⟨result, hok⟩) And.left⟩

end Sync

/-! ## A call on a chain the database can hold -/

/-- **A chain the columns can hold.** -/
structure EthChain.InRange (c : EthChain) (f : Fetcher) : Prop where
  head : c.head < maxInt64
  fits : ∀ {env : Env} {n : UInt64} {b : BlockBundle}, env.node = c.node → n ≤ c.head →
    f.fetchBlock env n = .ok b → b.Fits

/-- **A hash determines its block**, among the blocks of a map and those
that are fetched from the chain. -/
structure EthChain.Determined (c : EthChain) (f : Fetcher) (env : Env) (B : BundleMap) : Prop where
  stored : ∀ {n k : UInt64} {b served : BlockBundle}, B.get? n = some b → k ≤ c.head →
    f.fetchBlock env k = .ok served → b.block.hash = served.block.hash →
      b.content = served.content
  chain : ∀ {n k : UInt64}, n ≤ c.head → k ≤ c.head → (c.block n).hash = (c.block k).hash → n = k

section Converge

variable {s : Syncer} {f : Fetcher} {T : Tables} {B : BundleMap} {c : EthChain} {env : Env}
  {u : CanonicalUpdate}

theorem nonNil_of_fetchBlock {n : UInt64} {b : BlockBundle} (h : f.fetchBlock env n = .ok b) :
    b.NonNil :=
  ⟨(bytes_of_fetchBlock h).1, fun e he => ((bytes_of_fetchBlock h).2 e he).2⟩

/-- A block of the map has the hash of the chain's block. -/
theorem hash_of_served (hnode : env.node = c.node) (hB : Served B c f env) {n : UInt64}
    {b : BlockBundle} (hb : B.get? n = some b) :
    n ≤ c.head ∧ b.block.hash = (c.block n).hash := by
  obtain ⟨served, hn, hserved, hcontent⟩ := hB hb
  have hhash : b.block.hash = served.block.hash := congrArg (fun b => b.block.hash) hcontent
  exact ⟨hn, hhash.trans (EthChain.hash_of_fetchBlock hnode hn hserved).1⟩

/-- The retained block below the new ones is their parent. -/
theorem parentHeld_of_spans {head : ChainTip} (hu : Fits s.config head u)
    (hcanonical : Canonical (B.replace u)) (hspans : Spans (B.replace u) u.retainFrom head.number) :
    Postgres.ParentHeld B u := by
  intro first hfirst hlt
  have hget := fun {n b} => get?_replace_eq_some_iff (B := B) (n := n) (b := b) hu.consecutive
  have hmem : first ∈ u.blocks := List.mem_of_mem_head? hfirst
  have hnumber : first.block.number = u.replaceFrom := by
    obtain ⟨rest, hblocks⟩ := List.head?_eq_some_iff.1 hfirst
    exact (hblocks ▸ hu.consecutive).number_head
  have hpred := toNat_pred_of_lt hlt
  have hlt' := UInt64.lt_iff_toNat_lt.1 hlt
  have hreach := hu.reach
  have hpos := List.length_pos_of_mem hmem
  have hheld : u.replaceFrom - 1 ∈ B.replace u := (hspans _).2
    ⟨UInt64.le_iff_toNat_le.2 (by omega), UInt64.le_iff_toNat_le.2 (by omega)⟩
  obtain ⟨b, hb⟩ := GoMap.mem_iff_get?.1 hheld
  have hparent := hcanonical.linked (by omega) hb (hget.2 (Or.inl ⟨hmem, hnumber⟩))
  rcases hget.1 hb with ⟨hnew, hbn⟩ | ⟨hold, -⟩
  · have hge := (hu.consecutive.number_bounds hnew).1
    rw [hbn] at hge
    omega
  · exact ⟨b, hold, hparent⟩

/-- **The tables take the chain's blocks.** -/
theorem Durable.accepts (h : Durable s T B) (hid : s.config.chainID ≠ 0)
    (hidmax : s.config.chainID ≤ maxInt64) (hr : c.InRange f) (hd : c.Determined f env B)
    (hnode : env.node = c.node) (hu : Fits s.config ⟨c.head, (c.block c.head).hash⟩ u)
    (hnew : ∀ b ∈ u.blocks, f.fetchBlock env b.block.number = .ok b)
    (hserved : Served (B.replace u) c f env) (hcanonical : Canonical (B.replace u))
    (hspans : Spans (B.replace u) u.retainFrom c.head) : Postgres.Accepts T B u := by
  have hget := fun {n b} => get?_replace_eq_some_iff (B := B) (n := n) (b := b) hu.consecutive
  have hstorable := h.holds.mirrors.storable
  have hfits : ∀ b ∈ u.blocks, b.Fits := fun b hb =>
    hr.fits hnode (hash_of_served hnode hserved (hget.2 (Or.inl ⟨hb, rfl⟩))).1 (hnew b hb)
  have hreach : u.replaceFrom.toNat + u.blocks.length = c.head.toNat + 1 := hu.reach
  have hhead := UInt64.lt_iff_toNat_lt.1 hr.head
  refine ⟨⟨by rwa [hu.chainID], by rwa [hu.chainID], hu.le,
    UInt64.le_iff_toNat_le.2 (by omega), hu.consecutive, hcanonical.of_replace hu.consecutive,
    hfits⟩, fun r hmem => by rw [h.chain r hmem, hu.chainID],
    parentHeld_of_spans hu hcanonical hspans, hcanonical.number, hcanonical.wellFormed,
    fun hb => ?_, fun hb => ?_, fun hb hb' heq => ?_, hcanonical.distinct⟩
  · rcases hget.1 hb with ⟨hb, -⟩ | ⟨hb, -⟩
    · exact hfits _ hb
    · exact hstorable.fits hb
  · rcases hget.1 hb with ⟨hb, -⟩ | ⟨hb, -⟩
    · exact nonNil_of_fetchBlock (hnew _ hb)
    · exact hstorable.nonNil hb
  · obtain ⟨hn, hhash⟩ := hash_of_served hnode hserved hb
    obtain ⟨hk, hhash'⟩ := hash_of_served hnode hserved hb'
    exact hd.chain hn hk (hhash.symm.trans (heq.trans hhash'))

/-- **The tables of a chain's window.** -/
def HoldsChain (s : Syncer) (f : Fetcher) (c : EthChain) (T : Tables) : Prop :=
  ∃ B, Postgres.Holds T B ∧ Spans B (windowStart c.head s.config.blockWindow) c.head ∧
    ∀ n b, B.get? n = some b → ∃ served, f.fetchBlock c.env n = .ok served ∧
      b.content = served.content

/-- The time a block is fetched at is no part of its content. -/
theorem content_eq_of_fetchBlock {env' : Env} (hnode : env'.node = env.node) {n : UInt64}
    {b b' : BlockBundle} (h : f.fetchBlock env n = .ok b) (h' : f.fetchBlock env' n = .ok b') :
    b.content = b'.content := by
  obtain ⟨block, positions, logs, events, hblock, -, htx, hlogs, hmap, hevents, hb⟩ :=
    fetchBlock_eq_ok h
  obtain ⟨block', positions', logs', events', hblock', -, htx', hlogs', hmap', hevents', hb'⟩ :=
    fetchBlock_eq_ok h'
  rw [hnode, hblock, Except.ok.injEq, Option.some.injEq] at hblock'
  subst hblock'
  rw [htx, Except.ok.injEq, Prod.mk.injEq] at htx'
  obtain ⟨htransactions, rfl⟩ := htx'
  rw [hnode, hlogs, Except.ok.injEq] at hlogs'
  subst hlogs'
  rw [hmap, Except.ok.injEq] at hmap'
  rw [BlockBundle.content, BlockBundle.content, hb, hb', hevents, hevents', htransactions, hmap']

/-- **One call brings the tables to the chain.** -/
theorem Durable.sync_converges (h : Durable s T B) (hs : s.validateSyncOnceConfig = .ok ())
    (hf : s.fetcher = some f) (hidmax : s.config.chainID ≤ maxInt64) (hc : c.Valid f)
    (hr : c.InRange f) (hd : c.Determined f env B) (hnode : env.node = c.node)
    (hctx : env.rangeCtx = none) {e : PostgresCalls} (he : ∀ r, (e.env r).Faultless)
    (lost : Bool) :
    ∃ result T', s.syncPostgres env e lost T = (.ok result, T') ∧ HoldsChain s f c T' := by
  have hS := Postgres.lawful e
  have hsound : Postgres.Sound T := ⟨B, h.holds⟩
  have hget := Postgres.get?_view h.holds.mirrors
  obtain ⟨_, -, hid, -, hw, -⟩ := validateSyncOnceConfig_eq_ok_iff.1 hs
  have hmax : c.head < maxUint64 := UInt64.lt_trans hr.head (by decide)
  obtain ⟨tip, htip⟩ := Postgres.exists_canonicalTip h.holds.mirrors (he .canonicalTip .query)
  obtain ⟨u, hu, hnew, hcases, hrun⟩ :=
    exists_update_of_chain hS hsound hs hf hc hmax hnode hctx htip fun n err =>
      Postgres.notFound_of_canonicalHash h.holds.mirrors (he (.canonicalHash n) .query)
  -- what is confirmed of the rows is confirmed of the map
  have hcases' : (u.replaceFrom = u.retainFrom ∧ ∀ n, ¬ Confirmed B env.node c.head
        (c.block c.head).hash u.retainFrom n) ∨
      ∃ n, Confirmed B env.node c.head (c.block c.head).hash u.retainFrom n ∧
        u.replaceFrom.toNat = n.toNat + 1 := by
    rcases hcases with ⟨heq, hnone⟩ | ⟨n, hn, heq⟩
    · exact Or.inl ⟨heq, fun n hn => hnone n (hn.map keepsChain_stored hget)⟩
    · exact Or.inr ⟨n, hn.of_map keepsChain_stored hget, heq⟩
  have hserved : Served (B.replace u) c f env := served_replace hc hnode h.holds.canonical
    (fun n b k served => hd.stored) hu hnew hcases'
  have hspans : Spans (B.replace u) u.retainFrom c.head := by
    rcases hcases' with ⟨heq, -⟩ | ⟨n, hn, heq⟩
    · exact (spans_replace_iff hu hw h.holds.canonical).2 (Or.inl heq)
    · refine (spans_replace_iff_of_confirmed hu hw h.holds.canonical hn heq).2 ?_
      rw [hu.retain] at hn ⊢
      exact h.windowed.retain_mem hw hn
  have hcanonical : Canonical (B.replace u) :=
    canonical_of_served hc hnode hserved fun {i j n} hi hj hin hnj => (hspans n).2
      ⟨UInt64.le_trans ((hspans i).1 hi).1 hin, UInt64.le_trans hnj ((hspans j).1 hj).2⟩
  have haccepts := h.accepts hid hidmax hr hd hnode hu hnew hserved hcanonical hspans
  rcases Postgres.applyCanonicalUpdate_cases h.holds (e.env (.applyCanonicalUpdate u))
    (e.order (.applyCanonicalUpdate u)) u with ⟨-, T', happ, hB', -⟩ | ⟨err, happ⟩
  · obtain ⟨result, hresult, -⟩ := hrun T' happ
    rw [Syncer.syncPostgres, losingStore_of_faultless he]
    refine ⟨result, T', hresult, B.replace u, hB', hu.retain ▸ hspans, fun n b hb => ?_⟩
    obtain ⟨served, hn, hfetched, hcontent⟩ := hserved hb
    have hnode' : c.env.node = c.node := rfl
    obtain ⟨b', hb'⟩ := hc.fetched hnode' hn
    exact ⟨b', hb', hcontent.trans (content_eq_of_fetchBlock hnode.symm hfetched hb')⟩
  · have hok := (postgres_apply_eq_ok_iff h.holds (he (.applyCanonicalUpdate u))
      (e.order (.applyCanonicalUpdate u))).2 haccepts
    rw [happ] at hok
    cases hok

end Converge

end EthIndexer
