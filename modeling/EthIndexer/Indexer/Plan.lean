import EthIndexer.Indexer.Fetcher
import EthIndexer.Indexer.Store
/-!
# The update a synchronization hands over

Whatever the store and the node answer on the way, the plan starts inside
the head's window, and the update made from it `Fits`: its blocks run from
the plan's start up to the head, each naming the one before, and the last
has the selected hash. The plan is made by reads alone.
-/

namespace EthIndexer

/-! ## The window -/

theorem toNat_windowStart {h w : UInt64} (hw : w ≠ 0) :
    (windowStart h w).toNat = h.toNat - (w.toNat - 1) := by
  have hpos : 1 ≤ w.toNat := by
    have : w.toNat ≠ 0 := fun h0 => hw (UInt64.toNat_inj.1 h0)
    omega
  have hsub : (w - 1).toNat = w.toNat - 1 :=
    UInt64.toNat_sub_of_le _ _ (UInt64.le_iff_toNat_le.2 hpos)
  unfold windowStart
  split
  · rename_i hlt
    rw [gt_iff_lt, UInt64.lt_iff_toNat_lt, hsub] at hlt
    rw [UInt64.toNat_zero]
    omega
  · rename_i hle
    rw [gt_iff_lt, UInt64.not_lt] at hle
    rw [UInt64.toNat_sub_of_le _ _ hle, hsub]

theorem windowStart_le {h w : UInt64} (hw : w ≠ 0) : windowStart h w ≤ h := by
  rw [UInt64.le_iff_toNat_le, toNat_windowStart hw]
  omega

/-- A higher head has a higher window. -/
theorem windowStart_mono {h h' w : UInt64} (hw : w ≠ 0) (hh : h ≤ h') :
    windowStart h w ≤ windowStart h' w := by
  rw [UInt64.le_iff_toNat_le] at hh ⊢
  rw [toNat_windowStart hw, toNat_windowStart hw]
  omega

/-! ## Whatever the store answers -/

section Bounds

variable {node : Node} {storedTip : ChainTip} {headNumber : UInt64} {headHash : Hash}
  {retainFrom : UInt64}

theorem min_eq_of_le {a b : UInt64} (h : a ≤ b) : min a b = a := if_pos h

/-- The body of the loop looks at its own height only. -/
theorem ensures_probe (number : UInt64) :
    (probe node storedTip headNumber headHash number).Ensures
      fun r => ∀ a, r = .found a → a.number = number := by
  refine Session.Ensures.bind (P := fun _ => True) ?_ fun answer _ => ?_
  · unfold storedHash
    split
    · trivial
    · exact fun _ => trivial
  · cases answer with
    | error err =>
      dsimp only
      split
      · exact fun a h => by cases h
      · trivial
    | ok hash =>
      refine Session.Ensures.bind (P := fun _ => True)
        (Session.ensures_lift fun _ _ => trivial) fun chain _ => ?_
      split
      · exact fun a h => by cases h; rfl
      · exact fun a h => by cases h

/-- The search stays between `retainFrom` and where it started. -/
theorem ensures_commonAncestorFrom (fuel : ℕ) {number : UInt64} (hnumber : retainFrom ≤ number) :
    (commonAncestorFrom node storedTip headNumber headHash retainFrom fuel number).Ensures
      fun ancestor => ∀ a ∈ ancestor, retainFrom ≤ a.number ∧ a.number ≤ number := by
  induction fuel using Nat.strongRecOn generalizing number with
  | _ fuel ih =>
    unfold commonAncestorFrom
    refine (ensures_probe number).bind fun r hr => ?_
    cases r with
    | missing => exact fun a h => by cases h
    | found a =>
      rintro a' ⟨⟩
      rw [hr a rfl]
      exact ⟨hnumber, UInt64.le_refl _⟩
    | differs =>
      dsimp only
      split
      · exact fun a h => by cases h
      · rename_i hne
        cases fuel with
        | zero => exact fun a h => by cases h
        | succ fuel =>
          have hlt : retainFrom < number := by grind
          have hpred := toNat_pred_of_lt hlt
          rw [UInt64.lt_iff_toNat_lt] at hlt
          refine (ih fuel (by omega) (UInt64.le_iff_toNat_le.2 (by omega))).mono fun r hr a ha => ?_
          obtain ⟨h1, h2⟩ := hr a ha
          rw [UInt64.le_iff_toNat_le] at h2
          exact ⟨h1, UInt64.le_iff_toNat_le.2 (by omega)⟩

theorem forall_probe {Q : (r : Request) → (Response r → Sync Probe) → Prop}
    (hQ : ∀ r k, r.IsRead → Q r k) (number : UInt64) :
    (probe node storedTip headNumber headHash number).Forall Q := by
  refine Session.Forall.bind ?_ (Session.ensures_true _) fun answer _ => ?_
  · unfold storedHash
    split
    · trivial
    · exact ⟨hQ _ _ trivial, fun _ => trivial⟩
  · cases answer with
    | error err =>
      dsimp only
      split <;> trivial
    | ok hash =>
      refine Session.Forall.bind trivial (Session.ensures_true _) fun chain _ => ?_
      split <;> trivial

theorem forall_commonAncestorFrom
    {Q : (r : Request) → (Response r → Sync (Option ChainTip)) → Prop} (fuel : ℕ) (number : UInt64)
    (hQ : ∀ r k, r.IsRead → Q r k) :
    (commonAncestorFrom node storedTip headNumber headHash retainFrom fuel number).Forall Q := by
  induction fuel using Nat.strongRecOn generalizing number with
  | _ fuel ih =>
    unfold commonAncestorFrom
    refine Session.Forall.bind (forall_probe (fun r k hr => hQ r _ hr) number)
      (Session.ensures_true _) fun r _ => ?_
    cases r with
    | missing => trivial
    | found a => trivial
    | differs =>
      dsimp only
      split
      · trivial
      · cases fuel with
        | zero => trivial
        | succ fuel => exact ih fuel (by omega) _

theorem ancestorPlan_cases {ancestor : Option ChainTip} {plan : ReplacementPlan}
    (h : ancestorPlan storedTip retainFrom ancestor = .ok plan) :
    (ancestor = none ∧ plan.replaceFrom = retainFrom) ∨
      ∃ a, ancestor = some a ∧ a.number ≠ maxUint64 ∧ plan.replaceFrom = a.number + 1 := by
  unfold ancestorPlan at h
  cases ancestor with
  | none =>
    cases h
    exact Or.inl ⟨rfl, rfl⟩
  | some a =>
    dsimp only at h
    split at h
    · cases h
    · rename_i hmax
      split at h <;> (cases h; exact Or.inr ⟨a, rfl, hmax, rfl⟩)

/-- **The plan starts inside the window**, at most one above the head. -/
theorem ensures_replacementStart (tip : Option ChainTip) (hretain : retainFrom ≤ headNumber) :
    (replacementStart node tip headNumber headHash retainFrom).Ensures fun plan =>
      retainFrom ≤ plan.replaceFrom ∧ plan.replaceFrom.toNat ≤ headNumber.toNat + 1 := by
  rw [UInt64.le_iff_toNat_le] at hretain
  have hwhole : retainFrom ≤ retainFrom ∧ retainFrom.toNat ≤ headNumber.toNat + 1 :=
    ⟨UInt64.le_refl _, by omega⟩
  have hsucc : ∀ {n : UInt64}, retainFrom ≤ n → n ≤ headNumber → n ≠ maxUint64 →
      retainFrom ≤ n + 1 ∧ (n + 1).toNat ≤ headNumber.toNat + 1 := by
    intro n h1 h2 hmax
    rw [UInt64.le_iff_toNat_le] at h1 h2 ⊢
    have := toNat_succ_of_ne hmax
    omega
  cases tip with
  | none => exact hwhole
  | some tip =>
    unfold replacementStart
    dsimp only
    split
    · exact hwhole
    · rename_i hin
      simp only [gt_iff_lt, not_or, UInt64.not_lt] at hin
      split
      · rename_i hcurrent
        split
        · trivial
        · rename_i hmax
          exact hsucc (UInt64.le_iff_toNat_le.2 hretain) (UInt64.le_refl _) hmax
      · rw [commonAncestor, min_eq_of_le hin.1]
        refine (ensures_commonAncestorFrom _ hin.2).bind fun ancestor ha => ?_
        refine Session.ensures_lift fun plan hplan => ?_
        rcases ancestorPlan_cases hplan with ⟨-, heq⟩ | ⟨a, rfl, hmax, heq⟩
        · rw [heq]
          exact hwhole
        · obtain ⟨h1, h2⟩ := ha a rfl
          rw [heq]
          exact hsucc h1 (UInt64.le_trans h2 hin.1) hmax

/-- The plan is made by reads alone. -/
theorem forall_replacementStart {tip : Option ChainTip}
    {Q : (r : Request) → (Response r → Sync ReplacementPlan) → Prop}
    (hQ : ∀ r k, r.IsRead → Q r k) :
    (replacementStart node tip headNumber headHash retainFrom).Forall Q := by
  cases tip with
  | none => trivial
  | some tip =>
    unfold replacementStart
    dsimp only
    split
    · trivial
    · split
      · split <;> trivial
      · exact Session.Forall.bind (forall_commonAncestorFrom _ _ fun r k hr => hQ r _ hr)
          (Session.ensures_true _) fun _ _ => trivial

end Bounds

/-! ## The update -/

/-- **The update covers the head**: it starts inside the head's window,
its blocks run from there up to the head, each naming the one before, and
the last has the head's hash. -/
structure Fits (config : Config) (head : ChainTip) (u : CanonicalUpdate) : Prop where
  chainID : u.chainID = config.chainID
  retain : u.retainFrom = windowStart head.number config.blockWindow
  le : u.retainFrom ≤ u.replaceFrom
  consecutive : Consecutive u.replaceFrom u.blocks
  reach : u.replaceFrom.toNat + u.blocks.length = head.number.toNat + 1
  chain : u.blocks.IsChain BlockBundle.Extends
  last : ∀ b ∈ u.blocks.getLast?, b.block.hash = head.hash

/-- **When a syncer's settings are valid.** -/
theorem validateSyncOnceConfig_eq_ok_iff {s : Syncer} :
    s.validateSyncOnceConfig = .ok () ↔ ∃ fetcher, s.fetcher = some fetcher ∧
      s.config.chainID ≠ 0 ∧ fetcher.chainID = some (s.config.chainID.toNat : ℤ) ∧
      s.config.blockWindow ≠ 0 ∧ s.config.blockWindow ≤ maxBlockWindow ∧ s.chain = true ∧
      s.store = true ∧ 1 ≤ s.config.rpcConcurrency ∧
      ∀ text quoted, s.config.headMode ≠ .unsupported text quoted := by
  unfold Syncer.validateSyncOnceConfig
  cases hf : s.fetcher with
  | none => simp
  | some fetcher =>
    simp only [Go.bind_eq_ok_iff, Go.failIf_eq_ok_iff, exists_const, ne_eq, not_not, not_or,
      gt_iff_lt, UInt64.not_lt, asUint64_eq_some_iff, Bool.not_eq_false, Option.some.injEq,
      exists_eq_left']
    cases hm : s.config.headMode with
    | unsupported text quoted => simp
    | latest => simp; tauto
    | safe => simp; tauto
    | finalized => simp; tauto

/-- What `SyncOnce` fetches. -/
theorem fetchCanonical_eq_ok {s : Syncer} {env : Env} {replaceFrom headNumber : UInt64}
    {selectedHash : Hash} {bundles : List BlockBundle}
    (h : s.fetchCanonical env replaceFrom headNumber selectedHash = .ok bundles) :
    (replaceFrom ≤ headNumber ∧ ∃ fetcher last, s.fetcher = some fetcher ∧
        fetcher.fetchRange env replaceFrom headNumber = .ok bundles ∧
        bundles.getLast? = some last ∧ last.block.hash = selectedHash) ∨
      (headNumber < replaceFrom ∧ bundles = []) := by
  unfold Syncer.fetchCanonical at h
  split at h
  · rename_i hle
    refine Or.inl ⟨hle, ?_⟩
    cases hf : s.fetcher with
    | none =>
      rw [hf] at h
      cases h
    | some fetcher =>
      rw [hf] at h
      simp only [Go.bind_eq_ok_iff, Go.wrap_eq_ok_iff] at h
      obtain ⟨bs, hbs, h⟩ := h
      cases hlast : bs.getLast? with
      | none =>
        rw [hlast] at h
        cases h
      | some last =>
        rw [hlast] at h
        simp only [Go.bind_eq_ok_iff, Go.failIf_eq_ok_iff, Go.pure_eq_ok_iff, exists_const,
          ne_eq, not_not] at h
        obtain ⟨hhash, rfl⟩ := h
        exact ⟨fetcher, last, rfl, hbs, hlast, hhash⟩
  · rename_i hlt
    rw [Go.pure_eq_ok_iff] at h
    exact Or.inr ⟨UInt64.not_le.1 hlt, h.symm⟩

theorem fetchBlock_of_mem_fetchCanonical {s : Syncer} {f : Fetcher} {env : Env}
    {replaceFrom headNumber : UInt64} {selectedHash : Hash} {bundles : List BlockBundle}
    (hf : s.fetcher = some f)
    (h : s.fetchCanonical env replaceFrom headNumber selectedHash = .ok bundles) {b : BlockBundle}
    (hb : b ∈ bundles) : f.fetchBlock env b.block.number = .ok b := by
  rcases fetchCanonical_eq_ok h with ⟨-, f', _, hf', hrange, -⟩ | ⟨-, rfl⟩
  · cases hf.symm.trans hf'
    exact fetchBlock_of_mem_fetchRange hrange hb
  · exact absurd hb List.not_mem_nil

/-- A plan inside the window makes an update that fits. -/
theorem fits_of_fetchCanonical {s : Syncer} {env : Env} (head : ChainTip) {replaceFrom : UInt64}
    {bundles : List BlockBundle}
    (hplan : windowStart head.number s.config.blockWindow ≤ replaceFrom ∧
      replaceFrom.toNat ≤ head.number.toNat + 1)
    (h : s.fetchCanonical env replaceFrom head.number head.hash = .ok bundles) :
    Fits s.config head
      { chainID := s.config.chainID, replaceFrom := replaceFrom
        retainFrom := windowStart head.number s.config.blockWindow
        blocks := bundles, syncedAt := env.now } := by
  rcases fetchCanonical_eq_ok h with ⟨-, fetcher, last, -, hrange, hlast, hhash⟩ | ⟨hlt, rfl⟩
  · obtain ⟨hcons, hreach⟩ := consecutive_of_fetchRange hrange
    refine ⟨rfl, rfl, hplan.1, hcons, hreach, (fetchRange_eq_ok_iff.1 hrange).2.2.2.2, ?_⟩
    intro b hb
    rw [hlast] at hb
    exact Option.some.inj hb ▸ hhash
  · rw [UInt64.lt_iff_toNat_lt] at hlt
    refine ⟨rfl, rfl, hplan.1, consecutive_nil _, ?_, .nil, fun b hb => by simp at hb⟩
    have := hplan.2
    simp only [List.length_nil]
    omega

end EthIndexer
