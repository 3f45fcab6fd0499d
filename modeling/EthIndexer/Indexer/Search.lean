import EthIndexer.Indexer.Plan
/-!
# The search for a common ancestor

The reads of a plan made while nobody else writes come from one state of
the store. Against that state the search is exact: it ends at the highest
stored block that the node has as well (`Ancestor`), and finds nothing
only where the node confirms no stored height of the window.
-/

namespace EthIndexer

/-- **A confirmed height**: the head reaches above everything stored, and
the node has the stored block at a height of its window. -/
structure Confirmed (B : BundleMap) (node : Node) (headNumber : UInt64) (headHash : Hash)
    (retainFrom n : UInt64) : Prop where
  retain : retainFrom ≤ n
  head : ∀ k ∈ B, k ≤ headNumber
  block : ∃ b, B.get? n = some b ∧ chainHash node n headNumber headHash = .ok b.block.hash

/-- The hash the loop reads for a height: the tip's own, or the store's
answer. -/
def storedAnswer {σ : Type} (S : IndexStore σ) (st : σ) (storedTip : ChainTip) (number : UInt64) :
    Go Hash :=
  if number = storedTip.number then .ok storedTip.hash else S.canonicalHash number st

/-- **The ancestor the search ends at**: the confirmed block `b` at height
`a`, with every stored block above it read and found to differ. -/
structure Ancestor {σ : Type} (S : IndexStore σ) (st : σ) (tip : BlockBundle) (B : BundleMap)
    (node : Node) (headNumber : UInt64) (headHash : Hash) (retainFrom a : UInt64)
    (b : BlockBundle) : Prop where
  retain : retainFrom ≤ a
  head : tip.block.number ≤ headNumber
  block : B.get? a = some b
  read : storedAnswer S st tip.chainTip a = .ok b.block.hash
  confirmed : chainHash node a headNumber headHash = .ok b.block.hash
  above : ∀ k c, B.get? k = some c → a < k → storedAnswer S st tip.chainTip k = .ok c.block.hash ∧
    ∃ h, chainHash node k headNumber headHash = .ok h ∧ c.block.hash ≠ h

section State

variable {σ : Type} {S : IndexStore σ} {view : σ → BundleMap} {inv : σ → Prop} {st st' : σ}
  {node : Node} {tip : BlockBundle} {headNumber : UInt64} {headHash : Hash} {retainFrom : UInt64}

theorem Ancestor.isConfirmed {B : BundleMap} (htip : IsTip B tip) {a : UInt64} {b : BlockBundle}
    (h : Ancestor S st tip B node headNumber headHash retainFrom a b) :
    Confirmed B node headNumber headHash retainFrom a :=
  ⟨h.retain, fun k hk => UInt64.le_trans (htip.le k hk) h.head, b, h.block, h.confirmed⟩

theorem run_storedHash (storedTip : ChainTip) (number : UInt64) :
    (storedHash storedTip number).run S.handle st =
      (.ok (storedAnswer S st storedTip number), st) := by
  unfold storedHash storedAnswer
  split <;> rfl

/-- A hash that is read is the hash of a stored block. -/
theorem storedAnswer_eq_ok (hS : LawfulStore S view inv) (hst : inv st)
    (htip : IsTip (view st) tip) {number : UInt64} {hash : Hash}
    (h : storedAnswer S st tip.chainTip number = .ok hash) :
    ∃ b, (view st).get? number = some b ∧ b.block.hash = hash := by
  unfold storedAnswer at h
  split at h
  · rename_i heq
    cases h
    exact ⟨tip, heq ▸ htip.get?, rfl⟩
  · exact hS.hash hst h

/-! ## The body of the loop -/

/-- What the body of the loop says of the state it reads. -/
theorem run_probe_eq_ok (hS : LawfulStore S view inv) (hst : inv st) (htip : IsTip (view st) tip)
    {number : UInt64} {r : Probe}
    (h : (probe node tip.chainTip headNumber headHash number).run S.handle st =
      (.ok r, st')) :
    st' = st ∧ match r with
      | .missing => number ∉ view st
      | .found a => ∃ b, a = ⟨number, b.block.hash⟩ ∧ (view st).get? number = some b ∧
          storedAnswer S st tip.chainTip number = .ok b.block.hash ∧
          chainHash node number headNumber headHash = .ok b.block.hash
      | .differs => ∃ b h, (view st).get? number = some b ∧
          storedAnswer S st tip.chainTip number = .ok b.block.hash ∧
          chainHash node number headNumber headHash = .ok h ∧ b.block.hash ≠ h := by
  simp only [probe, Session.run_bind_eq_ok_iff, run_storedHash, Prod.mk.injEq, Except.ok.injEq] at h
  obtain ⟨answer, _, ⟨hanswer, rfl⟩, h⟩ := h
  cases answer with
  | error err =>
    dsimp only at h
    split at h
    · rename_i hnot
      cases h
      refine ⟨rfl, ?_⟩
      unfold storedAnswer at hanswer
      split at hanswer
      · cases hanswer
      · exact hS.hash_notFound hst hanswer hnot
    · cases h
  | ok hash =>
    obtain ⟨b, hb, rfl⟩ := storedAnswer_eq_ok hS hst htip hanswer
    simp only [Session.run_bind_eq_ok_iff, Session.run_lift, Prod.mk.injEq] at h
    obtain ⟨chain, _, ⟨hchain, rfl⟩, h⟩ := h
    split at h
    · rename_i heq
      cases h
      exact ⟨rfl, b, rfl, hb, hanswer, heq ▸ hchain⟩
    · rename_i hne
      cases h
      exact ⟨rfl, b, chain, hb, hanswer, hchain, hne⟩

/-- The body of the loop where both hashes are read. -/
theorem run_probe {number : UInt64} {stored chain : Hash}
    (hstored : storedAnswer S st tip.chainTip number = .ok stored)
    (hchain : chainHash node number headNumber headHash = .ok chain) :
    (probe node tip.chainTip headNumber headHash number).run S.handle st =
      (.ok (if stored = chain then .found ⟨number, stored⟩ else .differs), st) := by
  rw [probe, Session.run_bind, run_storedHash, hstored]
  dsimp only
  rw [Session.run_bind, Session.run_lift, hchain]
  dsimp only
  split <;> rfl

/-! ## The loop -/

/-- **What the search finds**: an ancestor, or that no stored height down
to `retainFrom` is confirmed. -/
theorem run_commonAncestorFrom_eq_ok (hS : LawfulStore S view inv) (hst : inv st)
    (htip : IsTip (view st) tip) (fuel : ℕ) {number : UInt64}
    (hfuel : number.toNat = retainFrom.toNat + fuel) (hnumber : number ≤ tip.block.number)
    {ancestor : Option ChainTip}
    (h : (commonAncestorFrom node tip.chainTip headNumber headHash retainFrom
      fuel number).run S.handle st = (.ok ancestor, st')) :
    st' = st ∧
    (∀ a ∈ ancestor, retainFrom ≤ a.number ∧ a.number ≤ number ∧ ∃ b,
      a.hash = b.block.hash ∧ (view st).get? a.number = some b ∧
        storedAnswer S st tip.chainTip a.number = .ok b.block.hash ∧
        chainHash node a.number headNumber headHash = .ok b.block.hash) ∧
    ∀ k b, (view st).get? k = some b → retainFrom ≤ k → k ≤ number →
      (∀ a ∈ ancestor, a.number < k) → storedAnswer S st tip.chainTip k = .ok b.block.hash ∧
        ∃ h, chainHash node k headNumber headHash = .ok h ∧ b.block.hash ≠ h := by
  induction fuel using Nat.strongRecOn generalizing number with
  | _ fuel ih =>
    have hretain : retainFrom ≤ number := UInt64.le_iff_toNat_le.2 (by omega)
    unfold commonAncestorFrom at h
    rw [Session.run_bind_eq_ok_iff] at h
    obtain ⟨r, s', hr, h⟩ := h
    obtain ⟨rfl, hr⟩ := run_probe_eq_ok hS hst htip hr
    cases r with
    | missing =>
      cases h
      refine ⟨rfl, fun _ ha => absurd ha (Option.not_mem_none _), fun k b hb h1 h2 _ => ?_⟩
      -- the window is one interval, so nothing is stored below a gap
      exact absurd ((hS.canonical hst).interval (GoMap.mem_of_get? hb)
        (GoMap.mem_of_get? htip.get?) h2 hnumber) hr
    | found a =>
      cases h
      obtain ⟨b, rfl, hb, hread, hchain⟩ := hr
      refine ⟨rfl, ?_, fun k c _ _ hk ha => ?_⟩
      · rintro a' ⟨⟩
        exact ⟨hretain, UInt64.le_refl _, b, rfl, hb, hread, hchain⟩
      · exact absurd (ha _ rfl) (UInt64.not_lt.2 hk)
    | differs =>
      obtain ⟨b, hash, hb, hread, hchain, hne⟩ := hr
      have hhere : ∀ c, (view s').get? number = some c →
          storedAnswer S s' tip.chainTip number = .ok c.block.hash ∧
            ∃ h, chainHash node number headNumber headHash = .ok h ∧ c.block.hash ≠ h := by
        intro c hc
        rw [hb] at hc
        cases hc
        exact ⟨hread, hash, hchain, hne⟩
      dsimp only at h
      split at h
      · rename_i heq
        subst heq
        cases h
        refine ⟨rfl, fun _ ha => absurd ha (Option.not_mem_none _), fun k c hc h1 h2 _ => ?_⟩
        obtain rfl := UInt64.le_antisymm h2 h1
        exact hhere c hc
      · rename_i hneq
        have hlt : retainFrom < number := by grind
        have hpred := toNat_pred_of_lt hlt
        rw [UInt64.lt_iff_toNat_lt] at hlt
        have hle : number - 1 ≤ number := UInt64.le_iff_toNat_le.2 (by omega)
        cases fuel with
        | zero => omega
        | succ fuel =>
          obtain ⟨rfl, hsound, habove⟩ :=
            ih fuel (by omega) (by omega) (UInt64.le_trans hle hnumber) h
          refine ⟨rfl, fun a ha => ?_, fun k c hc h1 h2 hn => ?_⟩
          · obtain ⟨h1, h2, h3⟩ := hsound a ha
            exact ⟨h1, UInt64.le_trans h2 hle, h3⟩
          · by_cases hk : k = number
            · subst hk
              exact hhere c hc
            · refine habove k c hc h1 (UInt64.le_iff_toNat_le.2 ?_) hn
              have hknat : k.toNat ≠ number.toNat := fun heq => hk (UInt64.toNat_inj.1 heq)
              rw [UInt64.le_iff_toNat_le] at h2
              omega

/-- The search from the tip. -/
theorem run_commonAncestor_eq_ok (hS : LawfulStore S view inv) (hst : inv st)
    (htip : IsTip (view st) tip) (hretain : retainFrom ≤ tip.block.number)
    (hhead : tip.block.number ≤ headNumber) {ancestor : Option ChainTip}
    (h : (commonAncestor node tip.chainTip headNumber headHash retainFrom).run S.handle st =
      (.ok ancestor, st')) :
    st' = st ∧
    (∀ a ∈ ancestor, retainFrom ≤ a.number ∧ ∃ b, a.hash = b.block.hash ∧
      (view st).get? a.number = some b ∧
        storedAnswer S st tip.chainTip a.number = .ok b.block.hash ∧
        chainHash node a.number headNumber headHash = .ok b.block.hash) ∧
    ∀ k b, (view st).get? k = some b → retainFrom ≤ k → (∀ a ∈ ancestor, a.number < k) →
      storedAnswer S st tip.chainTip k = .ok b.block.hash ∧
        ∃ h, chainHash node k headNumber headHash = .ok h ∧ b.block.hash ≠ h := by
  have hsub := UInt64.toNat_sub_of_le _ _ hretain
  have hle := UInt64.le_iff_toNat_le.1 hretain
  rw [commonAncestor, show min tip.chainTip.number headNumber = tip.block.number from
    min_eq_of_le hhead] at h
  obtain ⟨rfl, hsound, habove⟩ := run_commonAncestorFrom_eq_ok hS hst htip _
    (by rw [hsub]; omega) (UInt64.le_refl _) h
  refine ⟨rfl, fun a ha => ⟨(hsound a ha).1, (hsound a ha).2.2⟩, fun k b hb hk => ?_⟩
  exact habove k b hb hk (htip.le k (GoMap.mem_of_get? hb))

/-- The search comes down to an ancestor through the blocks above it. -/
theorem run_commonAncestorFrom_of_ancestor {B : BundleMap} (hB : Canonical B) (htip : IsTip B tip)
    {a : UInt64} {b : BlockBundle}
    (ha : Ancestor S st tip B node headNumber headHash retainFrom a b) (fuel : ℕ)
    {number : UInt64} (hfuel : number.toNat = retainFrom.toNat + fuel) (han : a ≤ number)
    (hnumber : number ≤ tip.block.number) :
    (commonAncestorFrom node tip.chainTip headNumber headHash retainFrom
      fuel number).run S.handle st = (.ok (some ⟨a, b.block.hash⟩), st) := by
  induction fuel using Nat.strongRecOn generalizing number with
  | _ fuel ih =>
    unfold commonAncestorFrom
    by_cases heq : number = a
    · subst heq
      rw [Session.run_bind, run_probe ha.read ha.confirmed, if_pos rfl]
      rfl
    · have hlt : a < number := by grind
      obtain ⟨c, hc⟩ := GoMap.mem_iff_get?.1 (hB.interval (GoMap.mem_of_get? ha.block)
        (GoMap.mem_of_get? htip.get?) han hnumber)
      obtain ⟨hread, h, hchain, hne⟩ := ha.above number c hc hlt
      have hneq : number ≠ retainFrom := fun heq => by
        have := ha.retain
        grind
      rw [Session.run_bind, run_probe hread hchain, if_neg hne]
      dsimp only
      rw [if_neg hneq]
      have hpred := toNat_pred_of_lt hlt
      have hretain := UInt64.le_iff_toNat_le.1 ha.retain
      rw [UInt64.lt_iff_toNat_lt] at hlt
      rw [UInt64.le_iff_toNat_le] at hnumber
      cases fuel with
      | zero => omega
      | succ fuel =>
        exact ih fuel (by omega) (by omega) (UInt64.le_iff_toNat_le.2 (by omega))
          (UInt64.le_iff_toNat_le.2 (by omega))

/-! ## The plan -/

/-- How a plan is made of a state: from the tip alone, or by a search. -/
theorem run_replacementStart_cases (hS : LawfulStore S view inv) (hst : inv st)
    {storedTip : Option ChainTip} (hread : S.canonicalTip st = .ok storedTip)
    {plan : ReplacementPlan}
    (h : (replacementStart node storedTip headNumber headHash retainFrom).run S.handle st =
      (.ok plan, st')) :
    st' = st ∧
    ((view st = ∅ ∧ plan = ⟨retainFrom, .initialLoad, none⟩) ∨
      ∃ tip, IsTip (view st) tip ∧
        (((headNumber < tip.block.number ∨ tip.block.number < retainFrom) ∧
            plan = ⟨retainFrom, .fullReload, none⟩) ∨
          (retainFrom ≤ tip.block.number ∧ tip.block.number ≤ headNumber ∧
            ((tip.block.number = headNumber ∧ tip.block.hash = headHash ∧
                headNumber ≠ maxUint64 ∧ plan = ⟨headNumber + 1, .current, none⟩) ∨
              ∃ ancestor, (commonAncestor node tip.chainTip headNumber headHash retainFrom).run
                  S.handle st = (.ok ancestor, st) ∧
                ancestorPlan tip.chainTip retainFrom ancestor = .ok plan)))) := by
  rcases hS.tip hst hread with ⟨rfl, hempty⟩ | ⟨tip, htip, rfl⟩
  · cases h
    exact ⟨rfl, Or.inl ⟨hempty, rfl⟩⟩
  · unfold replacementStart at h
    dsimp only at h
    split at h
    · rename_i hout
      cases h
      exact ⟨rfl, Or.inr ⟨tip, htip, Or.inl ⟨hout, rfl⟩⟩⟩
    · rename_i hin
      simp only [gt_iff_lt, not_or, UInt64.not_lt] at hin
      split at h
      · rename_i hcurrent
        split at h
        · cases h
        · rename_i hmax
          cases h
          exact ⟨rfl, Or.inr ⟨tip, htip, Or.inr ⟨hin.2, hin.1,
            Or.inl ⟨hcurrent.1, hcurrent.2, hmax, rfl⟩⟩⟩⟩
      · rw [Session.run_bind_eq_ok_iff] at h
        obtain ⟨ancestor, s', hsearch, hplan⟩ := h
        rw [Session.run_lift, Prod.mk.injEq] at hplan
        obtain ⟨hplan, rfl⟩ := hplan
        obtain ⟨rfl, -⟩ := run_commonAncestor_eq_ok hS hst htip hin.2 hin.1 hsearch
        exact ⟨rfl, Or.inr ⟨tip, htip, Or.inr ⟨hin.2, hin.1, Or.inr ⟨ancestor, hsearch, hplan⟩⟩⟩⟩

/-- **The plan against one state**: it keeps the window up to an ancestor,
or replaces the whole of it where no height is confirmed. -/
theorem run_replacementStart_eq_ok (hS : LawfulStore S view inv) (hst : inv st)
    {storedTip : Option ChainTip} (hread : S.canonicalTip st = .ok storedTip)
    {plan : ReplacementPlan}
    (h : (replacementStart node storedTip headNumber headHash retainFrom).run S.handle st =
      (.ok plan, st')) :
    st' = st ∧
    ((plan.replaceFrom = retainFrom ∧
        ∀ n, ¬ Confirmed (view st) node headNumber headHash retainFrom n) ∨
      ∃ tip a b, IsTip (view st) tip ∧
        Ancestor S st tip (view st) node headNumber headHash retainFrom a b ∧
        plan.replaceFrom.toNat = a.toNat + 1) := by
  obtain ⟨rfl, ⟨hempty, rfl⟩ | ⟨tip, htip, hcases⟩⟩ := run_replacementStart_cases hS hst hread h
  · refine ⟨rfl, Or.inl ⟨rfl, ?_⟩⟩
    rintro n ⟨-, -, b, hb, -⟩
    rw [hempty] at hb
    simp at hb
  · have hmem := GoMap.mem_of_get? htip.get?
    rcases hcases with ⟨hout, rfl⟩ | ⟨hretain, hhead, ⟨heq, hhash, hmax, rfl⟩ |
      ⟨ancestor, hsearch, hplan⟩⟩
    · refine ⟨rfl, Or.inl ⟨rfl, ?_⟩⟩
      rintro n ⟨hretain, hhead, b, hb, -⟩
      rcases hout with hout | hout
      · exact absurd hout (UInt64.not_lt.2 (hhead _ hmem))
      · exact absurd hout (UInt64.not_lt.2 (UInt64.le_trans hretain
          (htip.le n (GoMap.mem_of_get? hb))))
    · refine ⟨rfl, Or.inr ⟨tip, headNumber, tip, htip, ⟨heq ▸ hretain, hhead, heq ▸ htip.get?,
        if_pos heq.symm, ?_, fun k c hc hk => ?_⟩, toNat_succ_of_ne hmax⟩⟩
      · rw [chainHash, if_pos rfl, hhash]
      · exact absurd hk (UInt64.not_lt.2 (heq ▸ htip.le k (GoMap.mem_of_get? hc)))
    · obtain ⟨-, hsound, habove⟩ := run_commonAncestor_eq_ok hS hst htip hretain hhead hsearch
      refine ⟨rfl, ?_⟩
      rcases ancestorPlan_cases hplan with ⟨rfl, heq⟩ | ⟨a, rfl, hmax, heq⟩
      · refine Or.inl ⟨heq, ?_⟩
        rintro n ⟨hretain, -, b, hb, hchain⟩
        obtain ⟨-, h, hchain', hne⟩ := habove n b hb hretain
          fun _ ha => absurd ha (Option.not_mem_none _)
        rw [hchain, Except.ok.injEq] at hchain'
        exact hne hchain'
      · obtain ⟨h1, b, -, hb, hread, hchain⟩ := hsound a rfl
        refine Or.inr ⟨tip, a.number, b, htip, ⟨h1, hhead, hb, hread, hchain, fun k c hc hk => ?_⟩,
          by rw [heq, toNat_succ_of_ne hmax]⟩
        refine habove k c hc (UInt64.le_trans h1 (UInt64.le_of_lt hk)) ?_
        rintro a' ⟨⟩
        exact hk

/-- In particular it keeps the window up to a confirmed height. -/
theorem confirmed_of_run_replacementStart (hS : LawfulStore S view inv) (hst : inv st)
    {storedTip : Option ChainTip} (hread : S.canonicalTip st = .ok storedTip)
    {plan : ReplacementPlan}
    (h : (replacementStart node storedTip headNumber headHash retainFrom).run S.handle st =
      (.ok plan, st')) :
    (plan.replaceFrom = retainFrom ∧
        ∀ n, ¬ Confirmed (view st) node headNumber headHash retainFrom n) ∨
      ∃ n, Confirmed (view st) node headNumber headHash retainFrom n ∧
        plan.replaceFrom.toNat = n.toNat + 1 := by
  rcases (run_replacementStart_eq_ok hS hst hread h).2 with hnone | ⟨tip, a, b, htip, ha, heq⟩
  · exact Or.inl hnone
  · exact Or.inr ⟨a, ha.isConfirmed htip, heq⟩

/-- A plan with an ancestor below the head starts right above it. -/
theorem run_replacementStart_of_ancestor {B : BundleMap} (hB : Canonical B) (htip : IsTip B tip)
    {a : UInt64} {b : BlockBundle}
    (ha : Ancestor S st tip B node headNumber headHash retainFrom a b) (hlt : a < headNumber) :
    ∃ plan, (replacementStart node (some tip.chainTip) headNumber headHash
      retainFrom).run S.handle st = (.ok plan, st) ∧ plan.replaceFrom = a + 1 := by
  have hat := htip.le a (GoMap.mem_of_get? ha.block)
  have hretain := UInt64.le_trans ha.retain hat
  unfold replacementStart
  dsimp only
  rw [if_neg (by rw [not_or]; exact ⟨UInt64.not_lt.2 ha.head, UInt64.not_lt.2 hretain⟩), if_neg]
  · have hsub := UInt64.toNat_sub_of_le _ _ hretain
    have hle := UInt64.le_iff_toNat_le.1 hretain
    have hmax : a ≠ maxUint64 := fun heq => by
      have := UInt64.lt_iff_toNat_lt.1 hlt
      have := headNumber.toNat_lt
      rw [heq] at hlt
      simp [maxUint64, UInt64.lt_iff_toNat_lt] at hlt
      omega
    rw [commonAncestor, min_eq_of_le ha.head, Session.run_bind,
      run_commonAncestorFrom_of_ancestor hB htip ha _ (by rw [hsub]; omega) hat (UInt64.le_refl _)]
    simp only [Session.run_lift, ancestorPlan, if_neg hmax]
    split <;> exact ⟨_, rfl, rfl⟩
  · -- the tip is not the head: above the ancestor every stored block differs
    rintro ⟨heq, hhash⟩
    obtain ⟨-, h, hchain, hne⟩ := ha.above tip.block.number tip htip.get? (heq ▸ hlt)
    rw [chainHash, if_pos heq, Except.ok.injEq] at hchain
    exact hne (hhash.trans hchain)

end State

end EthIndexer
