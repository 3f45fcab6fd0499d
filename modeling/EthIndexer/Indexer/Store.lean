import EthIndexer.Indexer.Model.Syncer
import EthIndexer.Store.Memory
/-!
# What a synchronization may rely on

`LawfulStore` says what the calls of an index store mean in terms of one
map of bundles, the store's `view`: the tip is the highest block of the
map, a hash is the hash of a block in it, and an update that succeeds is
`BundleMap.replace` up to changes no chain check sees. The in-memory store
is one. What follows from a successful call is proved from the laws alone,
so it holds of every store that has them.
-/

namespace EthIndexer

/-- The calls that change nothing. -/
def Request.IsRead : Request → Prop
  | .applyCanonicalUpdate _ => False
  | _ => True

/-- **The laws of an index store** whose states `view` shows as a map, as
long as `inv` holds of them. -/
structure LawfulStore {σ : Type} (S : IndexStore σ) (view : σ → BundleMap) (inv : σ → Prop) :
    Prop where
  canonical : ∀ {s}, inv s → Canonical (view s)
  tip : ∀ {s tip}, inv s → S.canonicalTip s = .ok tip →
    (tip = none ∧ view s = ∅) ∨
      ∃ b, IsTip (view s) b ∧ tip = some b.chainTip
  hash : ∀ {s n h}, inv s → S.canonicalHash n s = .ok h →
    ∃ b, (view s).get? n = some b ∧ b.block.hash = h
  hash_notFound : ∀ {s n err}, inv s → S.canonicalHash n s = .error err → err.Is .notFound →
    n ∉ view s
  apply_ok : ∀ {s s' u}, inv s → S.applyCanonicalUpdate u s = (.ok (), s') →
    inv s' ∧ ∃ f, KeepsChain f ∧ ∀ n, (view s').get? n = (((view s).replace u).get? n).map f
  apply_error : ∀ {s s' u err}, S.applyCanonicalUpdate u s = (.error err, s') → s' = s

/-- What the calls of one synchronization meet at the in-memory store. No
call is made twice, so it is a function of the call. -/
structure MemoryEnv where
  ctx : Request → Context
  order : Request → RangeOrder UInt64 BlockBundle

/-- The in-memory store as the syncer sees it. -/
def Memory.indexStore (e : MemoryEnv) : IndexStore Memory where
  canonicalTip m := m.canonicalTip (e.order .canonicalTip) (e.ctx .canonicalTip)
  canonicalHash number m := m.canonicalHash (e.ctx (.canonicalHash number)) number
  applyCanonicalUpdate update m :=
    m.applyCanonicalUpdate (e.order (.applyCanonicalUpdate update))
      (e.ctx (.applyCanonicalUpdate update)) update

/-- Calls that meet no trouble at the store. -/
def MemoryEnv.calm : MemoryEnv where
  ctx _ := none
  order _ := ascending BlockBundle

/-- `SyncOnce` on the in-memory store: the answer and the store it
leaves. -/
def Syncer.syncMemory (s : Syncer) (env : Env) (e : MemoryEnv) (m : Memory) :
    Go SyncResult × Memory :=
  (s.syncOnce env).run (Memory.indexStore e).handle m

/-- The in-memory stores that calls of one syncer, successful or not,
reach from an empty one. The nodes behind the calls are arbitrary. -/
inductive SyncReachable (s : Syncer) : Memory → Prop
  | new : SyncReachable s Memory.new
  | sync {m : Memory} (env : Env) (e : MemoryEnv) (h : SyncReachable s m) :
      SyncReachable s (s.syncMemory env e m).2

theorem Memory.canonicalHash_eq_ok_iff {ctx : Context} {m : Memory} {n : UInt64} {h : Hash} :
    m.canonicalHash ctx n = .ok h ↔ ctx = none ∧ ∃ b, m.bundles.get? n = some b ∧
      b.block.hash = h := by
  unfold Memory.canonicalHash
  cases ctx with
  | some err => simp
  | none => cases m.bundles.get? n <;> simp

/-- An update that succeeds leaves copies of the blocks it makes up. -/
theorem Memory.get?_of_applyCanonicalUpdate {e : MemoryEnv} {m m' : Memory} {u : CanonicalUpdate}
    (h : (Memory.indexStore e).applyCanonicalUpdate u m = (.ok (), m')) (n : UInt64) :
    m'.bundles.get? n = ((m.bundles.replace u).get? n).map cloneBundle := by
  rcases Memory.applyCanonicalUpdate_cases (e.order (.applyCanonicalUpdate u))
    (e.ctx (.applyCanonicalUpdate u)) m u with ⟨hacc, heq⟩ | ⟨f, heq⟩
  · cases heq.symm.trans h
    exact Memory.get?_candidate hacc.consecutive n
  · cases heq.symm.trans h

theorem Memory.lawful (e : MemoryEnv) :
    LawfulStore (Memory.indexStore e) Memory.bundles Memory.Invariant where
  canonical h := h.canonical
  tip {m tip} hm htip := by
    simp only [indexStore] at htip
    cases hctx : e.ctx .canonicalTip with
    | some err =>
      rw [hctx] at htip
      cases htip
    | none =>
      rw [hctx] at htip
      rcases Memory.canonicalTip_cases (e.order .canonicalTip) hm.canonical with
        ⟨hempty, heq⟩ | ⟨b, hb, heq⟩
      · rw [heq] at htip
        cases htip
        exact Or.inl ⟨rfl, hempty⟩
      · rw [heq] at htip
        cases htip
        exact Or.inr ⟨b, hb, rfl⟩
  hash _ hh := (Memory.canonicalHash_eq_ok_iff.1 hh).2
  hash_notFound {m n err} _ hh hnot := by
    simp only [indexStore, canonicalHash] at hh
    cases hctx : e.ctx (.canonicalHash n) with
    | some err =>
      rw [hctx] at hh
      cases hh
      simp [Fault.Is] at hnot
    | none =>
      rw [hctx] at hh
      cases hget : m.bundles.get? n with
      | none => exact GoMap.get?_eq_none_iff.1 hget
      | some b =>
        rw [hget] at hh
        cases hh
  apply_ok {m m' u} _ happ := by
    rcases Memory.applyCanonicalUpdate_cases (e.order (.applyCanonicalUpdate u))
      (e.ctx (.applyCanonicalUpdate u)) m u with ⟨hacc, heq⟩ | ⟨f, heq⟩
    · have hget := Memory.get?_of_applyCanonicalUpdate happ
      cases heq.symm.trans happ
      exact ⟨hacc.invariant, cloneBundle, keepsChain_cloneBundle, hget⟩
    · cases heq.symm.trans happ
  apply_error {m m' u err} happ := by
    rcases Memory.applyCanonicalUpdate_cases (e.order (.applyCanonicalUpdate u))
      (e.ctx (.applyCanonicalUpdate u)) m u with ⟨hacc, heq⟩ | ⟨f, heq⟩
    · cases heq.symm.trans happ
    · cases heq.symm.trans happ
      rfl

end EthIndexer
