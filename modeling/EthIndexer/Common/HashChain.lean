import Mathlib.Data.Set.Function
/-!
# Windows of a hash-linked chain

A window holds at most one block per height, and each block names the one
below by its hash. What is held at a height is a partial function, so two
windows over the same heights can be compared block by block.

The result is the descent: where a hash determines a block's content, two
linked windows that hold the same hash at one height hold the same blocks
at every height below it that both reach (`agree_below`). Nothing below
the meeting point has to be compared.
-/

namespace EthIndexer

/-- **Heights**: a type whose values are numbered from `0` without a
gap. -/
class Heights (ι : Type) where
  /-- The number of a height. -/
  rank : ι → ℕ
  rank_injective : Function.Injective rank
  exists_rank : ∀ (i : ι) (n : ℕ), n ≤ rank i → ∃ j, rank j = n

namespace HashChain

open Heights

variable {ι β H δ : Type} [Heights ι]

/-- No height between two held ones is empty. -/
def Connected (w : ι → Option β) : Prop :=
  ∀ ⦃i j k : ι⦄, (w i).isSome → (w j).isSome → rank i ≤ rank k → rank k ≤ rank j → (w k).isSome

/-- Each block names the held block one height below it. -/
def Linked (hash parent : β → H) (w : ι → Option β) : Prop :=
  ∀ ⦃i j : ι⦄ ⦃b c : β⦄, rank j = rank i + 1 → w i = some b → w j = some c → parent c = hash b

/-- Between two windows, a hash determines a block's content. -/
def Determined (hash : β → H) (data : β → δ) (w w' : ι → Option β) : Prop :=
  ∀ ⦃i j : ι⦄ ⦃b c : β⦄, w i = some b → w' j = some c → hash b = hash c → data b = data c

variable {hash parent : β → H} {data : β → δ} {w w' : ι → Option β}

theorem Connected.map {γ : Type} (h : Connected w) (g : β → γ) :
    Connected fun i => (w i).map g := by
  intro i j k hi hj
  rw [Option.isSome_map] at hi hj ⊢
  exact h hi hj

theorem Linked.map {γ : Type} {hash' parent' : γ → H} (h : Linked hash parent w) {g : β → γ}
    (hhash : ∀ b, hash' (g b) = hash b) (hparent : ∀ b, parent' (g b) = parent b) :
    Linked hash' parent' fun i => (w i).map g := by
  intro i j b' c' hij hb' hc'
  obtain ⟨b, hb, rfl⟩ := Option.map_eq_some_iff.1 hb'
  obtain ⟨c, hc, rfl⟩ := Option.map_eq_some_iff.1 hc'
  rw [hhash, hparent]
  exact h hij hb hc

/-- **The descent.** Two linked windows that hold the same hash at `k`
hold the same content at every height below `k` that both reach. -/
theorem agree_below (hparent : ∀ b c, data b = data c → parent b = parent c)
    (hw : Connected w) (hw' : Connected w') (hl : Linked hash parent w)
    (hl' : Linked hash parent w') (hdet : Determined hash data w w')
    {k : ι} {b c : β} (hb : w k = some b) (hc : w' k = some c) (hbc : hash b = hash c)
    {i : ι} {b' c' : β} (hi : rank i ≤ rank k) (hb' : w i = some b') (hc' : w' i = some c') :
    hash b' = hash c' ∧ data b' = data c' := by
  -- induction on the distance below the meeting point
  have key : ∀ d (i : ι) (b' c' : β), rank i + d = rank k → w i = some b' → w' i = some c' →
      hash b' = hash c' := by
    intro d
    induction d with
    | zero =>
      intro i b' c' hd hb' hc'
      obtain rfl : i = k := rank_injective (by omega)
      rw [hb] at hb'
      rw [hc] at hc'
      rw [← Option.some.inj hb', ← Option.some.inj hc', hbc]
    | succ d ih =>
      intro i b' c' hd hb' hc'
      obtain ⟨j, hj⟩ := exists_rank k (rank i + 1) (by omega)
      have hwj : (w j).isSome :=
        hw (i := i) (j := k) (by rw [hb']; rfl) (by rw [hb]; rfl) (by omega) (by omega)
      have hwj' : (w' j).isSome :=
        hw' (i := i) (j := k) (by rw [hc']; rfl) (by rw [hc]; rfl) (by omega) (by omega)
      obtain ⟨x, hx⟩ := Option.isSome_iff_exists.1 hwj
      obtain ⟨y, hy⟩ := Option.isSome_iff_exists.1 hwj'
      have hxy : data x = data y := hdet hx hy (ih j x y (by omega) hx hy)
      rw [← hl hj hb' hx, ← hl' hj hc' hy, hparent x y hxy]
  have hhash : hash b' = hash c' := key (rank k - rank i) i b' c' (by omega) hb' hc'
  exact ⟨hhash, hdet hb' hc' hhash⟩

end HashChain

end EthIndexer
