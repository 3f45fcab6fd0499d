import Mathlib.Algebra.BigOperators.Group.Finset.Piecewise
import Mathlib.Data.Fintype.Basic
import Mathlib.Logic.Relation
/-!
# Runs of a step relation

What every step keeps holds in every state a run comes to, and a measure
that every step lowers bounds the length of every run. For a system of
several parties the measure is a sum over them, of which a step changes
one term.
-/

namespace EthIndexer

namespace Steps

open Relation Function

variable {σ : Type} {step : σ → σ → Prop}

/-- **The rule of invariants.** -/
theorem invariant {I : σ → Prop} {s₀ s : σ} (h : ReflTransGen step s₀ s) (hinit : I s₀)
    (hstep : ∀ {s s'}, I s → step s s' → I s') : I s := by
  induction h with
  | refl => exact hinit
  | tail _ hlast ih => exact hstep ih hlast

/-- Every step lowers the measure. -/
def Lowers (step : σ → σ → Prop) (μ : σ → ℕ) : Prop := ∀ ⦃s s'⦄, step s s' → μ s' < μ s

variable {μ : σ → ℕ} {run : ℕ → σ}

/-- **The length of a run is bounded** by the measure where it begins. -/
theorem Lowers.length_le (hμ : Lowers step μ) {n : ℕ}
    (hrun : ∀ i < n, step (run i) (run (i + 1))) : n ≤ μ (run 0) := by
  have hsum : ∀ i ≤ n, i + μ (run i) ≤ μ (run 0) := by
    intro i
    induction i with
    | zero => intro _; omega
    | succ i ih =>
      intro hi
      have hlt := hμ (hrun i (by omega))
      have hle := ih (by omega)
      omega
  have hlast := hsum n (le_refl n)
  omega

/-- A step of one party changes one term of a sum over the parties. -/
theorem sum_update_add {ι W : Type} [Fintype ι] [DecidableEq ι] (weight : W → ℕ) (f : ι → W)
    (i : ι) (b : W) :
    ∑ j, weight (update f i b j) + weight (f i) = ∑ j, weight (f j) + weight b := by
  have hcomp : ∀ j, weight (update f i b j) = update (fun j => weight (f j)) i (weight b) j :=
    fun j => apply_update (fun _ => weight) f i b j
  rw [Finset.sum_congr rfl fun j _ => hcomp j, Finset.sum_update_of_mem (Finset.mem_univ i),
    Finset.sum_eq_sum_sdiff_singleton_add (Finset.mem_univ i) fun j => weight (f j)]
  omega

end Steps

end EthIndexer
