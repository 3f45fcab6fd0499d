import Mathlib.Data.List.Sort
/-!
# Sorting a slice by a comparison

`sort.Slice` orders a slice by a `less` function and promises nothing
about elements that compare equal. Where `less` compares by a key and the
keys are distinct there are none, so the result is the one arrangement in
strictly increasing order: `sortSlice_eq_of_perm` and
`eq_sortSlice_of_pairwise` say that nothing else can come out, from any
order of the input and by any algorithm.
-/

namespace EthIndexer

variable {α β κ : Type}

/-- `sort.Slice(l, less)`. -/
def sortSlice (less : α → α → Bool) (l : List α) : List α :=
  l.insertionSort fun a b => less b a = false

/-- `less` compares by a key. -/
def ComparesBy [LT κ] (less : α → α → Bool) (key : α → κ) : Prop :=
  ∀ a b, less a b = true ↔ key a < key b

theorem perm_sortSlice (less : α → α → Bool) (l : List α) : (sortSlice less l).Perm l :=
  List.perm_insertionSort _ l

@[simp] theorem mem_sortSlice {less : α → α → Bool} {l : List α} {a : α} :
    a ∈ sortSlice less l ↔ a ∈ l :=
  (perm_sortSlice less l).mem_iff

/-- A change that the comparison does not see can be made before or after
sorting. -/
theorem sortSlice_map {less : α → α → Bool} {less' : β → β → Bool} (f : α → β)
    (h : ∀ a b, less' (f a) (f b) = less a b) (l : List α) :
    sortSlice less' (l.map f) = (sortSlice less l).map f :=
  (List.map_insertionSort _ _ f l fun a _ b _ => by rw [h]).symm

variable [LinearOrder κ] {less : α → α → Bool} {key : α → κ}

theorem ComparesBy.eq_false_iff (h : ComparesBy less key) (a b : α) :
    less b a = false ↔ key a ≤ key b := by
  rw [← not_lt, ← h b a, Bool.not_eq_true]

/-- The result is in order. -/
theorem pairwise_sortSlice (h : ComparesBy less key) (l : List α) :
    (sortSlice less l).Pairwise fun a b => key a ≤ key b := by
  have htrans : IsTrans α fun a b => less b a = false := ⟨fun a b c hab hbc => by
    rw [h.eq_false_iff] at hab hbc ⊢
    exact hab.trans hbc⟩
  have htotal : Std.Total fun a b : α => less b a = false := ⟨fun a b => by
    rw [h.eq_false_iff, h.eq_false_iff]
    exact le_total _ _⟩
  refine (List.pairwise_insertionSort (fun a b => less b a = false) l).imp ?_
  exact fun {a b} hab => (h.eq_false_iff a b).1 hab

/-- Under distinct keys it is strictly in order. -/
theorem pairwise_lt_sortSlice (h : ComparesBy less key) {l : List α} (hl : (l.map key).Nodup) :
    (sortSlice less l).Pairwise fun a b => key a < key b := by
  have hne : (sortSlice less l).Pairwise fun a b => key a ≠ key b :=
    List.pairwise_map.1 (((perm_sortSlice less l).map key).nodup_iff.2 hl)
  exact ((pairwise_sortSlice h l).and hne).imp fun hab => lt_of_le_of_ne hab.1 hab.2

/-- **The strictly ordered arrangement is unique.** -/
theorem eq_of_perm_of_pairwise_lt {l l' : List α} (hp : l.Perm l')
    (hl : l.Pairwise fun a b => key a < key b) (hl' : l'.Pairwise fun a b => key a < key b) :
    l = l' :=
  hp.eq_of_pairwise (fun _ _ _ _ hab hba => absurd hab (lt_asymm hba)) hl hl'

/-- So any strictly ordered arrangement of the slice is what sorting it
gives. -/
theorem eq_sortSlice_of_pairwise (h : ComparesBy less key) {l l' : List α} (hp : l'.Perm l)
    (hl' : l'.Pairwise fun a b => key a < key b) : l' = sortSlice less l := by
  have hnodup : (l.map key).Nodup :=
    (hp.map key).nodup_iff.1 (List.pairwise_map.2 (hl'.imp fun hab => ne_of_lt hab))
  exact eq_of_perm_of_pairwise_lt (hp.trans (perm_sortSlice less l).symm) hl'
    (pairwise_lt_sortSlice h hnodup)

/-- And the order of the input does not matter. -/
theorem sortSlice_eq_of_perm (h : ComparesBy less key) {l l' : List α} (hp : l.Perm l')
    (hl : (l.map key).Nodup) : sortSlice less l = sortSlice less l' :=
  eq_sortSlice_of_pairwise h ((perm_sortSlice less l).trans hp) (pairwise_lt_sortSlice h hl)

/-- Sorting twice is sorting once. -/
theorem sortSlice_sortSlice (h : ComparesBy less key) (l : List α) :
    sortSlice less (sortSlice less l) = sortSlice less l :=
  ((pairwise_sortSlice h l).imp fun hab => (h.eq_false_iff _ _).2 hab).insertionSort_eq

end EthIndexer
