import Mathlib.Data.Finmap
import Mathlib.Data.List.Sort
/-!
# Maps with an unspecified iteration order

A Go map is a finite partial function, and `range` visits its keys in an
order the language leaves open. The map is Mathlib's `Finmap`, so two
maps are equal when they look up alike. The order is a separate object,
`RangeOrder`: what `range` visits, for every map. A function that ranges
over a map takes one, and a result about every order is a result about
every `RangeOrder`.

The two loops a program writes over a map are here too: deleting the keys
that meet a test while ranging, and storing a list of values one after
the other.
-/

namespace EthIndexer

variable {K V : Type}

/-- A map `map[K]V`. -/
abbrev GoMap (K V : Type) := Finmap fun _ : K => V

namespace GoMap

variable [DecidableEq K]

/-- `value, found := m[k]`. -/
def get? (m : GoMap K V) (k : K) : Option V := Finmap.lookup k m

/-- `m[k]`, the zero value where the key is absent. -/
def get [Inhabited V] (m : GoMap K V) (k : K) : V := (m.get? k).getD default

/-- `m[k] = v`. -/
def set (m : GoMap K V) (k : K) (v : V) : GoMap K V := Finmap.insert (β := fun _ => V) k v m

/-- `delete(m, k)`. -/
def delete (m : GoMap K V) (k : K) : GoMap K V := Finmap.erase k m

@[simp] theorem get?_empty (k : K) : get? (∅ : GoMap K V) k = none := Finmap.lookup_empty k

@[simp] theorem get?_set_self (m : GoMap K V) (k : K) (v : V) : (m.set k v).get? k = some v :=
  Finmap.lookup_insert (β := fun _ => V) m

theorem get?_set_of_ne (m : GoMap K V) {k k' : K} (v : V) (h : k' ≠ k) :
    (m.set k v).get? k' = m.get? k' :=
  Finmap.lookup_insert_of_ne (β := fun _ => V) m h

/-- Looking up after setting. -/
theorem get?_set (m : GoMap K V) (k k' : K) (v : V) :
    (m.set k v).get? k' = if k' = k then some v else m.get? k' := by
  by_cases h : k' = k
  · rw [if_pos h, h, get?_set_self]
  · rw [if_neg h, get?_set_of_ne m v h]

/-- Looking up after deleting. -/
theorem get?_delete (m : GoMap K V) (k k' : K) :
    (m.delete k).get? k' = if k' = k then none else m.get? k' := by
  by_cases h : k' = k
  · rw [if_pos h, h]; exact Finmap.lookup_erase k m
  · rw [if_neg h]; exact Finmap.lookup_erase_ne h

/-- A map is what is looked up in it. -/
theorem ext_get? {m m' : GoMap K V} (h : ∀ k, m.get? k = m'.get? k) : m = m' :=
  Finmap.ext_lookup h

theorem mem_iff_get? {m : GoMap K V} {k : K} : k ∈ m ↔ ∃ v, m.get? k = some v := Finmap.mem_iff

theorem mem_of_get? {m : GoMap K V} {k : K} {v : V} (h : m.get? k = some v) : k ∈ m :=
  mem_iff_get?.2 ⟨v, h⟩

theorem isSome_get?_iff {m : GoMap K V} {k : K} : (m.get? k).isSome ↔ k ∈ m := by
  rw [mem_iff_get?, Option.isSome_iff_exists]

theorem get?_eq_none_iff {m : GoMap K V} {k : K} : m.get? k = none ↔ k ∉ m :=
  Finmap.lookup_eq_none

/-- `m[k]` is the value of the key, where there is one. -/
theorem get_of_get? [Inhabited V] {m : GoMap K V} {k : K} {v : V} (h : m.get? k = some v) :
    m.get k = v := by
  rw [get, h, Option.getD_some]

/-- `for k := range m { if p(k) { delete(m, k) } }`, over the keys the
loop visits. -/
def deleteWhere (p : K → Bool) (keys : List K) (m : GoMap K V) : GoMap K V :=
  keys.foldl (fun m k => if p k then m.delete k else m) m

/-- A visited key that meets the test is gone, and nothing else is. -/
theorem get?_deleteWhere (p : K → Bool) (keys : List K) (m : GoMap K V) (k : K) :
    (deleteWhere p keys m).get? k = if k ∈ keys ∧ p k = true then none else m.get? k := by
  induction keys generalizing m with
  | nil => simp [deleteWhere]
  | cons j keys ih =>
    have hstep : deleteWhere p (j :: keys) m =
        deleteWhere p keys (if p j then m.delete j else m) := rfl
    rw [hstep, ih]
    by_cases hk : k ∈ keys ∧ p k = true
    · rw [if_pos hk, if_pos ⟨List.mem_cons_of_mem _ hk.1, hk.2⟩]
    · rw [if_neg hk]
      by_cases hpj : p j = true
      · rw [if_pos hpj, get?_delete]
        by_cases hkj : k = j
        · rw [if_pos hkj, if_pos ⟨by rw [hkj]; exact List.mem_cons_self, by rw [hkj]; exact hpj⟩]
        · rw [if_neg hkj, if_neg]
          rintro ⟨hmem, hpk⟩
          exact hk ⟨(List.mem_cons.1 hmem).resolve_left hkj, hpk⟩
      · rw [if_neg hpj, if_neg]
        rintro ⟨hmem, hpk⟩
        rcases List.mem_cons.1 hmem with rfl | hmem
        · exact hpj hpk
        · exact hk ⟨hmem, hpk⟩

/-- `for _, v := range vs { m[key(v)] = v }`. -/
def setAll (key : V → K) (vs : List V) (m : GoMap K V) : GoMap K V :=
  vs.foldl (fun m v => m.set (key v) v) m

/-- Where no value of the list has the key, the map is as it was. -/
theorem get?_setAll_of_notMem {key : V → K} {vs : List V} {m : GoMap K V} {k : K}
    (h : ∀ v ∈ vs, key v ≠ k) : (setAll key vs m).get? k = m.get? k := by
  induction vs generalizing m with
  | nil => rfl
  | cons v vs ih =>
    change (setAll key vs (m.set (key v) v)).get? k = m.get? k
    rw [ih fun w hw => h w (List.mem_cons_of_mem _ hw),
      get?_set_of_ne m v (h v List.mem_cons_self).symm]

/-- Under distinct keys, every value of the list is found at its key. -/
theorem get?_setAll_of_mem {key : V → K} {vs : List V} {m : GoMap K V} {v : V}
    (hnodup : (vs.map key).Nodup) (hv : v ∈ vs) : (setAll key vs m).get? (key v) = some v := by
  induction vs generalizing m with
  | nil => exact absurd hv List.not_mem_nil
  | cons w vs ih =>
    rw [List.map_cons, List.nodup_cons] at hnodup
    change (setAll key vs (m.set (key w) w)).get? (key v) = some v
    rcases List.mem_cons.1 hv with rfl | hv
    · rw [get?_setAll_of_notMem, get?_set_self]
      exact fun x hx heq => hnodup.1 (heq ▸ List.mem_map_of_mem hx)
    · exact ih hnodup.2 hv

end GoMap

/-! ## Iteration orders -/

/-- **What `range` visits**: for every map its keys, each once, in some
order. -/
structure RangeOrder (K V : Type) where
  /-- The keys of the map in the order they are visited. -/
  keys : GoMap K V → List K
  nodup : ∀ m, (keys m).Nodup
  mem_keys : ∀ m k, k ∈ keys m ↔ k ∈ m

namespace RangeOrder

theorem mem_keys_iff_get? [DecidableEq K] (ord : RangeOrder K V) (m : GoMap K V) (k : K) :
    k ∈ ord.keys m ↔ ∃ v, m.get? k = some v := by
  rw [ord.mem_keys, GoMap.mem_iff_get?]

/-- Deleting over a whole range keeps the entries that fail the test. -/
theorem get?_deleteWhere_keys [DecidableEq K] (ord : RangeOrder K V) (p : K → Bool)
    {m : GoMap K V} {k : K} {v : V} :
    (m.deleteWhere p (ord.keys m)).get? k = some v ↔ m.get? k = some v ∧ p k = false := by
  rw [GoMap.get?_deleteWhere]
  by_cases hp : p k = true
  · by_cases hk : k ∈ ord.keys m
    · simp [hk, hp]
    · rw [ord.mem_keys, ← GoMap.get?_eq_none_iff] at hk
      simp [hk, hp]
  · simp [hp]

/-- The order that sorts the keys by `r`. -/
def sorted (r : K → K → Prop) [DecidableRel r] [IsTrans K r] [Std.Total r] [Std.Antisymm r] :
    RangeOrder K V where
  keys m := m.keys.val.liftOn (List.insertionSort r) fun _ _ h =>
    (((List.perm_insertionSort r _).trans h).trans
      (List.perm_insertionSort r _).symm).eq_of_pairwise'
        (List.pairwise_insertionSort r _) (List.pairwise_insertionSort r _)
  nodup m := by
    induction m using Finmap.induction_on with
    | _ a => exact (List.perm_insertionSort r _).nodup_iff.2 a.nodupKeys
  mem_keys m k := by
    induction m using Finmap.induction_on with
    | _ a => exact List.mem_insertionSort r

end RangeOrder

end EthIndexer
