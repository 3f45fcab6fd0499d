import Mathlib.Data.List.Sort
/-!
# Pages of a descending listing

A listing shows its items from the highest position down, a page at a
time. A page is asked for below a position, holds at most `limit` items,
and names its last item when there are more: the next page is asked for
below that one.

What a reader of several pages has to know about one page is
`mem_page_of_le`: everything of the listing from the named item up is on
it. The listing may change between two pages, so nothing is said here
about several of them.
-/

namespace EthIndexer

namespace Paging

variable {α β κ : Type} [LinearOrder κ] {key : α → κ}

/-- From the highest position down, without a repetition. -/
def Descending (key : α → κ) (l : List α) : Prop := l.Pairwise fun a b => key b < key a

/-- What is listed below a position; all of it where there is none. -/
def below (key : α → κ) (before : Option κ) (l : List α) : List α :=
  l.filter fun a => before.all fun k => decide (key a < k)

/-- At most `limit` items, and the last of them when there are more. -/
def page (limit : ℕ) (l : List α) : List α × Option α :=
  if l.length ≤ limit then (l, none) else (l.take limit, (l.take limit).getLast?)

theorem mem_below {before : Option κ} {l : List α} {a : α} :
    a ∈ below key before l ↔ a ∈ l ∧ ∀ k ∈ before, key a < k := by
  cases before <;> simp [below]

@[simp] theorem below_none (l : List α) : below key none l = l :=
  List.filter_eq_self.2 fun _ _ => rfl

theorem Descending.below {l : List α} (h : Descending key l) (before : Option κ) :
    Descending key (below key before l) := h.filter _

/-- **One set has one descending listing.** -/
theorem Descending.eq_of_mem_iff {l l' : List α} (h : Descending key l) (h' : Descending key l')
    (hmem : ∀ a, a ∈ l ↔ a ∈ l') : l = l' := by
  have hnodup : ∀ {l : List α}, Descending key l → l.Nodup := fun h => h.imp fun hlt heq => by
    rw [heq] at hlt
    exact lt_irrefl _ hlt
  exact ((List.perm_ext_iff_of_nodup (hnodup h) (hnodup h')).2 hmem).eq_of_pairwise
    (fun _ _ _ _ hab hba => absurd hab (lt_asymm hba)) h h'

theorem descending_map_iff {f : β → α} {l : List β} :
    Descending key (l.map f) ↔ Descending (fun b => key (f b)) l := List.pairwise_map

@[simp] theorem page_zero (l : List α) : page 0 l = ([], none) := by
  unfold page
  split
  · rename_i hle
    rw [List.eq_nil_of_length_eq_zero (Nat.le_zero.1 hle)]
  · rfl

theorem page_map (f : β → α) (limit : ℕ) (l : List β) :
    page limit (l.map f) = ((page limit l).1.map f, (page limit l).2.map f) := by
  unfold page
  rw [List.length_map]
  split
  · rfl
  · rw [← List.map_take, List.getLast?_map]

/-- A page cut from one item more than it may hold. -/
def probe (limit : ℕ) (l : List α) : List α × Option α :=
  let items := l.take (limit + 1)
  if items.length ≤ limit then (items, none)
  else (items.take (items.length - 1), (items.take (items.length - 1)).getLast?)

/-- **The probe sees whether there is more.** -/
theorem probe_eq_page (limit : ℕ) (l : List α) : probe limit l = page limit l := by
  unfold probe page
  simp only [List.length_take, List.take_take]
  by_cases hle : l.length ≤ limit
  · rw [if_pos (by omega), if_pos hle, List.take_of_length_le (by omega)]
  · rw [if_neg (by omega), if_neg hle,
      show min (min (limit + 1) l.length - 1) (limit + 1) = limit by omega]

/-- A page has the first items of the listing. -/
theorem page_fst_eq_take (limit : ℕ) (l : List α) : (page limit l).1 = l.take limit := by
  unfold page
  split
  · rename_i hle
    rw [List.take_of_length_le hle]
  · rfl

theorem page_fst_sublist (limit : ℕ) (l : List α) : (page limit l).1.Sublist l := by
  rw [page_fst_eq_take]
  exact List.take_sublist limit l

/-- Without a next page all of the listing is there. -/
theorem page_fst_of_snd_eq_none {limit : ℕ} (hlimit : 0 < limit) {l : List α}
    (h : (page limit l).2 = none) : (page limit l).1 = l := by
  unfold page at h ⊢
  split
  · rfl
  · rename_i hle
    rw [if_neg hle, List.getLast?_eq_none_iff, List.take_eq_nil_iff] at h
    rcases h with h | rfl
    · omega
    · simp at hle

theorem mem_of_page_snd {limit : ℕ} {l : List α} {a : α} (h : (page limit l).2 = some a) :
    a ∈ (page limit l).1 := by
  unfold page at h ⊢
  split
  · rename_i hle
    rw [if_pos hle] at h
    cases h
  · rename_i hle
    rw [if_neg hle] at h
    exact List.mem_of_getLast? h

/-- Every item of the page is at or above the one it names. -/
theorem le_of_page_snd {limit : ℕ} {l : List α} (hl : Descending key l) {a : α}
    (h : (page limit l).2 = some a) {b : α} (hb : b ∈ (page limit l).1) : key a ≤ key b := by
  have hd : Descending key (page limit l).1 := hl.sublist (page_fst_sublist limit l)
  have hlast : (page limit l).1.getLast? = some a := by
    unfold page at h ⊢
    split
    · rename_i hle
      rw [if_pos hle] at h
      cases h
    · rename_i hle
      rwa [if_neg hle] at h
  obtain ⟨l', hl'⟩ := List.getLast?_eq_some_iff.1 hlast
  rw [hl'] at hd hb
  rcases List.mem_append.1 hb with hb | hb
  · exact ((List.pairwise_append.1 hd).2.2 b hb a List.mem_cons_self).le
  · rw [List.mem_singleton.1 hb]

/-- **A page leaves nothing out above the item it names.** -/
theorem mem_page_of_le {limit : ℕ} {l : List α} (hl : Descending key l) {a : α}
    (h : (page limit l).2 = some a) {b : α} (hb : b ∈ l) (hab : key a ≤ key b) :
    b ∈ (page limit l).1 := by
  have ha := mem_of_page_snd h
  rw [page_fst_eq_take] at ha ⊢
  rw [← List.take_append_drop limit l] at hl hb
  rcases List.mem_append.1 hb with hb | hb
  · exact hb
  · exact absurd hab (not_le.2 ((List.pairwise_append.1 hl).2.2 a ha b hb))

/-- **A page and what is below the item it names make up the listing.** -/
theorem page_append_below {limit : ℕ} {l : List α} (hl : Descending key l) {a : α}
    (h : (page limit l).2 = some a) : (page limit l).1 ++ below key (some (key a)) l = l := by
  have habove : ∀ b ∈ l.take limit, ¬ key b < key a := fun b hb => by
    rw [← page_fst_eq_take] at hb
    exact not_lt.2 (le_of_page_snd hl h hb)
  have hbelow : ∀ b ∈ l.drop limit, key b < key a := fun b hb => by
    have ha := mem_of_page_snd h
    rw [page_fst_eq_take] at ha
    rw [← List.take_append_drop limit l] at hl
    exact (List.pairwise_append.1 hl).2.2 a ha b hb
  have hsplit : below key (some (key a)) l = l.drop limit := by
    conv_lhs => rw [← List.take_append_drop limit l]
    rw [below, List.filter_append, List.filter_eq_nil_iff.2, List.filter_eq_self.2, List.nil_append]
    · exact fun b hb => decide_eq_true (hbelow b hb)
    · exact fun b hb => by simpa using habove b hb
  rw [hsplit, page_fst_eq_take, List.take_append_drop]

/-- Of two bounds the lower one counts. -/
theorem below_below {before : Option κ} {k : κ} (h : ∀ k' ∈ before, k ≤ k') (l : List α) :
    below key (some k) (below key before l) = below key (some k) l := by
  unfold below
  rw [List.filter_filter]
  refine List.filter_congr fun a _ => ?_
  cases before with
  | none => simp
  | some k' =>
    simp only [Option.all_some, Bool.and_eq_left_iff_imp, decide_eq_true_iff]
    exact fun hlt => hlt.trans_le (h k' rfl)

/-- Less is listed below an item of the listing. -/
theorem length_below_lt {l : List α} {a : α} (ha : a ∈ l) :
    (below key (some (key a)) l).length < l.length := by
  refine List.length_filter_lt_length_iff_exists.2 ⟨a, ha, ?_⟩
  simp

end Paging

end EthIndexer
