import EthIndexer.Common.SortSlice
/-!
# Listings of a set of rows

A table without an order is known by its rows: each of a set, and each
once. Two listings of the same set differ in the order only, so sorting
by a key that tells the rows apart gives the same list for both
(`Lists.sortSlice_eq_of_pairwise`). Deleting rows and appending new ones
are read off the set.
-/

namespace EthIndexer

variable {α β κ : Type}

/-- **The rows of a set, each once.** -/
structure Lists (rows : List α) (P : α → Prop) : Prop where
  nodup : rows.Nodup
  mem : ∀ a, a ∈ rows ↔ P a

namespace Lists

variable {rows rows' : List α} {P Q : α → Prop}

theorem nil : Lists ([] : List α) fun _ => False := ⟨List.nodup_nil, by simp⟩

theorem singleton (a : α) : Lists [a] fun b => b = a := ⟨List.nodup_singleton a, by simp⟩

/-- The rows of a list in which a key comes once. -/
theorem map {l : List β} {f : β → α} {key : β → κ} (hl : (l.map key).Nodup)
    (hf : ∀ a b, f a = f b → key a = key b) : Lists (l.map f) fun r => ∃ a ∈ l, f a = r :=
  ⟨(hl.of_map key).map_on fun a ha b hb hab => List.inj_on_of_nodup_map hl ha hb (hf a b hab),
    fun _ => List.mem_map⟩

theorem congr (h : Lists rows P) (hPQ : ∀ a, P a ↔ Q a) : Lists rows Q :=
  ⟨h.nodup, fun a => (h.mem a).trans (hPQ a)⟩

theorem filter (h : Lists rows P) (p : α → Bool) :
    Lists (rows.filter p) fun a => P a ∧ p a = true :=
  ⟨h.nodup.filter _, fun a => by rw [List.mem_filter, h.mem]⟩

/-- Rows are appended that were not there before. -/
theorem append (h : Lists rows P) (h' : Lists rows' Q) (hdisjoint : ∀ a, P a → ¬ Q a) :
    Lists (rows ++ rows') fun a => P a ∨ Q a := by
  refine ⟨List.nodup_append.2 ⟨h.nodup, h'.nodup, fun a ha b hb hab => ?_⟩, fun a => ?_⟩
  · exact hdisjoint a ((h.mem a).1 ha) ((h'.mem a).1 (hab ▸ hb))
  · rw [List.mem_append, h.mem, h'.mem]

/-- The images of the rows, where no two have the same. -/
theorem image (h : Lists rows P) {f : α → β} (hf : ∀ a b, P a → P b → f a = f b → a = b) :
    Lists (rows.map f) fun c => ∃ a, P a ∧ f a = c := by
  refine ⟨h.nodup.map_on fun a ha b hb => hf a b ((h.mem a).1 ha) ((h.mem b).1 hb), fun c => ?_⟩
  simp only [List.mem_map, h.mem]

/-- **A join**: for each row a listing of its partners, and no partner
shared. -/
theorem flatMap {f : α → List β} {Q : α → β → Prop} (h : Lists rows P)
    (hf : ∀ a, P a → Lists (f a) (Q a))
    (hdisjoint : ∀ a b c, P a → P b → Q a c → Q b c → a = b) :
    Lists (rows.flatMap f) fun c => ∃ a, P a ∧ Q a c := by
  refine ⟨List.nodup_flatMap.2 ⟨fun a ha => (hf a ((h.mem a).1 ha)).nodup, ?_⟩, fun c => ?_⟩
  · refine h.nodup.imp_of_mem fun {a b} ha hb hne c hca hcb => hne ?_
    have hPa := (h.mem a).1 ha
    have hPb := (h.mem b).1 hb
    exact hdisjoint a b c hPa hPb (((hf a hPa).mem c).1 hca) (((hf b hPb).mem c).1 hcb)
  · rw [List.mem_flatMap]
    constructor
    · rintro ⟨a, ha, hc⟩
      have hPa := (h.mem a).1 ha
      exact ⟨a, hPa, ((hf a hPa).mem c).1 hc⟩
    · rintro ⟨a, hPa, hc⟩
      exact ⟨a, (h.mem a).2 hPa, ((hf a hPa).mem c).2 hc⟩

theorem eq_nil (h : Lists rows P) (hnone : ∀ a, ¬ P a) : rows = [] :=
  List.eq_nil_iff_forall_not_mem.2 fun a ha => hnone a ((h.mem a).1 ha)

theorem eq_singleton {a : α} (h : Lists rows P) (ha : ∀ b, P b ↔ b = a) : rows = [a] :=
  List.perm_singleton.1 ((List.perm_ext_iff_of_nodup h.nodup (List.nodup_singleton a)).2
    fun b => by rw [h.mem, ha, List.mem_singleton])

/-- Two listings of the same are the same up to order. -/
theorem perm (h : Lists rows P) (h' : Lists rows' P) : rows.Perm rows' :=
  (List.perm_ext_iff_of_nodup h.nodup h'.nodup).2 fun a => (h.mem a).trans (h'.mem a).symm

/-- A key that tells the rows apart has no value twice. -/
theorem nodup_map (h : Lists rows P) {key : α → κ}
    (hkey : ∀ a b, P a → P b → key a = key b → a = b) : (rows.map key).Nodup :=
  h.nodup.map_on fun a ha b hb => hkey a b ((h.mem a).1 ha) ((h.mem b).1 hb)

/-- A list in strict order is what its set sorts to. -/
theorem sortSlice_eq_of_pairwise [LinearOrder κ] {less : α → α → Bool} {key : α → κ}
    (hless : ComparesBy less key) (h : Lists rows P)
    (hsorted : rows'.Pairwise fun a b => key a < key b) (hmem : ∀ a, a ∈ rows' ↔ P a) :
    sortSlice less rows = rows' := by
  have hnodup : rows'.Nodup := hsorted.imp fun hab heq => by
    rw [heq] at hab
    exact lt_irrefl _ hab
  exact (eq_sortSlice_of_pairwise hless (Lists.perm ⟨hnodup, hmem⟩ h) hsorted).symm

end Lists

end EthIndexer
