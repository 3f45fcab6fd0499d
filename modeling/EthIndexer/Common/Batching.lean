import Mathlib.Data.List.Basic
/-!
# Batching

Items are added to a batch, and the batch is put away whenever it has
reached the limit; what is left at the end is the last batch, unless it is
empty. `Batched` says what such a grouping is, and `batches` is the
grouping.
-/

namespace EthIndexer

variable {α : Type} {limit : ℕ}

/-- **A grouping**: nothing is lost, no batch is empty or too long, and
every one but the last is full. -/
structure Batched (limit : ℕ) (items : List α) (batches : List (List α)) : Prop where
  flatten_eq : batches.flatten = items
  ne_nil : ∀ batch ∈ batches, batch ≠ []
  length_le : ∀ batch ∈ batches, batch.length ≤ limit
  full : ∀ batch ∈ batches.dropLast, batch.length = limit

/-- The full batches, and what is left. -/
def fill (limit : ℕ) : List α → List α → List (List α) × List α
  | batch, [] => ([], batch)
  | batch, x :: rest =>
    if (batch ++ [x]).length ≥ limit then
      ((batch ++ [x]) :: (fill limit [] rest).1, (fill limit [] rest).2)
    else fill limit (batch ++ [x]) rest

theorem flatten_fill (limit : ℕ) (batch items : List α) :
    (fill limit batch items).1.flatten ++ (fill limit batch items).2 = batch ++ items := by
  induction items generalizing batch with
  | nil => simp [fill]
  | cons x items ih =>
    unfold fill
    split
    · simp [ih]
    · rw [ih, ← List.append_cons]

/-- The batch at hand never has more than the limit. -/
theorem fill_length (batch items : List α) (h : batch.length < limit) :
    (∀ full ∈ (fill limit batch items).1, full.length = limit) ∧
      (fill limit batch items).2.length < limit := by
  induction items generalizing batch with
  | nil => exact ⟨nofun, h⟩
  | cons x items ih =>
    have hlength : (batch ++ [x]).length = batch.length + 1 := by simp
    unfold fill
    split
    · obtain ⟨hfull, hleft⟩ := ih [] (Nat.zero_lt_of_lt h)
      exact ⟨List.forall_mem_cons.2 ⟨by omega, hfull⟩, hleft⟩
    · exact ih _ (by omega)

/-- The last batch, if there is one. -/
def lastBatch (left : List α) : List (List α) := if left.length = 0 then [] else [left]

theorem lastBatch_cases (left : List α) :
    (left = [] ∧ lastBatch left = []) ∨ (left ≠ [] ∧ lastBatch left = [left]) := by
  cases left with
  | nil => exact Or.inl ⟨rfl, rfl⟩
  | cons x left => exact Or.inr ⟨List.cons_ne_nil x left, rfl⟩

/-- **The batches of a queue.** -/
def batches (limit : ℕ) (items : List α) : List (List α) :=
  (fill limit [] items).1 ++ lastBatch (fill limit [] items).2

theorem batched_batches (h : 0 < limit) (items : List α) :
    Batched limit items (batches limit items) := by
  obtain ⟨hfull, hleft⟩ := fill_length [] items h
  have hflatten := flatten_fill limit [] items
  have hne : ∀ full ∈ (fill limit [] items).1, full ≠ [] := fun full hmem =>
    List.ne_nil_of_length_pos (hfull full hmem ▸ h)
  rw [batches]
  rcases lastBatch_cases (fill limit [] items).2 with ⟨hnil, hlast⟩ | ⟨hcons, hlast⟩
  · rw [hnil, List.append_nil] at hflatten
    rw [hlast, List.append_nil]
    exact ⟨hflatten, hne, fun full hmem => Nat.le_of_eq (hfull full hmem),
      fun full hmem => hfull full (List.dropLast_subset _ hmem)⟩
  · rw [hlast]
    refine ⟨by simpa using hflatten, ?_, ?_, by rwa [List.dropLast_concat]⟩
    · exact List.forall_mem_append.2 ⟨hne, by simpa using hcons⟩
    · exact List.forall_mem_append.2 ⟨fun full hmem => Nat.le_of_eq (hfull full hmem),
        by simpa using Nat.le_of_lt hleft⟩

end EthIndexer
