import EthIndexer.Common.GoMap
import Mathlib.Data.Set.Insert
/-!
# Pointers and copies

Memory holds a value at each address in use, and a record holds addresses
where its type has pointers. A `Shape` says what such a record stands for
as a value and which addresses that takes; as long as these keep what they
hold, so does the record (`Shape.frame`). Shapes are put together as types
are: of a pointer, an option, a pair, a list, a map and a record.

A program makes a value in new memory (`Makes`) if it leaves what is there
alone and what it returns goes through new addresses only. Such a value
shares nothing with any other. A copy is a program that makes the value
that it was given, or a function of it, anew (`Copies`); the copies of the
parts of a record make a copy of the record.
-/

namespace EthIndexer

/-- Memory: what the addresses in use hold. -/
abbrev Heap (V : Type) := List V

/-- A program on memory. -/
abbrev HeapM (V : Type) := StateM (Heap V)

variable {V P Q R A B : Type} {h h' : Heap V}

namespace Heap

/-- A new cell, which nobody has the address of. -/
def alloc (v : V) : HeapM V ℕ := fun h => (h.length, h ++ [v])

/-- A program that only looks. -/
def look (f : Heap V → A) : HeapM V A := fun h => (f h, h)

/-- What the address holds, of which `read` is looked at. -/
def deref (read : V → P) (zero : P) (a : ℕ) (h : Heap V) : P := (h[a]?).elim zero read

def load (read : V → P) (zero : P) (a : ℕ) : HeapM V P := look fun h => h.deref read zero a

/-- Allocating leaves the cells as they are. -/
theorem getElem?_later (hh : h <+: h') {a : ℕ} (ha : a < h.length) : h'[a]? = h[a]? := by
  obtain ⟨new, rfl⟩ := hh
  exact List.getElem?_append_left ha

end Heap

/-! ## Shapes -/

/-- **What pointers stand for**: the value, and the addresses it is found
through. -/
structure Shape (V P A : Type) where
  view : Heap V → P → A
  cells : Heap V → P → Set ℕ
  frame : ∀ {h h' : Heap V} {p : P}, (∀ a ∈ cells h p, h'[a]? = h[a]?) →
    view h' p = view h p ∧ cells h' p = cells h p

namespace Shape

variable {S : Shape V P A} {T : Shape V Q B} {p : P}

def load (S : Shape V P A) (p : P) : HeapM V A := Heap.look fun h => S.view h p

/-- No pointer dangles. -/
def Valid (S : Shape V P A) (h : Heap V) (p : P) : Prop := ∀ a ∈ S.cells h p, a < h.length

/-- **A value is seen as before on a heap that has grown.** -/
theorem Valid.frame (hp : S.Valid h p) (hh : h <+: h') :
    S.view h' p = S.view h p ∧ S.cells h' p = S.cells h p :=
  S.frame fun a ha => Heap.getElem?_later hh (hp a ha)

theorem Valid.later (hp : S.Valid h p) (hh : h <+: h') : S.Valid h' p := by
  intro a ha
  rw [(hp.frame hh).2] at ha
  exact Nat.lt_of_lt_of_le (hp a ha) hh.length_le

/-- A write elsewhere is not seen. -/
theorem frame_set {a : ℕ} (ha : a ∉ S.cells h p) (v : V) :
    S.view (h.set a v) p = S.view h p ∧ S.cells (h.set a v) p = S.cells h p := by
  refine S.frame fun b hb => List.getElem?_set_ne ?_
  rintro rfl
  exact ha hb

/-- A value without pointers. -/
def plain (V A : Type) : Shape V A A where
  view _ a := a
  cells _ _ := ∅
  frame _ := ⟨rfl, rfl⟩

/-- A pointer to something. -/
def ref (read : V → P) (zero : P) (S : Shape V P A) : Shape V ℕ A where
  view h a := S.view h (h.deref read zero a)
  cells h a := insert a (S.cells h (h.deref read zero a))
  frame := by
    intro h h' a hsame
    have hderef : h'.deref read zero a = h.deref read zero a := by
      rw [Heap.deref, Heap.deref, hsame a (Set.mem_insert a _)]
    have hinner := S.frame fun b hb => hsame b (Set.mem_insert_of_mem a hb)
    rw [hderef, hinner.1, hinner.2]
    exact ⟨rfl, rfl⟩

/-- A pointer or nil. -/
def option (S : Shape V P A) : Shape V (Option P) (Option A) where
  view h p := p.map (S.view h)
  cells h p := {a | ∃ q ∈ p, a ∈ S.cells h q}
  frame := by
    intro h h' p hsame
    cases p with
    | none => exact ⟨rfl, by simp⟩
    | some q =>
      have hinner := S.frame fun b hb => hsame b ⟨q, rfl, hb⟩
      simp [hinner.1, hinner.2]

def pair (S : Shape V P A) (T : Shape V Q B) : Shape V (P × Q) (A × B) where
  view h p := (S.view h p.1, T.view h p.2)
  cells h p := S.cells h p.1 ∪ T.cells h p.2
  frame := by
    intro h h' p hsame
    have hleft := S.frame fun b hb => hsame b (Or.inl hb)
    have hright := T.frame fun b hb => hsame b (Or.inr hb)
    rw [hleft.1, hleft.2, hright.1, hright.2]
    exact ⟨rfl, rfl⟩

/-- A value or an error, which has no pointers. -/
def except (ε : Type) (S : Shape V P A) : Shape V (Except ε P) (Except ε A) where
  view h p := p.map (S.view h)
  cells h p := {a | ∃ q, p = .ok q ∧ a ∈ S.cells h q}
  frame := by
    intro h h' p hsame
    cases p with
    | error e => exact ⟨rfl, by simp⟩
    | ok q =>
      have hinner := S.frame fun b hb => hsame b ⟨q, rfl, hb⟩
      simp [Except.map, hinner.1, hinner.2]

def list (S : Shape V P A) : Shape V (List P) (List A) where
  view h ps := ps.map (S.view h)
  cells h ps := {a | ∃ p ∈ ps, a ∈ S.cells h p}
  frame := by
    intro h h' ps hsame
    have hinner : ∀ p ∈ ps, S.view h' p = S.view h p ∧ S.cells h' p = S.cells h p :=
      fun p hp => S.frame fun b hb => hsame b ⟨p, hp, hb⟩
    refine ⟨List.map_congr_left fun p hp => (hinner p hp).1, ?_⟩
    ext a
    simp only [Set.mem_ofPred_eq]
    exact exists_congr fun p => and_congr_right fun hp => by rw [(hinner p hp).2]

theorem view_list (S : Shape V P A) (h : Heap V) (ps : List P) :
    S.list.view h ps = ps.map (S.view h) := rfl

/-- A record, of which `parts` are the pointers. -/
def record (S : Shape V P A) (parts : R → P) (make : R → A → B) : Shape V R B where
  view h r := make r (S.view h (parts r))
  cells h r := S.cells h (parts r)
  frame := by
    intro h h' r hsame
    have hinner := S.frame hsame
    rw [hinner.1, hinner.2]
    exact ⟨rfl, rfl⟩

end Shape

/-! ## Maps -/

namespace GoMap

variable {K W W' : Type} [DecidableEq K]

/-- The map with its values changed. -/
def mapValues (f : W → W') (m : GoMap K W) : GoMap K W' :=
  m.liftOn (fun a => AList.toFinmap ⟨a.entries.map (.map id fun _ => f), a.nodupKeys.map₂ _ _⟩)
    fun _ _ hperm => AList.toFinmap_eq.2 (hperm.map _)

/-- Looking up in a map whose values are mapped. -/
theorem get?_mapValues (f : W → W') (m : GoMap K W) (k : K) :
    (m.mapValues f).get? k = (m.get? k).map f := by
  induction m using Finmap.induction_on with
  | _ a => exact List.dlookup_map₂ k

end GoMap

namespace Shape

variable {K : Type} [DecidableEq K]

/-- A map of values with pointers. -/
def map (K : Type) [DecidableEq K] (S : Shape V P A) : Shape V (GoMap K P) (GoMap K A) where
  view h m := m.mapValues (S.view h)
  cells h m := {a | ∃ k p, m.get? k = some p ∧ a ∈ S.cells h p}
  frame := by
    intro h h' m hsame
    have hinner : ∀ k p, m.get? k = some p →
        S.view h' p = S.view h p ∧ S.cells h' p = S.cells h p :=
      fun k p hp => S.frame fun b hb => hsame b ⟨k, p, hp, hb⟩
    constructor
    · refine GoMap.ext_get? fun k => ?_
      rw [GoMap.get?_mapValues, GoMap.get?_mapValues]
      cases hk : m.get? k with
      | none => rfl
      | some p => rw [Option.map_some, Option.map_some, (hinner k p hk).1]
    · ext a
      simp only [Set.mem_ofPred_eq]
      exact exists_congr fun k => exists_congr fun p => and_congr_right fun hp => by
        rw [(hinner k p hp).2]

end Shape

/-! ## Programs that make values -/

/-- **Made since `h`**: nothing that was there has changed, and the value
goes through new addresses only. -/
structure Made (S : Shape V P A) (h h' : Heap V) (p : P) (a : A) : Prop where
  later : h <+: h'
  view : S.view h' p = a
  fresh : ∀ c ∈ S.cells h' p, h.length ≤ c ∧ c < h'.length

namespace Made

variable {S : Shape V P A} {T : Shape V Q B} {h'' : Heap V} {p : P} {q : Q} {a : A} {b : B}

theorem valid (hp : Made S h h' p a) : S.Valid h' p := fun c hc => (hp.fresh c hc).2

/-- It stays. -/
theorem keep (hp : Made S h h' p a) (hh : h' <+: h'') : Made S h h'' p a := by
  have hkept := hp.valid.frame hh
  refine ⟨hp.later.trans hh, hkept.1.trans hp.view, fun c hc => ?_⟩
  have hc' := hp.fresh c (hkept.2 ▸ hc)
  exact ⟨hc'.1, Nat.lt_of_lt_of_le hc'.2 hh.length_le⟩

/-- What is made later is made since. -/
theorem since (hp : Made S h' h'' p a) (hh : h <+: h') : Made S h h'' p a :=
  ⟨hh.trans hp.later, hp.view, fun c hc =>
    ⟨hh.length_le.trans (hp.fresh c hc).1, (hp.fresh c hc).2⟩⟩

theorem plain (hh : h <+: h') (a : A) : Made (Shape.plain V A) h h' a a :=
  ⟨hh, rfl, fun _ hc => absurd hc (Set.notMem_empty _)⟩

theorem pair (hp : Made S h h' p a) (hq : Made T h h' q b) :
    Made (S.pair T) h h' (p, q) (a, b) := by
  refine ⟨hp.later, Prod.ext hp.view hq.view, ?_⟩
  rintro c (hc | hc)
  · exact hp.fresh c hc
  · exact hq.fresh c hc

/-- A change that goes through no other addresses. -/
theorem change (hp : Made S h h' p a) (hview : T.view h' q = b)
    (hcells : T.cells h' q ⊆ S.cells h' p) : Made T h h' q b :=
  ⟨hp.later, hview, fun c hc => hp.fresh c (hcells hc)⟩

theorem ok {ε : Type} (hp : Made S h h' p a) : Made (S.except ε) h h' (.ok p) (.ok a) := by
  refine hp.change (congrArg Except.ok hp.view) ?_
  rintro c ⟨q, hq, hc⟩
  cases hq
  exact hc

theorem error {ε : Type} (hh : h <+: h') (e : ε) : Made (S.except ε) h h' (.error e) (.error e) :=
  ⟨hh, rfl, fun c hc => by obtain ⟨q, hq, -⟩ := hc; cases hq⟩

/-- A record whose parts were made. -/
theorem record {parts : R → P} {make : R → A → B} {r : R} (hp : Made S h h' (parts r) a)
    (hmake : make r a = b) : Made (S.record parts make) h h' r b := by
  refine hp.change ?_ fun c hc => hc
  change make r (S.view h' (parts r)) = b
  rw [hp.view, hmake]

/-- A new pointer to what was made. -/
theorem alloc {read : V → P} {zero : P} {v : V} (hp : Made S h h' p a) (hread : read v = p) :
    Made (Shape.ref read zero S) h (h' ++ [v]) h'.length a := by
  have hkept := hp.keep (List.prefix_append h' [v])
  have hderef : (h' ++ [v]).deref read zero h'.length = p := by
    rw [Heap.deref, List.getElem?_concat_length]
    exact hread
  refine ⟨hkept.later, ?_, fun c hc => ?_⟩
  · change S.view (h' ++ [v]) ((h' ++ [v]).deref read zero h'.length) = a
    rw [hderef]
    exact hkept.view
  · change c ∈ insert h'.length (S.cells (h' ++ [v]) ((h' ++ [v]).deref read zero h'.length)) at hc
    rw [hderef] at hc
    rcases hc with rfl | hc
    · refine ⟨hp.later.length_le, ?_⟩
      rw [List.length_append]
      exact Nat.lt_succ_self _
    · exact hkept.fresh c hc

/-- A loop whose body keeps what it has made. -/
theorem foldlM {f : P → R → HeapM V P} {g : A → R → A} {rs : List R} (hp : Made S h h' p a)
    (hf : ∀ r ∈ rs, ∀ h' p a, Made S h h' p a → Made S h (f p r h').2 (f p r h').1 (g a r)) :
    Made S h (rs.foldlM f p h').2 (rs.foldlM f p h').1 (rs.foldl g a) := by
  induction rs generalizing h' p a with
  | nil => exact hp
  | cons r rs ih =>
    rw [List.foldlM_cons]
    exact ih (hf r List.mem_cons_self h' p a hp) fun r' hr' =>
      hf r' (List.mem_cons_of_mem r hr')

end Made

/-- **The program makes an `a` in new memory.** -/
abbrev Makes (S : Shape V P A) (h : Heap V) (x : HeapM V P) (a : A) : Prop :=
  Made S h (x h).2 (x h).1 a

namespace Makes

variable {S : Shape V P A} {T : Shape V Q B} {x : HeapM V P} {y : HeapM V Q} {a : A} {b : B}

/-- What was made first is still there when the second is made. -/
theorem pair (hx : Makes S h x a) (hy : Makes T (x h).2 y b) :
    Makes (S.pair T) h (do let p ← x; let q ← y; return (p, q)) (a, b) :=
  (hx.keep hy.later).pair (hy.since hx.later)

/-- One after the other. -/
theorem mapM {f : Q → HeapM V P} {g : Q → A} {qs : List Q}
    (hf : ∀ q ∈ qs, ∀ h', h <+: h' → Makes S h' (f q) (g q)) :
    Makes S.list h (qs.mapM f) (qs.map g) := by
  induction qs generalizing h with
  | nil => exact ⟨List.prefix_refl h, rfl, fun c hc => by obtain ⟨p, hp, -⟩ := hc; cases hp⟩
  | cons q qs ih =>
    have hq := hf q List.mem_cons_self h (List.prefix_refl h)
    have hqs : Makes S.list (f q h).2 (qs.mapM f) (qs.map g) :=
      ih fun q' hq' h' hh => hf q' (List.mem_cons_of_mem q hq') h' (hq.later.trans hh)
    rw [List.mapM_cons]
    refine (hq.pair hqs).change (congrArg₂ List.cons (hq.keep hqs.later).view hqs.view) ?_
    rintro c ⟨p, hp, hc⟩
    rcases List.mem_cons.1 hp with rfl | hp
    · exact Or.inl hc
    · exact Or.inr ⟨p, hp, hc⟩

end Makes

/-! ## Copies -/

/-- **A copy**: it makes `f` of the value anew. -/
def Copies (S : Shape V P A) (copy : P → HeapM V P) (f : A → A) : Prop :=
  ∀ h p, S.Valid h p → Makes S h (copy p) (f (S.view h p))

namespace Copies

variable {S : Shape V P A} {T : Shape V Q B} {copy : P → HeapM V P} {copy' : Q → HeapM V Q}
  {f : A → A} {g : B → B}

/-- What is copied may be older than the memory it is copied in. -/
theorem later (hcopy : Copies S copy f) {p : P} (hp : S.Valid h p) (hh : h <+: h') :
    Makes S h' (copy p) (f (S.view h p)) := by
  rw [← (hp.frame hh).1]
  exact hcopy h' p (hp.later hh)

theorem plain (f : A → A) : Copies (Shape.plain V A) (fun a => pure (f a)) f :=
  fun h a _ => Made.plain (List.prefix_refl h) (f a)

theorem ref {read : V → P} {zero : P} {store : P → V} (hread : ∀ p, read (store p) = p)
    (hcopy : Copies S copy f) :
    Copies (Shape.ref read zero S)
      (fun a => do let p ← Heap.load read zero a; let p' ← copy p; Heap.alloc (store p')) f := by
  intro h a ha
  have hinner := hcopy h (h.deref read zero a) fun c hc => ha c (Set.mem_insert_of_mem a hc)
  exact hinner.alloc (hread _)

theorem option (hcopy : Copies S copy f) :
    Copies S.option (fun p => p.mapM copy) (Option.map f) := by
  intro h p hp
  cases p with
  | none => exact ⟨List.prefix_refl h, rfl, fun c hc => by obtain ⟨q, hq, -⟩ := hc; cases hq⟩
  | some q =>
    have hq := hcopy h q fun c hc => hp c ⟨q, rfl, hc⟩
    refine ⟨hq.later, congrArg some hq.view, fun c hc => ?_⟩
    obtain ⟨q', hq', hc⟩ := hc
    cases hq'
    exact hq.fresh c hc

theorem pair (hcopy : Copies S copy f) (hcopy' : Copies T copy' g) :
    Copies (S.pair T) (fun p => do let q ← copy p.1; let r ← copy' p.2; return (q, r))
      (Prod.map f g) := by
  intro h p hp
  have hfirst := hcopy h p.1 fun c hc => hp c (Or.inl hc)
  exact hfirst.pair (hcopy'.later (fun c hc => hp c (Or.inr hc)) hfirst.later)

theorem list (hcopy : Copies S copy f) : Copies S.list (fun ps => ps.mapM copy) (List.map f) := by
  intro h ps hps
  change Makes S.list h (ps.mapM copy) (List.map f (ps.map (S.view h)))
  rw [List.map_map]
  exact Makes.mapM fun p hp h' hh => hcopy.later (fun c hc => hps c ⟨p, hp, hc⟩) hh

/-- A record is copied by copying its parts, if the rest of it is kept. -/
theorem record {parts : R → P} {make : R → A → B} {build : R → P → R} (hcopy : Copies S copy f)
    (hparts : ∀ r p, parts (build r p) = p)
    (hmake : ∀ r p a, make (build r p) (f a) = g (make r a)) :
    Copies (S.record parts make) (fun r => do return build r (← copy (parts r))) g := by
  intro h r hr
  have hmade := hcopy h (parts r) hr
  refine hmade.change ?_ fun c hc => ?_
  · change make (build r _) (S.view _ (parts (build r (copy (parts r) h).1))) = _
    rw [hparts, hmade.view, hmake]
    rfl
  · change c ∈ S.cells _ (parts (build r _)) at hc
    rwa [hparts] at hc

end Copies

/-! ## Maps with pointers -/

namespace Shape

variable {K : Type} [DecidableEq K] {S : Shape V P A} {m : GoMap K P}

/-- Looking up and reading, in either order. -/
theorem get?_view (h : Heap V) (m : GoMap K P) (k : K) :
    ((S.map K).view h m).get? k = (m.get? k).map (S.view h) := GoMap.get?_mapValues _ m k

theorem view_set (h : Heap V) (m : GoMap K P) (k : K) (p : P) :
    (S.map K).view h (m.set k p) = ((S.map K).view h m).set k (S.view h p) := by
  refine GoMap.ext_get? fun j => ?_
  rw [get?_view, GoMap.get?_set, GoMap.get?_set, get?_view]
  split <;> rfl

theorem cells_set (h : Heap V) (m : GoMap K P) (k : K) (p : P) :
    (S.map K).cells h (m.set k p) ⊆ (S.map K).cells h m ∪ S.cells h p := by
  rintro c ⟨j, q, hq, hc⟩
  rw [GoMap.get?_set] at hq
  split at hq
  · cases hq
    exact Or.inr hc
  · exact Or.inl ⟨j, q, hq, hc⟩

theorem view_deleteWhere (h : Heap V) (m : GoMap K P) (test : K → Bool) (keys : List K) :
    (S.map K).view h (m.deleteWhere test keys) = ((S.map K).view h m).deleteWhere test keys := by
  refine GoMap.ext_get? fun k => ?_
  rw [get?_view, GoMap.get?_deleteWhere, GoMap.get?_deleteWhere, get?_view]
  split <;> rfl

theorem cells_deleteWhere (h : Heap V) (m : GoMap K P) (test : K → Bool) (keys : List K) :
    (S.map K).cells h (m.deleteWhere test keys) ⊆ (S.map K).cells h m := by
  rintro c ⟨k, p, hp, hc⟩
  rw [GoMap.get?_deleteWhere] at hp
  split at hp
  · cases hp
  · exact ⟨k, p, hp, hc⟩

/-- Setting one by one and reading, in either order. -/
theorem view_setAll (h : Heap V) (key : P → K) (key' : A → K)
    (hkey : ∀ p, key' (S.view h p) = key p) (ps : List P) (m : GoMap K P) :
    (S.map K).view h (m.setAll key ps) =
      ((S.map K).view h m).setAll key' (S.list.view h ps) := by
  induction ps generalizing m with
  | nil => rfl
  | cons p ps ih =>
    refine (ih (m.set (key p) p)).trans ?_
    rw [view_set, ← hkey p]
    rfl

/-- Setting one by one adds the cells of what is set. -/
theorem cells_setAll (h : Heap V) (key : P → K) (ps : List P) (m : GoMap K P) :
    (S.map K).cells h (m.setAll key ps) ⊆ (S.map K).cells h m ∪ S.list.cells h ps := by
  induction ps generalizing m with
  | nil => exact fun c hc => Or.inl hc
  | cons p ps ih =>
    intro c hc
    rcases ih (m.set (key p) p) hc with hc | ⟨q, hq, hc⟩
    · rcases cells_set h m (key p) p hc with hc | hc
      · exact Or.inl hc
      · exact Or.inr ⟨p, List.mem_cons_self, hc⟩
    · exact Or.inr ⟨q, List.mem_cons_of_mem p hq, hc⟩

end Shape

end EthIndexer
