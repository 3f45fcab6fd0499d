import EthIndexer.Common.Steps
import EthIndexer.Common.Transactions
import Mathlib.Data.Nat.Basic
import Mathlib.Order.Basic
/-!
# Orderly calls are serializable

Whatever the order in which the commands of many clients are answered,
the contents are those that the committed calls leave one after the other
(`Reachable.serial`), and what a call answers is what it answers alone, on
contents that were committed between its beginning and its end
(`Reachable.answered`). Nor do the clients block each other for good
(`Reachable.completes`).

A client has come to one of six stages (`Stage`), and in each of them it
is said how what is left of the call compares with the whole call run
alone. A step of one client moves it from stage to stage (`Inv.serve`);
the others stay at theirs, since nobody else commits while a client holds
the lock (`Stage.frame`).
-/

namespace EthIndexer

namespace Database

variable {Q : Type} {A : Q → Type} {U E ε α σ : Type} (db : Database Q A U E σ) {ι M : Type}

/-! ## Versions -/

section Versions

variable {db} {program : M → Program A U E ε α} {s₀ : σ}

theorem version_length (log : List (ι × M)) :
    db.version program s₀ log log.length = db.serial program s₀ log := by
  rw [version, List.take_length]

/-- Versions do not change when more is committed. -/
theorem version_of_isPrefix {log log' : List (ι × M)} (h : log <+: log') {v : ℕ}
    (hv : v ≤ log.length) : db.version program s₀ log' v = db.version program s₀ log v := by
  obtain ⟨l, rfl⟩ := h
  rw [version, version, List.take_append_of_le_length hv]

/-- One more transaction, after the others. -/
theorem serial_concat (log : List (ι × M)) (c : ι × M) :
    db.serial program s₀ (log ++ [c]) =
      (db.alone program c.2 (db.serial program s₀ log)).2.contents := by
  rw [serial, List.foldl_append]
  rfl

end Versions

/-! ## What has been done of a call -/

section Stages

variable (program : M → Program A U E ε α)

/-- The contents that the holder of the lock sees. -/
inductive View (d : Shared ι σ M) : Option (ℕ × σ) → σ → Prop
  | clean : View d none d.contents
  | changed {s : σ} : View d (some (d.log.length, s)) s

/-- The contents were committed since the client's call began. -/
def Since (s₀ : σ) (d : Shared ι σ M) (c : Client A U E ε α σ M) (s : σ) : Prop :=
  ∃ v, c.since ≤ v ∧ v ≤ d.log.length ∧ db.version program s₀ d.log v = s

/-- **The stages of a call.** What is left of it answers as the whole call
does alone: on any contents as long as it has seen none, then on the
contents it has seen. A client that has taken the lock has seen what is
committed now. -/
inductive Stage (s₀ : σ) (d : Shared ι σ M) (i : ι) (c : Client A U E ε α σ M) : Phase → Prop
  | start (hrest : c.rest = program c.call) (htx : c.tx = none) : Stage s₀ d i c .start
  | reading {snapshot : Option σ} (htx : c.tx = some (.reading snapshot))
      (hsnapshot : ∀ s ∈ snapshot, db.Since program s₀ d c s)
      (hrun : ∀ s, (∀ s' ∈ snapshot, s' = s) →
        db.alone program c.call s = c.rest.run db.solo ⟨s, some s⟩) : Stage s₀ d i c .reading
  | opened (htx : c.tx = some (.writing none))
      (hrun : ∀ s, db.alone program c.call s = c.rest.run db.solo ⟨s, some s⟩) :
      Stage s₀ d i c .opened
  | locked {written : Option (ℕ × σ)} {s : σ} (htx : c.tx = some (.writing written))
      (hheld : d.holder = some i) (hview : View d written s)
      (hrun : db.alone program c.call d.contents = c.rest.run db.solo ⟨d.contents, some s⟩) :
      Stage s₀ d i c .locked
  | failed {t : Tx σ} {s view : σ} (htx : c.tx = some t) (hs : db.Since program s₀ d c s)
      (hrun : db.alone program c.call s = c.rest.run db.solo ⟨s, some view⟩) :
      Stage s₀ d i c .failed
  | done {x : Except ε α} (htx : c.tx = none) (hrest : c.rest = .ret x)
      (hanswer : db.Answered program s₀ d i c x) : Stage s₀ d i c .done

/-- A client is at one of the stages, and orderly from there on. -/
def Stands (s₀ : σ) (d : Shared ι σ M) (i : ι) (c : Client A U E ε α σ M) : Prop :=
  ∃ phase, Orderly phase c.rest ∧ db.Stage program s₀ d i c phase

/-- What every step keeps. -/
structure Inv (s₀ : σ) (d : State ι A U E ε α σ M) : Prop where
  serial : d.contents = db.serial program s₀ d.log
  since : ∀ i, (d.client i).since ≤ d.log.length
  stands : ∀ i, db.Stands program s₀ d.toShared i (d.client i)
  held : ∀ i, d.holder = some i → (d.client i).tx ≠ none

end Stages

section Proofs

variable {db} {program : M → Program A U E ε α} {s₀ : σ} {d : State ι A U E ε α σ M}
  {d₁ : Shared ι σ M} {i j : ι} {c : Client A U E ε α σ M}

/-- A transaction that writes sees one state. -/
theorem View.eq_of_sees {d : Shared ι σ M} {written : Option (ℕ × σ)} {s s' : σ}
    (h : View d written s) (hsees : Sees d (.writing written) s') : s' = s := by
  cases h with
  | clean =>
    cases hsees
    rfl
  | changed =>
    cases hsees with
    | own => rfl
    | mixed hne => exact absurd rfl hne

theorem exists_sees (d : Shared ι σ M) (t : Tx σ) : ∃ s, Sees d t s := by
  cases t with
  | reading snapshot =>
    cases snapshot with
    | none => exact ⟨_, .fresh⟩
    | some s => exact ⟨s, .snapshot⟩
  | writing written =>
    cases written with
    | none => exact ⟨_, .committed⟩
    | some w =>
      obtain ⟨n, s⟩ := w
      by_cases hn : n = d.log.length
      · subst hn
        exact ⟨s, .own⟩
      · exact ⟨s, .mixed hn⟩

/-- A state seen since a call began stays one. -/
theorem Since.frame {d : Shared ι σ M} {s : σ} (h : db.Since program s₀ d c s)
    (hlog : d.log <+: d₁.log) : db.Since program s₀ d₁ c s := by
  obtain ⟨v, hsince, hv, hs⟩ := h
  exact ⟨v, hsince, hv.trans hlog.length_le, by rw [version_of_isPrefix hlog hv, hs]⟩

theorem Answered.frame {d : Shared ι σ M} {x : Except ε α}
    (h : db.Answered program s₀ d i c x) (hlog : d.log <+: d₁.log) :
    db.Answered program s₀ d₁ i c x := by
  obtain ⟨v, s', hsince, hv, hrun, hs'⟩ := h
  have hversion : db.version program s₀ d₁.log v = db.version program s₀ d.log v :=
    version_of_isPrefix hlog hv
  refine ⟨v, s', hsince, hv.trans hlog.length_le, by rw [hversion, hrun], ?_⟩
  rw [hversion]
  refine hs'.imp_right fun hlogged => ?_
  obtain ⟨l, hl⟩ := hlog
  have hlt : v < d.log.length := (List.getElem?_eq_some_iff.1 hlogged).1
  rw [← hl, List.getElem?_append_left hlt, hlogged]

/-- What the others do leaves a client where it is: the log grows at its
end, and nothing changes while the client holds the lock. -/
theorem Stage.frame {d : Shared ι σ M} {phase : Phase} (h : db.Stage program s₀ d j c phase)
    (hlog : d.log <+: d₁.log) (hheld : d.holder = some j → d₁ = d) :
    db.Stage program s₀ d₁ j c phase := by
  cases h with
  | start hrest htx => exact .start hrest htx
  | reading htx hsnapshot hrun =>
    exact .reading htx (fun s hs => (hsnapshot s hs).frame hlog) hrun
  | opened htx hrun => exact .opened htx hrun
  | locked htx hj hview hrun =>
    rw [hheld hj]
    exact .locked htx hj hview hrun
  | failed htx hs hrun => exact .failed htx (hs.frame hlog) hrun
  | done htx hrest hanswer => exact .done htx hrest (hanswer.frame hlog)

/-- A call that has come to its end and has changed nothing. -/
theorem stands_of_done {d : Shared ι σ M} {rest : Program A U E ε α} {s : σ}
    (hc : Orderly .done rest) (hs : db.Since program s₀ d c s)
    (hrun : db.alone program c.call s = rest.run db.solo ⟨s, none⟩) :
    db.Stands program s₀ d i { c with rest := rest, tx := none } := by
  obtain ⟨x, rfl⟩ := hc.eq_ret
  obtain ⟨v, hsince, hv, rfl⟩ := hs
  exact ⟨.done, hc, .done rfl rfl ⟨v, _, hsince, hv, hrun, Or.inl rfl⟩⟩

/-- What is committed now was committed since any call began. -/
theorem Inv.since_now (h : Inv db program s₀ d) :
    db.Since program s₀ d.toShared (d.client i) d.contents :=
  ⟨d.log.length, h.since i, le_refl _, by rw [version_length, h.serial]⟩

/-- What a client under repeatable read sees. -/
theorem Inv.since_of_sees (h : Inv db program s₀ d) {snapshot : Option σ} {s : σ}
    (hsnapshot : ∀ s ∈ snapshot, db.Since program s₀ d.toShared (d.client i) s)
    (hsees : Sees d.toShared (.reading snapshot) s) :
    (∀ s' ∈ snapshot, s' = s) ∧ db.Since program s₀ d.toShared (d.client i) s := by
  cases hsees with
  | snapshot => exact ⟨fun s' hs' => (Option.some.inj hs').symm, hsnapshot s rfl⟩
  | fresh => exact ⟨fun s' hs' => absurd hs' (Option.not_mem_none _), h.since_now⟩

section Moves

variable [DecidableEq ι]

/-- Client `i` is somewhere else, and the others stay where they are. -/
theorem Inv.put (h : Inv db program s₀ d)
    (hserial : d₁.contents = db.serial program s₀ d₁.log) (hlog : d.log <+: d₁.log)
    (hframe : ∀ j, j ≠ i → d.holder = some j → d₁ = d.toShared)
    (hheld : ∀ j, d₁.holder = some j → if j = i then c.tx ≠ none else d.holder = some j)
    (hsince : c.since ≤ d₁.log.length) (hstands : db.Stands program s₀ d₁ i c) :
    Inv db program s₀ ⟨d₁, Function.update d.client i c⟩ where
  serial := hserial
  since j := by
    by_cases hj : j = i
    · subst hj
      simp only [Function.update_self]
      exact hsince
    · simp only [Function.update_of_ne hj]
      exact (h.since j).trans hlog.length_le
  stands j := by
    by_cases hj : j = i
    · subst hj
      simp only [Function.update_self]
      exact hstands
    · simp only [Function.update_of_ne hj]
      obtain ⟨phase, hc, hstage⟩ := h.stands j
      exact ⟨phase, hc, hstage.frame hlog (hframe j hj)⟩
  held j hj := by
    have hkept := hheld j hj
    by_cases hji : j = i
    · subst hji
      rw [if_pos rfl] at hkept
      simp only [Function.update_self]
      exact hkept
    · rw [if_neg hji] at hkept
      simp only [Function.update_of_ne hji]
      exact h.held j hkept

/-- Client `i` goes on with its call. -/
theorem Inv.move (h : Inv db program s₀ d) {rest : Program A U E ε α} {tx : Option (Tx σ)}
    (hserial : d₁.contents = db.serial program s₀ d₁.log) (hlog : d.log <+: d₁.log)
    (hframe : ∀ j, j ≠ i → d.holder = some j → d₁ = d.toShared)
    (hheld : ∀ j, d₁.holder = some j → if j = i then tx ≠ none else d.holder = some j)
    (hstands : db.Stands program s₀ d₁ i { d.client i with rest := rest, tx := tx }) :
    Inv db program s₀ (d.move i d₁ rest tx) :=
  h.put hserial hlog hframe hheld ((h.since i).trans hlog.length_le) hstands

/-- A step that leaves everything shared as it is. -/
theorem Inv.stay (h : Inv db program s₀ d) {rest : Program A U E ε α} {tx : Option (Tx σ)}
    (htx : (d.client i).tx ≠ none → tx ≠ none)
    (hstands : db.Stands program s₀ d.toShared i { d.client i with rest := rest, tx := tx }) :
    Inv db program s₀ (d.move i d.toShared rest tx) := by
  refine h.move h.serial (List.prefix_refl _) (fun _ _ _ => rfl) (fun j hj => ?_) hstands
  by_cases hji : j = i
  · subst hji
    rw [if_pos rfl]
    exact htx (h.held j hj)
  · rw [if_neg hji]
    exact hj

/-- Releasing the lock takes it from nobody else. -/
theorem holder_release {d : Shared ι σ M} (hj : (d.release i).holder = some j) :
    j ≠ i ∧ d.holder = some j := by
  rw [Shared.release] at hj
  by_cases hi : d.holder = some i
  · simp only [if_pos hi] at hj
    cases hj
  · simp only [if_neg hi] at hj
    refine ⟨?_, hj⟩
    rintro rfl
    exact hi hj

theorem release_of_holder {d : Shared ι σ M} (hj : d.holder = some j) (hji : j ≠ i) :
    d.release i = d := by
  rw [Shared.release, hj, if_neg (fun h => hji (Option.some.inj h)), ← hj]

/-- The transaction of client `i` ends without a change. -/
theorem Inv.drop (h : Inv db program s₀ d) (hsince : c.since ≤ d.log.length)
    (hstands : db.Stands program s₀ (d.toShared.release i) i c) :
    Inv db program s₀ ⟨d.toShared.release i, Function.update d.client i c⟩ := by
  refine h.put h.serial (List.prefix_refl _) (fun j hji hj => release_of_holder hj hji)
    (fun j hj => ?_) hsince hstands
  obtain ⟨hji, hj⟩ := holder_release hj
  rw [if_neg hji]
  exact hj

theorem Inv.close (h : Inv db program s₀ d) {rest : Program A U E ε α}
    (hstands : db.Stands program s₀ (d.toShared.release i) i
      { d.client i with rest := rest, tx := none }) :
    Inv db program s₀ (d.move i (d.toShared.release i) rest none) :=
  h.drop (h.since i) hstands

end Moves

/-! ## What is known at a command -/

theorem Inv.at_begin (h : Inv db program s₀ d) {isolation : Isolation} {fault : Option E}
    {k : Except E Unit → Program A U E ε α}
    (hrest : (d.client i).rest = .call (.begin isolation fault) k) :
    Orderly .start (.call (.begin isolation fault) k : Program A U E ε α) ∧
      (d.client i).tx = none ∧ ∀ s, db.alone program (d.client i).call s =
        (.call (.begin isolation fault) k : Program A U E ε α).run db.solo ⟨s, none⟩ := by
  obtain ⟨phase, hc, hstage⟩ := h.stands i
  rw [hrest] at hc
  cases hstage with
  | start hcall htx => exact ⟨hc, htx, fun s => by rw [alone, ← hcall, hrest]⟩
  | reading => exact hc.elim
  | opened => exact hc.elim
  | locked => exact hc.elim
  | failed => exact hc.elim
  | done => exact hc.elim

theorem Inv.at_lock (h : Inv db program s₀ d) {fault : Option E}
    {k : Except E Unit → Program A U E ε α}
    (hrest : (d.client i).rest = .call (.lock fault) k) :
    Orderly .opened (.call (.lock fault) k : Program A U E ε α) ∧
      (d.client i).tx = some (.writing none) ∧
      ∀ s, db.alone program (d.client i).call s =
        (.call (.lock fault) k : Program A U E ε α).run db.solo ⟨s, some s⟩ := by
  obtain ⟨phase, hc, hstage⟩ := h.stands i
  rw [hrest] at hc
  cases hstage with
  | opened htx hrun =>
    rw [hrest] at hrun
    exact ⟨hc, htx, hrun⟩
  | start => exact hc.elim
  | reading => exact hc.elim
  | locked => exact hc.elim
  | failed => exact hc.elim
  | done => exact hc.elim

/-- A client that writes holds the lock. -/
theorem Inv.at_execute (h : Inv db program s₀ d) {u : U} {k : Except E Unit → Program A U E ε α}
    (hrest : (d.client i).rest = .call (.execute u) k) :
    Orderly .locked (.call (.execute u) k : Program A U E ε α) ∧ d.holder = some i ∧
      ∃ written s, (d.client i).tx = some (.writing written) ∧ View d.toShared written s ∧
        db.alone program (d.client i).call d.contents =
          (.call (.execute u) k : Program A U E ε α).run db.solo ⟨d.contents, some s⟩ := by
  obtain ⟨phase, hc, hstage⟩ := h.stands i
  rw [hrest] at hc
  cases hstage with
  | locked htx hheld hview hrun =>
    rw [hrest] at hrun
    exact ⟨hc, hheld, _, _, htx, hview, hrun⟩
  | start => exact hc.elim
  | reading => exact hc.elim
  | opened => exact hc.elim
  | failed => exact hc.elim
  | done => exact hc.elim

/-- A client that has returned has no transaction. -/
theorem Inv.tx_of_ret (h : Inv db program s₀ d) {x : Except ε α}
    (hrest : (d.client i).rest = .ret x) : (d.client i).tx = none := by
  obtain ⟨phase, hc, hstage⟩ := h.stands i
  rw [hrest] at hc
  cases hstage with
  | start _ htx => exact htx
  | done htx => exact htx
  | reading => exact hc.elim
  | opened => exact hc.elim
  | locked => exact hc.elim
  | failed => exact hc.elim

/-- A client that has nothing to read or to return is in a
transaction. -/
theorem Inv.tx_of_call (h : Inv db program s₀ d) {cmd : Command Q U E}
    {k : Reply A U E cmd → Program A U E ε α} (hrest : (d.client i).rest = .call cmd k)
    (hstart : ¬ Orderly .start (.call cmd k)) : ∃ t, (d.client i).tx = some t := by
  obtain ⟨phase, hc, hstage⟩ := h.stands i
  rw [hrest] at hc
  cases hstage with
  | start => exact absurd hc hstart
  | reading htx => exact ⟨_, htx⟩
  | opened htx => exact ⟨_, htx⟩
  | locked htx => exact ⟨_, htx⟩
  | failed htx => exact ⟨_, htx⟩
  | done => cases cmd <;> exact hc.elim

/-! ## One step -/

section Serve

variable [DecidableEq ι]

theorem Inv.serve_begin (h : Inv db program s₀ d) {isolation : Isolation}
    {k : Except E Unit → Program A U E ε α}
    (hrest : (d.client i).rest = .call (.begin isolation none) k) :
    Inv db program s₀ (d.move i d.toShared (k (.ok ())) (some (.opening isolation))) := by
  obtain ⟨hc, -, hrun⟩ := h.at_begin hrest
  refine h.stay (fun _ => Option.some_ne_none _) ?_
  cases isolation with
  | readCommitted => exact ⟨.opened, hc.1, .opened rfl hrun⟩
  | repeatableRead =>
    exact ⟨.reading, hc.1, .reading rfl (fun s hs => absurd hs (Option.not_mem_none s))
      fun s _ => hrun s⟩

theorem Inv.serve_beginFails (h : Inv db program s₀ d) {isolation : Isolation} {e : E}
    {k : Except E Unit → Program A U E ε α}
    (hrest : (d.client i).rest = .call (.begin isolation (some e)) k)
    (htx : (d.client i).tx = none) :
    Inv db program s₀ (d.move i d.toShared (k (.error e)) none) := by
  obtain ⟨hc, -, hrun⟩ := h.at_begin hrest
  refine h.stay (fun hne => absurd htx hne) (stands_of_done ?_ h.since_now (hrun _))
  cases isolation with
  | readCommitted => exact hc.2 e
  | repeatableRead => exact hc.2 e

theorem Inv.serve_lock (h : Inv db program s₀ d) {k : Except E Unit → Program A U E ε α}
    {written : Option (ℕ × σ)} (hrest : (d.client i).rest = .call (.lock none) k)
    (htx : (d.client i).tx = some (.writing written))
    (hfree : d.holder = none ∨ d.holder = some i) :
    Inv db program s₀ (d.move i { d.toShared with holder := some i } (k (.ok ()))
      (some (.writing written))) := by
  obtain ⟨hc, htx', hrun⟩ := h.at_lock hrest
  cases Option.some.inj (htx.symm.trans htx')
  refine h.move h.serial (List.prefix_refl _) (fun j hji hj => ?_) (fun j hj => ?_)
    ⟨.locked, hc.1, .locked rfl rfl .clean (hrun _)⟩
  · -- another holder would keep `i` waiting
    rcases hfree with hnone | hi
    · rw [hnone] at hj
      cases hj
    · exact absurd (Option.some.inj (hj.symm.trans hi)) hji
  · cases hj
    rw [if_pos rfl]
    exact Option.some_ne_none _

theorem Inv.serve_lockFails (h : Inv db program s₀ d) {e : E}
    {k : Except E Unit → Program A U E ε α} {t : Tx σ}
    (hrest : (d.client i).rest = .call (.lock (some e)) k) :
    Inv db program s₀ (d.move i d.toShared (k (.error e)) (some t)) := by
  obtain ⟨hc, -, hrun⟩ := h.at_lock hrest
  exact h.stay (fun _ => Option.some_ne_none _)
    ⟨.failed, hc.2 e, .failed rfl h.since_now (hrun _)⟩

/-- **A query in a transaction** sees what the transaction sees. -/
theorem Inv.serve_query (h : Inv db program s₀ d) {q : Q} {k : Except E (A q) → Program A U E ε α}
    {t : Tx σ} {s : σ} (hrest : (d.client i).rest = .call (.query q) k)
    (htx : (d.client i).tx = some t) (hsees : Sees d.toShared t s) :
    Inv db program s₀ (d.move i d.toShared (k (db.select q s)) (some (t.read s))) := by
  refine h.stay (fun _ => Option.some_ne_none _) ?_
  obtain ⟨phase, hc, hstage⟩ := h.stands i
  rw [hrest] at hc
  cases hstage with
  | start _ htx' =>
    rw [htx'] at htx
    cases htx
  | reading htx' hsnapshot hrun =>
    cases Option.some.inj (htx.symm.trans htx')
    obtain ⟨hsame, hs⟩ := h.since_of_sees hsnapshot hsees
    have hnext : db.alone program (d.client i).call s =
        (k (db.select q s)).run db.solo ⟨s, some s⟩ := by
      rw [hrun s hsame, hrest]
      rfl
    cases hselect : db.select q s with
    | error e =>
      rw [hselect] at hnext
      exact ⟨.failed, hc.2 e, .failed rfl hs hnext⟩
    | ok a =>
      rw [hselect] at hnext
      refine ⟨.reading, hc.1 a, .reading rfl (fun s' hs' => ?_) fun s' hs' => ?_⟩
      · cases hs'
        exact hs
      · cases hs' s rfl
        exact hnext
  | locked htx' hheld hview hrun =>
    cases Option.some.inj (htx.symm.trans htx')
    cases hview.eq_of_sees hsees
    have hnext : db.alone program (d.client i).call d.contents =
        (k (db.select q s)).run db.solo ⟨d.contents, some s⟩ := by
      rw [hrun, hrest]
      rfl
    cases hselect : db.select q s with
    | error e =>
      rw [hselect] at hnext
      exact ⟨.failed, hc.2 e, .failed rfl h.since_now hnext⟩
    | ok a =>
      rw [hselect] at hnext
      exact ⟨.locked, hc.1 a, .locked rfl hheld hview hnext⟩
  | opened => exact hc.elim
  | failed => exact hc.elim
  | done => exact hc.elim

/-- A query on its own sees what is committed. -/
theorem Inv.serve_queryAlone (h : Inv db program s₀ d) {q : Q}
    {k : Except E (A q) → Program A U E ε α} (hrest : (d.client i).rest = .call (.query q) k)
    (htx : (d.client i).tx = none) :
    Inv db program s₀ (d.move i d.toShared (k (db.select q d.contents)) none) := by
  refine h.stay (fun hne => absurd htx hne) ?_
  obtain ⟨phase, hc, hstage⟩ := h.stands i
  rw [hrest] at hc
  cases hstage with
  | start hcall _ =>
    refine stands_of_done (hc _) h.since_now ?_
    rw [alone, ← hcall, hrest]
    rfl
  | reading htx' => cases htx.symm.trans htx'
  | locked htx' => cases htx.symm.trans htx'
  | opened => exact hc.elim
  | failed => exact hc.elim
  | done => exact hc.elim

/-- A statement writes to its transaction alone. -/
theorem Inv.serve_execute (h : Inv db program s₀ d) {u : U}
    {k : Except E Unit → Program A U E ε α} {written : Option (ℕ × σ)} {s s' : σ}
    (hrest : (d.client i).rest = .call (.execute u) k)
    (htx : (d.client i).tx = some (.writing written))
    (hsees : Sees d.toShared (.writing written) s) (hu : db.execute u s = .ok s') :
    Inv db program s₀
      (d.move i d.toShared (k (.ok ())) (some (.writing (some (d.log.length, s'))))) := by
  obtain ⟨hc, hheld, _, _, htx', hview, hrun⟩ := h.at_execute hrest
  cases Option.some.inj (htx.symm.trans htx')
  cases hview.eq_of_sees hsees
  refine h.stay (fun _ => Option.some_ne_none _)
    ⟨.locked, hc.1, .locked rfl hheld .changed ?_⟩
  rw [hrun, Session.run, solo, Solo.seen_some, hu]
  rfl

theorem Inv.serve_executeFails (h : Inv db program s₀ d) {u : U}
    {k : Except E Unit → Program A U E ε α} {written : Option (ℕ × σ)} {s : σ} {e : E}
    (hrest : (d.client i).rest = .call (.execute u) k)
    (htx : (d.client i).tx = some (.writing written))
    (hsees : Sees d.toShared (.writing written) s) (hu : db.execute u s = .error e) :
    Inv db program s₀ (d.move i d.toShared (k (.error e)) (some (.writing written))) := by
  obtain ⟨hc, -, _, _, htx', hview, hrun⟩ := h.at_execute hrest
  cases Option.some.inj (htx.symm.trans htx')
  cases hview.eq_of_sees hsees
  have hnext : db.alone program (d.client i).call d.contents =
      (k (.error e)).run db.solo ⟨d.contents, some s⟩ := by
    rw [hrun, Session.run, solo, Solo.seen_some, hu]
  exact h.stay (fun _ => Option.some_ne_none _)
    ⟨.failed, hc.2 e, .failed rfl h.since_now hnext⟩

/-- The changes of client `i` are committed, and its transaction ends. -/
theorem Inv.publish (h : Inv db program s₀ d) {rest : Program A U E ε α} {s : σ} {n : ℕ × σ}
    (hc : Orderly .done rest) (hheld : d.holder = some i)
    (hrun : db.alone program (d.client i).call d.contents = rest.run db.solo ⟨s, none⟩) :
    Inv db program s₀ (d.move i
      ((d.toShared.publish i (d.client i).call s (.writing (some n))).release i) rest none) := by
  obtain ⟨x, rfl⟩ := hc.eq_ret
  refine h.move ?_ (List.prefix_append _ _) (fun j hji hj => ?_) (fun j hj => ?_) ?_
  · change s = db.serial program s₀ (d.log ++ [(i, (d.client i).call)])
    rw [serial_concat, ← h.serial, hrun]
    rfl
  · exact absurd (Option.some.inj (hj.symm.trans hheld)) hji
  · obtain ⟨hji, hj⟩ := holder_release hj
    exact absurd (Option.some.inj (hj.symm.trans hheld)) hji
  · -- the call is the next one in the log
    refine ⟨.done, hc, .done rfl rfl ⟨d.log.length, s, h.since i, ?_, ?_, Or.inr ?_⟩⟩
    · exact (List.prefix_append _ _).length_le
    · change db.alone program _ (db.version program s₀ (d.log ++ [_]) d.log.length) = _
      rw [version_of_isPrefix (List.prefix_append _ _) (le_refl _), version_length, ← h.serial]
      exact hrun
    · exact List.getElem?_concat_length

/-- **A commit** adds the transaction to the log, whatever is answered. -/
theorem Inv.serve_commit (h : Inv db program s₀ d) {fault : Option (E × Bool)}
    {k : Except E Unit → Program A U E ε α} {t : Tx σ} {s : σ}
    (hrest : (d.client i).rest = .call (.commit fault) k) (htx : (d.client i).tx = some t)
    (hsees : Sees d.toShared t s) (happlied : Applied fault = true) :
    Inv db program s₀ (d.move i ((d.toShared.publish i (d.client i).call s t).release i)
      (k (outcome (fault.map Prod.fst))) none) := by
  obtain ⟨phase, hc, hstage⟩ := h.stands i
  rw [hrest] at hc
  cases hstage with
  | start _ htx' => cases htx.symm.trans htx'
  | reading htx' hsnapshot hrun =>
    cases Option.some.inj (htx.symm.trans htx')
    obtain ⟨hsame, hs⟩ := h.since_of_sees hsnapshot hsees
    refine h.close (stands_of_done (hc _) hs ?_)
    rw [hrun s hsame, hrest, Session.run, solo, if_pos happlied, Solo.seen_some]
  | locked htx' hheld hview hrun =>
    cases Option.some.inj (htx.symm.trans htx')
    cases hview.eq_of_sees hsees
    have hnext : db.alone program (d.client i).call d.contents =
        (k (outcome (fault.map Prod.fst))).run db.solo ⟨s, none⟩ := by
      rw [hrun, hrest, Session.run, solo, if_pos happlied, Solo.seen_some]
    cases hview with
    | clean => exact h.close (stands_of_done (hc _) h.since_now hnext)
    | changed => exact h.publish (hc _) hheld hnext
  | opened => exact hc.elim
  | failed => exact hc.elim
  | done => exact hc.elim

/-- The transaction of client `i` ends, and nothing of it is left. -/
theorem Inv.abandon (h : Inv db program s₀ d) {cmd : Command Q U E}
    {k : Reply A U E cmd → Program A U E ε α} {x : Reply A U E cmd} {t : Tx σ}
    (hrest : (d.client i).rest = .call cmd k) (htx : (d.client i).tx = some t)
    (hsolo : ∀ s view, db.solo cmd ⟨s, some view⟩ = (x, ⟨s, none⟩))
    (hdone : ∀ phase, Orderly phase (.call cmd k) → Orderly .done (k x))
    (hopened : ¬ Orderly .opened (.call cmd k)) :
    Inv db program s₀ (d.move i (d.toShared.release i) (k x) none) := by
  obtain ⟨phase, hc, hstage⟩ := h.stands i
  rw [hrest] at hc
  refine h.close ?_
  have hrunCall : ∀ s view, (Session.call cmd k).run db.solo ⟨s, some view⟩ =
      (k x).run db.solo ⟨s, none⟩ := by
    intro s view
    rw [Session.run, hsolo]
  cases hstage with
  | start _ htx' => cases htx.symm.trans htx'
  | @reading snapshot _ hsnapshot hrun =>
    obtain ⟨s, hsees⟩ := exists_sees d.toShared (.reading snapshot)
    obtain ⟨hsame, hs⟩ := h.since_of_sees hsnapshot hsees
    refine stands_of_done (hdone _ hc) hs ?_
    rw [hrun s hsame, hrest, hrunCall]
  | opened => exact absurd hc hopened
  | locked _ _ _ hrun =>
    refine stands_of_done (hdone _ hc) h.since_now ?_
    rw [hrun, hrest, hrunCall]
  | failed _ hs hrun =>
    refine stands_of_done (hdone _ hc) hs ?_
    rw [hrun, hrest, hrunCall]
  | done htx' => cases htx.symm.trans htx'

/-- A commit that did not take place adds nothing. -/
theorem Inv.serve_commitFails (h : Inv db program s₀ d) {fault : Option (E × Bool)}
    {k : Except E Unit → Program A U E ε α} {t : Tx σ}
    (hrest : (d.client i).rest = .call (.commit fault) k) (htx : (d.client i).tx = some t)
    (happlied : Applied fault = false) :
    Inv db program s₀
      (d.move i (d.toShared.release i) (k (outcome (fault.map Prod.fst))) none) := by
  refine h.abandon hrest htx (fun s view => ?_) (fun phase hc => ?_) id
  · rw [solo, happlied, if_neg Bool.false_ne_true]
  · cases phase with
    | reading => exact hc _
    | locked => exact hc _
    | start => exact hc.elim
    | opened => exact hc.elim
    | failed => exact hc.elim
    | done => exact hc.elim

theorem Inv.serve_rollback (h : Inv db program s₀ d) {k : Unit → Program A U E ε α} {t : Tx σ}
    (hrest : (d.client i).rest = .call .rollback k) (htx : (d.client i).tx = some t) :
    Inv db program s₀ (d.move i (d.toShared.release i) (k ()) none) := by
  refine h.abandon hrest htx (fun s view => rfl) (fun phase hc => ?_) id
  cases phase with
  | reading => exact hc
  | locked => exact hc
  | failed => exact hc
  | start => exact hc.elim
  | opened => exact hc.elim
  | done => exact hc.elim

/-- **The step lemma.** -/
theorem Inv.serve (h : Inv db program s₀ d) {d' : State ι A U E ε α σ M}
    (hserve : Serve db i d d') : Inv db program s₀ d' := by
  cases hserve with
  | begin hrest _ => exact h.serve_begin hrest
  | beginFails hrest htx => exact h.serve_beginFails hrest htx
  | lock hrest htx hfree => exact h.serve_lock hrest htx hfree
  | lockFails hrest _ => exact h.serve_lockFails hrest
  | query hrest htx hsees => exact h.serve_query hrest htx hsees
  | queryAlone hrest htx => exact h.serve_queryAlone hrest htx
  | execute hrest htx hsees hu => exact h.serve_execute hrest htx hsees hu
  | executeFails hrest htx hsees hu => exact h.serve_executeFails hrest htx hsees hu
  | commit hrest htx hsees happlied => exact h.serve_commit hrest htx hsees happlied
  | commitFails hrest htx happlied => exact h.serve_commitFails hrest htx happlied
  | rollback hrest htx => exact h.serve_rollback hrest htx

/-- **The run lemma.** -/
theorem Reachable.inv (horderly : ∀ m, Orderly .start (program m))
    (h : Reachable db program s₀ d) : Inv db program s₀ d := by
  induction h with
  | init first =>
    exact ⟨rfl, fun _ => le_refl 0, fun i => ⟨.start, horderly _, .start rfl rfl⟩,
      fun i hi => by cases hi⟩
  | start _ i m ih => exact ih.drop (le_refl _) ⟨.start, horderly m, .start rfl rfl⟩
  | serve _ i hserve ih => exact ih.serve hserve

/-! ## Whole runs -/

/-- **Serializability.** The contents are those that the committed calls
leave one after the other. -/
theorem Reachable.serial (horderly : ∀ m, Orderly .start (program m))
    (h : Reachable db program s₀ d) : d.contents = db.serial program s₀ d.log :=
  (h.inv horderly).serial

/-- **Every answer** is that of the call alone, on contents that were
committed between the beginning of the call and its end. -/
theorem Reachable.answered (horderly : ∀ m, Orderly .start (program m))
    (h : Reachable db program s₀ d) {x : Except ε α} (hrest : (d.client i).rest = .ret x) :
    db.Answered program s₀ d.toShared i (d.client i) x := by
  have hinv := h.inv horderly
  obtain ⟨phase, hc, hstage⟩ := hinv.stands i
  rw [hrest] at hc
  cases hstage with
  | start hcall htx =>
    obtain ⟨v, hsince, hv, hs⟩ := hinv.since_now (i := i)
    refine ⟨v, _, hsince, hv, ?_, Or.inl rfl⟩
    rw [alone, ← hcall, hrest]
    rfl
  | done htx hret hanswer =>
    cases hrest.symm.trans hret
    exact hanswer
  | reading => exact hc.elim
  | opened => exact hc.elim
  | locked => exact hc.elim
  | failed => exact hc.elim

/-- A client is served, unless it waits for the lock of another. -/
theorem Inv.enabled (h : Inv db program s₀ d) (hrest : ∀ x, (d.client i).rest ≠ .ret x)
    (hfree : d.holder = none ∨ d.holder = some i ∨
      ∀ k, (d.client i).rest ≠ .call (.lock none) k) : ∃ d', Serve db i d d' := by
  cases hcall : (d.client i).rest with
  | ret x => exact absurd hcall (hrest x)
  | call cmd k =>
    cases cmd with
    | begin isolation fault =>
      obtain ⟨-, htx, -⟩ := h.at_begin hcall
      cases fault with
      | none => exact ⟨_, .begin hcall htx⟩
      | some e => exact ⟨_, .beginFails hcall htx⟩
    | lock fault =>
      obtain ⟨-, htx, -⟩ := h.at_lock hcall
      cases fault with
      | none =>
        rcases hfree with hnone | hi | hne
        · exact ⟨_, .lock hcall htx (Or.inl hnone)⟩
        · exact ⟨_, .lock hcall htx (Or.inr hi)⟩
        · exact absurd hcall (hne k)
      | some e => exact ⟨_, .lockFails hcall htx⟩
    | query q =>
      cases htx : (d.client i).tx with
      | none => exact ⟨_, .queryAlone hcall htx⟩
      | some t =>
        obtain ⟨s, hsees⟩ := exists_sees d.toShared t
        exact ⟨_, .query hcall htx hsees⟩
    | execute u =>
      obtain ⟨-, -, written, -, htx, -, -⟩ := h.at_execute hcall
      obtain ⟨s, hsees⟩ := exists_sees d.toShared (.writing written)
      cases hu : db.execute u s with
      | error e => exact ⟨_, .executeFails hcall htx hsees hu⟩
      | ok s' => exact ⟨_, .execute hcall htx hsees hu⟩
    | commit fault =>
      obtain ⟨t, htx⟩ := h.tx_of_call hcall id
      obtain ⟨s, hsees⟩ := exists_sees d.toShared t
      cases happlied : Applied fault with
      | true => exact ⟨_, .commit hcall htx hsees happlied⟩
      | false => exact ⟨_, .commitFails hcall htx happlied⟩
    | rollback =>
      obtain ⟨t, htx⟩ := h.tx_of_call hcall id
      exact ⟨_, .rollback hcall htx⟩

/-- What a step of client `i` can do: it answers the client's command, and
takes no lock from another. -/
theorem Serve.eq_move {d' : State ι A U E ε α σ M} (h : Serve db i d d') :
    ∃ cmd k x shared tx, (d.client i).rest = .call cmd k ∧ d' = d.move i shared (k x) tx ∧
      (d.holder = none ∨ d.holder = some i → shared.holder = none ∨ shared.holder = some i) := by
  have hrelease : ∀ shared : Shared ι σ M, shared.holder = none ∨ shared.holder = some i →
      (shared.release i).holder = none ∨ (shared.release i).holder = some i := by
    rintro shared (hnone | hi)
    · exact Or.inl (by simp [Shared.release, hnone])
    · exact Or.inl (by simp [Shared.release, hi])
  cases h with
  | begin hrest => exact ⟨_, _, _, _, _, hrest, rfl, id⟩
  | beginFails hrest => exact ⟨_, _, _, _, _, hrest, rfl, id⟩
  | lock hrest => exact ⟨_, _, _, _, _, hrest, rfl, fun _ => Or.inr rfl⟩
  | lockFails hrest => exact ⟨_, _, _, _, _, hrest, rfl, id⟩
  | query hrest => exact ⟨_, _, _, _, _, hrest, rfl, id⟩
  | queryAlone hrest => exact ⟨_, _, _, _, _, hrest, rfl, id⟩
  | execute hrest => exact ⟨_, _, _, _, _, hrest, rfl, id⟩
  | executeFails hrest => exact ⟨_, _, _, _, _, hrest, rfl, id⟩
  | @commit fault k t s hrest =>
    refine ⟨_, _, _, _, _, hrest, rfl, fun hfree => hrelease _ ?_⟩
    cases t with
    | reading => exact hfree
    | writing written => cases written <;> exact hfree
  | commitFails hrest => exact ⟨_, _, _, _, _, hrest, rfl, hrelease _⟩
  | rollback hrest => exact ⟨_, _, _, _, _, hrest, rfl, hrelease _⟩

open Relation in
/-- **A client that nobody keeps waiting finishes**, and leaves the lock
free. -/
theorem Reachable.finishes (horderly : ∀ m, Orderly .start (program m))
    (h : Reachable db program s₀ d) (hfree : d.holder = none ∨ d.holder = some i) :
    ∃ d', ReflTransGen (Serve db i) d d' ∧ d'.holder = none ∧
      (∃ x, (d'.client i).rest = .ret x) ∧ (d'.client i).call = (d.client i).call ∧
      ∀ j, j ≠ i → d'.client j = d.client j := by
  generalize hp : (d.client i).rest = p
  induction p generalizing d with
  | ret x =>
    refine ⟨d, .refl, ?_, ⟨x, hp⟩, rfl, fun _ _ => rfl⟩
    have hinv := h.inv horderly
    exact hfree.resolve_right fun hi => hinv.held i hi (hinv.tx_of_ret hp)
  | call cmd k ih =>
    obtain ⟨d₁, hserve⟩ := (h.inv horderly).enabled (fun x hx => by rw [hp] at hx; cases hx)
      (hfree.imp_right Or.inl)
    obtain ⟨_, _, x, shared, tx, hrest, rfl, hheld⟩ := hserve.eq_move
    cases hp.symm.trans hrest
    have hnext : ((d.move i shared (k x) tx).client i) = { d.client i with rest := k x, tx := tx } :=
      Function.update_self ..
    obtain ⟨d', hrun, hnone, hret, hcall, hothers⟩ :=
      ih x (h.serve i hserve) (hheld hfree) (by rw [hnext])
    rw [hnext] at hcall
    refine ⟨d', .head hserve hrun, hnone, hret, hcall, fun j hj => ?_⟩
    rw [hothers j hj]
    exact Function.update_of_ne hj ..

open Relation in
/-- **No call is blocked for good.** Let the holder of the lock finish,
and then the client. -/
theorem Reachable.completes (horderly : ∀ m, Orderly .start (program m))
    (h : Reachable db program s₀ d) (i : ι) :
    ∃ d', ReflTransGen (fun d d' => ∃ j, Serve db j d d') d d' ∧
      (∃ x, (d'.client i).rest = .ret x) ∧ (d'.client i).call = (d.client i).call := by
  have hreach : ∀ {j} {d₁ d₂ : State ι A U E ε α σ M}, Reachable db program s₀ d₁ →
      ReflTransGen (Serve db j) d₁ d₂ → Reachable db program s₀ d₂ :=
    fun h₁ hrun => Steps.invariant hrun h₁ fun h hserve => h.serve _ hserve
  have hany : ∀ {j} {d₁ d₂ : State ι A U E ε α σ M}, ReflTransGen (Serve db j) d₁ d₂ →
      ReflTransGen (fun d d' => ∃ j, Serve db j d d') d₁ d₂ :=
    fun hrun => ReflTransGen.mono (fun _ _ hserve => ⟨_, hserve⟩) _ _ hrun
  obtain ⟨d₁, hrun₁, hnone, hcall₁⟩ : ∃ d₁, ReflTransGen (fun d d' => ∃ j, Serve db j d d') d d₁ ∧
      (Reachable db program s₀ d₁ ∧ d₁.holder = none) ∧
      (d₁.client i).call = (d.client i).call := by
    cases hholder : d.holder with
    | none => exact ⟨d, .refl, ⟨h, hholder⟩, rfl⟩
    | some j =>
      obtain ⟨d₁, hrun, hnone, -, hcall, hothers⟩ := h.finishes horderly (Or.inr hholder)
      refine ⟨d₁, hany hrun, ⟨hreach h hrun, hnone⟩, ?_⟩
      by_cases hij : i = j
      · subst hij
        exact hcall
      · rw [hothers i hij]
  obtain ⟨d₂, hrun₂, -, hret, hcall₂, -⟩ := hnone.1.finishes horderly (i := i) (Or.inl hnone.2)
  exact ⟨d₂, hrun₁.trans (hany hrun₂), hret, hcall₂.trans hcall₁⟩

end Serve

end Proofs

end Database

end EthIndexer
