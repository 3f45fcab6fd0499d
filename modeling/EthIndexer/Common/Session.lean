import Mathlib.Logic.Function.Basic
/-!
# Sessions: programs that call a shared object

A session has finished, with a result or an error, or it makes one call
and goes on with the answer. The same session can be run alone, every
call answered in turn (`Session.run`), or in a pool of clients whose calls
on one object interleave freely (`Pool.Step`); nothing in it says which.

For a client in a pool the answers to its calls are arbitrary, so what
can be said of it beforehand is said of every node of the session:
`Session.Forall`. A property of all nodes is kept by every step
(`Pool.Reachable.forall`), which is how a pool inherits what holds of one
client.
-/

namespace EthIndexer

/-- A program that calls an object and may fail with an `ε`. -/
inductive Session (Req : Type) (Res : Req → Type) (ε α : Type) : Type
  | ret (result : Except ε α)
  | call (r : Req) (k : Res r → Session Req Res ε α)

namespace Session

variable {Req : Type} {Res : Req → Type} {ε α β σ : Type}

/-- Run the first session, and go on with its result unless it failed. -/
protected def bind : Session Req Res ε α → (α → Session Req Res ε β) → Session Req Res ε β
  | .ret (.error e), _ => .ret (.error e)
  | .ret (.ok a), f => f a
  | .call r k, f => .call r fun x => (k x).bind f

instance : Monad (Session Req Res ε) where
  pure a := .ret (.ok a)
  bind := Session.bind

/-- A session that calls nothing. -/
def lift (x : Except ε α) : Session Req Res ε α := .ret x

/-- One call whose answer is a result or an error. -/
def request (r : Req) (f : Res r → Except ε α) : Session Req Res ε α := .call r fun x => .ret (f x)

@[simp] theorem ret_error_bind (e : ε) (f : α → Session Req Res ε β) :
    (.ret (.error e) : Session Req Res ε α) >>= f = .ret (.error e) := rfl

@[simp] theorem ret_ok_bind (a : α) (f : α → Session Req Res ε β) :
    (.ret (.ok a) : Session Req Res ε α) >>= f = f a := rfl

@[simp] theorem call_bind (r : Req) (k : Res r → Session Req Res ε α)
    (f : α → Session Req Res ε β) : (.call r k : Session Req Res ε α) >>= f =
      .call r fun x => k x >>= f := rfl

theorem bind_assoc {γ : Type} (p : Session Req Res ε α) (f : α → Session Req Res ε β)
    (g : β → Session Req Res ε γ) : p >>= f >>= g = p >>= fun a => f a >>= g := by
  induction p with
  | ret x => cases x <;> rfl
  | call r k ih => exact congrArg (Session.call r) (funext ih)

@[simp] theorem pure_eq (a : α) : (pure a : Session Req Res ε α) = .ret (.ok a) := rfl

/-! ## Running alone -/

/-- Answer every call in turn. -/
def run (handle : (r : Req) → σ → Res r × σ) : Session Req Res ε α → σ → Except ε α × σ
  | .ret x, s => (x, s)
  | .call r k, s => (k (handle r s).1).run handle (handle r s).2

variable {handle : (r : Req) → σ → Res r × σ}

@[simp] theorem run_ret (x : Except ε α) (s : σ) :
    (.ret x : Session Req Res ε α).run handle s = (x, s) := rfl

@[simp] theorem run_lift (x : Except ε α) (s : σ) :
    (lift x : Session Req Res ε α).run handle s = (x, s) := rfl

@[simp] theorem run_request (r : Req) (f : Res r → Except ε α) (s : σ) :
    (request r f).run handle s = (f (handle r s).1, (handle r s).2) := rfl

/-- A sequence runs its parts one after the other. -/
theorem run_bind (p : Session Req Res ε α) (f : α → Session Req Res ε β) (s : σ) :
    (p >>= f).run handle s =
      match p.run handle s with
      | (.error e, s') => (.error e, s')
      | (.ok a, s') => (f a).run handle s' := by
  induction p generalizing s with
  | ret x => cases x <;> rfl
  | call r k ih => exact ih _ _

/-- How a sequence succeeds. -/
theorem run_bind_eq_ok_iff {p : Session Req Res ε α} {f : α → Session Req Res ε β} {s s'' : σ}
    {b : β} : (p >>= f).run handle s = (.ok b, s'') ↔
      ∃ a s', p.run handle s = (.ok a, s') ∧ (f a).run handle s' = (.ok b, s'') := by
  rw [run_bind]
  rcases p.run handle s with ⟨e | a, s'⟩
  · simp
  · constructor
    · exact fun h => ⟨a, s', rfl, h⟩
    · rintro ⟨a', t, hat, h⟩
      cases hat
      exact h

/-- How a sequence fails. -/
theorem run_bind_eq_error_iff {p : Session Req Res ε α} {f : α → Session Req Res ε β} {s s'' : σ}
    {e : ε} : (p >>= f).run handle s = (.error e, s'') ↔
      p.run handle s = (.error e, s'') ∨
        ∃ a s', p.run handle s = (.ok a, s') ∧ (f a).run handle s' = (.error e, s'') := by
  rw [run_bind]
  rcases p.run handle s with ⟨e' | a, s'⟩
  · simp
  · constructor
    · exact fun h => Or.inr ⟨a, s', rfl, h⟩
    · rintro (h | ⟨a', t, hat, h⟩)
      · cases h
      · cases hat
        exact h

/-! ## Every node -/

/-- Every call the session can come to, whatever it is answered, has the
property; so has what follows the call. -/
def Forall (Q : (r : Req) → (Res r → Session Req Res ε α) → Prop) : Session Req Res ε α → Prop
  | .ret _ => True
  | .call r k => Q r k ∧ ∀ x, (k x).Forall Q

variable {Q : (r : Req) → (Res r → Session Req Res ε α) → Prop}

@[simp] theorem forall_ret (x : Except ε α) : (.ret x : Session Req Res ε α).Forall Q := trivial

/-- Whatever its calls are answered, a session that succeeds returns a
`P`. -/
def Ensures (P : α → Prop) : Session Req Res ε α → Prop
  | .ret (.ok a) => P a
  | .ret (.error _) => True
  | .call _ k => ∀ x, (k x).Ensures P

theorem ensures_lift {P : α → Prop} {x : Except ε α} (h : ∀ a, x = .ok a → P a) :
    (lift x : Session Req Res ε α).Ensures P := by
  cases x with
  | error e => trivial
  | ok a => exact h a rfl

theorem ensures_true (p : Session Req Res ε α) : p.Ensures fun _ => True := by
  induction p with
  | ret x => cases x <;> trivial
  | call r k ih => exact ih

/-- A session that goes on with what the first ensures. -/
theorem Ensures.bind {P : α → Prop} {P' : β → Prop} {p : Session Req Res ε α}
    {f : α → Session Req Res ε β} (hp : p.Ensures P) (hf : ∀ a, P a → (f a).Ensures P') :
    (p >>= f).Ensures P' := by
  induction p with
  | ret x =>
    cases x with
    | error e => trivial
    | ok a => exact hf a hp
  | call r k ih => exact fun x => ih x (hp x)

/-- A session ensures what follows from what it ensures. -/
theorem Ensures.mono {P P' : α → Prop} {p : Session Req Res ε α} (hp : p.Ensures P)
    (h : ∀ a, P a → P' a) : p.Ensures P' := by
  induction p with
  | ret x =>
    cases x with
    | error e => trivial
    | ok a => exact h a hp
  | call r k ih => exact fun x => ih x (hp x)

/-- In particular when it runs alone. -/
theorem Ensures.run {P : α → Prop} {p : Session Req Res ε α} (hp : p.Ensures P) {s s' : σ} {a : α}
    (h : p.run handle s = (.ok a, s')) : P a := by
  induction p generalizing s with
  | ret x =>
    cases h
    exact hp
  | call r k ih => exact ih _ (hp _) h

/-- Every node of a sequence: those of the first part, and those of what
follows the results it can return. -/
theorem Forall.bind {P : α → Prop} {Q : (r : Req) → (Res r → Session Req Res ε β) → Prop}
    {p : Session Req Res ε α} {f : α → Session Req Res ε β}
    (hp : p.Forall fun r k => Q r fun x => k x >>= f) (hP : p.Ensures P)
    (hf : ∀ a, P a → (f a).Forall Q) : (p >>= f).Forall Q := by
  induction p with
  | ret x =>
    cases x with
    | error e => trivial
    | ok a => exact hf a hP
  | call r k ih => exact ⟨hp.1, fun x => ih x (hp.2 x) (hP x)⟩

/-- A session whose first part makes no call. -/
theorem forall_lift_bind {Q : (r : Req) → (Res r → Session Req Res ε β) → Prop} {x : Except ε α}
    {f : α → Session Req Res ε β} (h : ∀ a, x = .ok a → (f a).Forall Q) :
    ((lift x : Session Req Res ε α) >>= f).Forall Q := by
  cases x with
  | error e => trivial
  | ok a => exact h a rfl

/-- The session has not succeeded, not yet or not at all. -/
def Pending (p : Session Req Res ε α) : Prop := ∀ a, p ≠ .ret (.ok a)

@[simp] theorem pending_call (r : Req) (k : Res r → Session Req Res ε α) :
    (call r k).Pending := fun _ h => by cases h

@[simp] theorem pending_error (e : ε) : (.ret (.error e) : Session Req Res ε α).Pending :=
  fun _ h => by cases h

/-- A sequence has not succeeded before its last part has. -/
theorem pending_bind (p : Session Req Res ε α) {f : α → Session Req Res ε β}
    (h : ∀ a, (f a).Pending) : (p >>= f).Pending := by
  cases p with
  | ret x =>
    cases x with
    | error e => exact pending_error e
    | ok a => exact h a
  | call r k => exact pending_call r _

/-- As long as its calls are answered with `A`, a session that fails does
so with a `P`. -/
def FailsAs (A : (r : Req) → Res r → Prop) (P : ε → Prop) : Session Req Res ε α → Prop
  | .ret (.ok _) => True
  | .ret (.error e) => P e
  | .call r k => ∀ x, A r x → (k x).FailsAs A P

section FailsAs

variable {A : (r : Req) → Res r → Prop} {P : ε → Prop}

theorem failsAs_lift {x : Except ε α} (h : ∀ e, x = .error e → P e) :
    (lift x : Session Req Res ε α).FailsAs A P := by
  cases x with
  | error e => exact h e rfl
  | ok a => trivial

theorem FailsAs.bind {p : Session Req Res ε α} {f : α → Session Req Res ε β}
    (hp : p.FailsAs A P) (hf : ∀ a, (f a).FailsAs A P) : (p >>= f).FailsAs A P := by
  induction p with
  | ret x =>
    cases x with
    | error e => exact hp
    | ok a => exact hf a
  | call r k ih => exact fun x hx => ih x (hp x hx)

/-- **A run fails as the session does**, where the calls are answered by
the rules. -/
theorem FailsAs.run {p : Session Req Res ε α} (hp : p.FailsAs A P)
    (hA : ∀ r s, A r (handle r s).1) {s s' : σ} {e : ε}
    (h : p.run handle s = (.error e, s')) : P e := by
  induction p generalizing s with
  | ret x =>
    cases h
    exact hp
  | call r k ih => exact ih _ (hp _ (hA r s)) h

/-- The same, where the answers are an `A` as long as an invariant of the
object holds. -/
theorem FailsAs.run_of_invariant {I : σ → Prop} {p : Session Req Res ε α} (hp : p.FailsAs A P)
    (hI : ∀ r s, I s → A r (handle r s).1 ∧ I (handle r s).2) {s s' : σ} (hs : I s) {e : ε}
    (h : p.run handle s = (.error e, s')) : P e := by
  induction p generalizing s with
  | ret x =>
    cases h
    exact hp
  | call r k ih => exact ih _ (hp _ (hI r s hs).1) (hI r s hs).2 h

/-- Under stricter rules, or with a weaker conclusion. -/
theorem FailsAs.mono {A' : (r : Req) → Res r → Prop} {P' : ε → Prop} {p : Session Req Res ε α}
    (hp : p.FailsAs A P) (hA : ∀ r x, A' r x → A r x) (hP : ∀ e, P e → P' e) :
    p.FailsAs A' P' := by
  induction p with
  | ret x =>
    cases x with
    | error e => exact hP e hp
    | ok a => trivial
  | call r k ih => exact fun x hx => ih x (hp x (hA r x hx))

end FailsAs

/-- Where two ways to answer agree on all its calls, a session runs
alike. -/
theorem run_congr {handle' : (r : Req) → σ → Res r × σ} {p : Session Req Res ε α}
    (hp : p.Forall fun r _ => ∀ s, handle' r s = handle r s) (s : σ) :
    p.run handle' s = p.run handle s := by
  induction p generalizing s with
  | ret x => rfl
  | call r k ih =>
    rw [run, run, hp.1 s]
    exact ih _ (hp.2 _) _

/-- A session whose calls all leave the object alone leaves it alone. -/
theorem run_snd_of_forall {p : Session Req Res ε α}
    (hp : p.Forall fun r _ => ∀ s, (handle r s).2 = s) (s : σ) : (p.run handle s).2 = s := by
  induction p generalizing s with
  | ret x => rfl
  | call r k ih =>
    have hrec := ih (handle r s).1 (hp.2 _) (handle r s).2
    rw [hp.1] at hrec
    rw [run, hp.1]
    exact hrec

end Session

/-! ## Running in a pool -/

/-- Clients of one object: the object, and what each client has still to
do. -/
structure Pool (ι : Type) (Req : Type) (Res : Req → Type) (ε α σ : Type) where
  shared : σ
  client : ι → Session Req Res ε α

namespace Pool

open Function

variable {ι Req : Type} {Res : Req → Type} {ε α σ : Type} [DecidableEq ι]

/-- **One step of a pool.** A client that has finished starts one of the
`sessions` it may run, or a client makes its next call, answered by one of
the ways the object may answer. -/
inductive Step (sessions : Session Req Res ε α → Prop)
    (handlers : ((r : Req) → σ → Res r × σ) → Prop) :
    Pool ι Req Res ε α σ → Pool ι Req Res ε α σ → Prop
  | start {c : Pool ι Req Res ε α σ} (i : ι) {x : Except ε α} (hidle : c.client i = .ret x)
      {p : Session Req Res ε α} (hp : sessions p) :
      Step sessions handlers c ⟨c.shared, update c.client i p⟩
  | call {c : Pool ι Req Res ε α σ} (i : ι) {r : Req} {k : Res r → Session Req Res ε α}
      (hcall : c.client i = .call r k) {handle : (r : Req) → σ → Res r × σ}
      (hhandle : handlers handle) :
      Step sessions handlers c
        ⟨(handle r c.shared).2, update c.client i (k (handle r c.shared).1)⟩

/-- The pools a run comes to from an object `s` with every client idle. -/
inductive Reachable (sessions : Session Req Res ε α → Prop)
    (handlers : ((r : Req) → σ → Res r × σ) → Prop) (s : σ) : Pool ι Req Res ε α σ → Prop
  | init {client : ι → Session Req Res ε α} (h : ∀ i, ∃ x, client i = .ret x) :
      Reachable sessions handlers s ⟨s, client⟩
  | step {c c' : Pool ι Req Res ε α σ} (h : Reachable sessions handlers s c)
      (hstep : Step sessions handlers c c') : Reachable sessions handlers s c'

variable {sessions : Session Req Res ε α → Prop}
  {handlers : ((r : Req) → σ → Res r × σ) → Prop} {s : σ}
  {Q : (r : Req) → (Res r → Session Req Res ε α) → Prop} {c : Pool ι Req Res ε α σ}

theorem forall_update {client : ι → Session Req Res ε α} (h : ∀ i, (client i).Forall Q) (j : ι)
    {p : Session Req Res ε α} (hp : p.Forall Q) (i : ι) : (update client j p i).Forall Q := by
  by_cases hij : i = j
  · subst hij
    rw [update_self]
    exact hp
  · rw [update_of_ne hij]
    exact h i

/-- **A client keeps what held of its session.** -/
theorem Reachable.forall (hQ : ∀ p, sessions p → p.Forall Q)
    (h : Reachable sessions handlers s c) : ∀ i, (c.client i).Forall Q := by
  induction h with
  | init hidle =>
    intro i
    obtain ⟨x, hx⟩ := hidle i
    simp only [hx, Session.forall_ret]
  | step _ hstep ih =>
    cases hstep with
    | start j _ hp => exact forall_update ih j (hQ _ hp)
    | call j hj _ =>
      have hnode := ih j
      rw [hj] at hnode
      exact forall_update ih j (hnode.2 _)

/-- **The object keeps what every call keeps.** -/
theorem Reachable.shared {I : σ → Prop} (hQ : ∀ p, sessions p → p.Forall Q) (hinit : I s)
    (hcall : ∀ handle, handlers handle → ∀ r k s, Q r k → I s → I (handle r s).2)
    (h : Reachable sessions handlers s c) : I c.shared := by
  induction h with
  | init => exact hinit
  | step hc hstep ih =>
    cases hstep with
    | start => exact ih
    | call j hj hhandle =>
      have hnode := hc.forall hQ j
      rw [hj] at hnode
      exact hcall _ hhandle _ _ _ hnode.1 ih

/-- A client that nobody interrupts comes to the end of its session. -/
theorem Reachable.run_of_client (hc : Reachable sessions handlers s c) {i : ι}
    {p : Session Req Res ε α} (hi : c.client i = p) {handle : (r : Req) → σ → Res r × σ}
    (hhandle : handlers handle) :
    Reachable sessions handlers s
      ⟨(p.run handle c.shared).2, update c.client i (.ret (p.run handle c.shared).1)⟩ := by
  induction p generalizing c with
  | ret x =>
    rw [Session.run_ret, ← hi, update_eq_self]
    exact hc
  | call r k ih =>
    have hnext := ih _ (hc.step (.call i hi hhandle)) (update_self i _ _)
    rw [update_idem] at hnext
    exact hnext

/-- **A session run alone** is one way a pool can go. -/
theorem Reachable.run (hc : Reachable sessions handlers s c) {i : ι} {x : Except ε α}
    (hidle : c.client i = .ret x) {p : Session Req Res ε α} (hp : sessions p)
    {handle : (r : Req) → σ → Res r × σ} (hhandle : handlers handle) :
    Reachable sessions handlers s
      ⟨(p.run handle c.shared).2, update c.client i (.ret (p.run handle c.shared).1)⟩ := by
  have hrun := (hc.step (.start i hidle hp)).run_of_client (update_self i _ _) hhandle
  rw [update_idem] at hrun
  exact hrun

end Pool

end EthIndexer
