import EthIndexer.Common.Session
import Mathlib.Data.Nat.Notation
/-!
# Traces of a session

A world answers every call by the time it is made, and a session that
runs in it leaves a trace: its calls in order, each with its answer
(`Session.recorded`). What a session can do in any world at all is the
relation `Session.Traces`, which follows the session's structure; the
trace of a run is one of these, answered by the world
(`recorded_eq_iff`). So a property of all traces is proved without a
world, and holds of every run.
-/

namespace EthIndexer

/-- An entry that splits a concatenation splits one of its parts. -/
theorem append_split {α : Type} {l₁ l₂ pre post : List α} {a : α}
    (h : l₁ ++ l₂ = pre ++ a :: post) :
    (∃ post', l₁ = pre ++ a :: post' ∧ post = post' ++ l₂) ∨ ∃ pre', l₂ = pre' ++ a :: post := by
  rcases List.append_eq_append_iff.1 h with ⟨l, -, h₂⟩ | ⟨l, h₁, h₂⟩
  · exact Or.inr ⟨l, h₂⟩
  · cases l with
    | nil => exact Or.inr ⟨[], h₂.symm⟩
    | cons b l =>
      obtain ⟨rfl, hpost⟩ := List.cons_eq_cons.1 h₂
      exact Or.inl ⟨l, h₁, hpost⟩

theorem cons_split {α : Type} {l pre post : List α} {a b : α} (h : b :: l = pre ++ a :: post)
    (hne : b ≠ a) : ∃ pre', l = pre' ++ a :: post := by
  cases pre with
  | nil => exact absurd (List.cons_eq_cons.1 h).1 hne
  | cons c pre => exact ⟨pre, (List.cons_eq_cons.1 h).2⟩

/-- An entry that is not before the last one is the last one. -/
theorem split_last {α : Type} {l pre post : List α} {a : α} (h : l = pre ++ a :: post)
    (ha : a ∉ l.dropLast) : l.getLast? = some a ∧ post = [] := by
  subst h
  cases post with
  | nil => exact ⟨List.getLast?_concat, rfl⟩
  | cons b post => simp at ha

namespace Session

variable {Req : Type} {Res : Req → Type} {ε α β : Type}

/-- A call and its answer. -/
abbrev Event (Req : Type) (Res : Req → Type) := (r : Req) × Res r

/-! ## What a session can do -/

/-- **A trace of the session**: it makes these calls, and given these
answers it ends with `x`. -/
def Traces : Session Req Res ε α → List (Event Req Res) → Except ε α → Prop
  | .ret y, trace, x => trace = [] ∧ x = y
  | .call r k, trace, x => ∃ a rest, trace = ⟨r, a⟩ :: rest ∧ (k a).Traces rest x

@[simp] theorem traces_ret {y x : Except ε α} {trace : List (Event Req Res)} :
    (.ret y : Session Req Res ε α).Traces trace x ↔ trace = [] ∧ x = y := Iff.rfl

@[simp] theorem traces_lift {y x : Except ε α} {trace : List (Event Req Res)} :
    (lift y : Session Req Res ε α).Traces trace x ↔ trace = [] ∧ x = y := Iff.rfl

/-- A sequence ends where its first part fails, or its parts follow each
other. -/
theorem traces_bind {p : Session Req Res ε α} {f : α → Session Req Res ε β}
    {trace : List (Event Req Res)} {x : Except ε β} :
    (p >>= f).Traces trace x ↔ (∃ e, p.Traces trace (.error e) ∧ x = .error e) ∨
      ∃ a t₁ t₂, trace = t₁ ++ t₂ ∧ p.Traces t₁ (.ok a) ∧ (f a).Traces t₂ x := by
  induction p generalizing trace with
  | ret y =>
    cases y with
    | error e =>
      constructor
      · rintro ⟨rfl, rfl⟩
        exact Or.inl ⟨e, ⟨rfl, rfl⟩, rfl⟩
      · rintro (⟨_, ⟨rfl, he⟩, rfl⟩ | ⟨a, t₁, t₂, -, ⟨-, ha⟩, -⟩)
        · cases he
          exact ⟨rfl, rfl⟩
        · cases ha
    | ok a =>
      constructor
      · exact fun h => Or.inr ⟨a, [], trace, rfl, ⟨rfl, rfl⟩, h⟩
      · rintro (⟨_, ⟨-, he⟩, -⟩ | ⟨_, _, t₂, rfl, ⟨rfl, ha⟩, h⟩)
        · cases he
        · cases ha
          exact h
  | call r k ih =>
    rw [call_bind]
    simp only [Traces, ih]
    constructor
    · rintro ⟨b, rest, rfl, ⟨e, hp, rfl⟩ | ⟨a, t₁, t₂, rfl, hp, hf⟩⟩
      · exact Or.inl ⟨e, ⟨b, rest, rfl, hp⟩, rfl⟩
      · exact Or.inr ⟨a, ⟨r, b⟩ :: t₁, t₂, rfl, ⟨b, t₁, rfl, hp⟩, hf⟩
    · rintro (⟨e, ⟨b, rest, rfl, hp⟩, rfl⟩ | ⟨a, _, t₂, rfl, ⟨b, t₁, rfl, hp⟩, hf⟩)
      · exact ⟨b, rest, rfl, Or.inl ⟨e, hp, rfl⟩⟩
      · exact ⟨b, t₁ ++ t₂, rfl, Or.inr ⟨a, t₁, t₂, rfl, hp, hf⟩⟩

/-- One call, and then what follows its answer. -/
theorem traces_request_bind {r : Req} {f : Res r → Except ε α} {g : α → Session Req Res ε β}
    {trace : List (Event Req Res)} {x : Except ε β} :
    (request r f >>= g).Traces trace x ↔ ∃ a rest, trace = ⟨r, a⟩ :: rest ∧
      ((∃ e, f a = .error e ∧ rest = [] ∧ x = .error e) ∨
        ∃ b, f a = .ok b ∧ (g b).Traces rest x) := by
  rw [request, call_bind]
  refine exists_congr fun a => exists_congr fun rest => and_congr_right fun _ => ?_
  change (ret (f a) >>= g).Traces rest x ↔ _
  cases f a with
  | error e => simp
  | ok b => simp

/-- Run a session, and hand its error on as a value. -/
def attempt : Session Req Res ε α → Session Req Res ε (Except ε α)
  | .ret x => .ret (.ok x)
  | .call r k => .call r fun a => (k a).attempt

theorem run_attempt {σ : Type} {handle : (r : Req) → σ → Res r × σ} (p : Session Req Res ε α)
    (s : σ) : p.attempt.run handle s = (.ok (p.run handle s).1, (p.run handle s).2) := by
  induction p generalizing s with
  | ret x => rfl
  | call r k ih => exact ih _ _

/-- The same session with its error changed. -/
def mapError (f : ε → ε) : Session Req Res ε α → Session Req Res ε α
  | .ret x => .ret (x.mapError f)
  | .call r k => .call r fun a => (k a).mapError f

theorem run_mapError {σ : Type} {handle : (r : Req) → σ → Res r × σ} (f : ε → ε)
    (p : Session Req Res ε α) (s : σ) :
    (p.mapError f).run handle s = ((p.run handle s).1.mapError f, (p.run handle s).2) := by
  induction p generalizing s with
  | ret x => rfl
  | call r k ih => exact ih _ _

/-- `defer`: however the session ends, `cleanup` follows it. -/
def defer (p : Session Req Res ε α) (cleanup : Session Req Res ε Unit) : Session Req Res ε α := do
  let x ← p.attempt
  cleanup
  lift x

theorem traces_attempt {p : Session Req Res ε α} {trace : List (Event Req Res)}
    {y : Except ε (Except ε α)} : p.attempt.Traces trace y ↔ ∃ x, y = .ok x ∧ p.Traces trace x := by
  induction p generalizing trace with
  | ret x =>
    simp only [attempt, traces_ret]
    constructor
    · rintro ⟨rfl, rfl⟩
      exact ⟨x, rfl, rfl, rfl⟩
    · rintro ⟨_, rfl, rfl, rfl⟩
      exact ⟨rfl, rfl⟩
  | call r k ih =>
    simp only [attempt, Traces, ih]
    constructor
    · rintro ⟨a, rest, rfl, x, rfl, h⟩
      exact ⟨x, rfl, a, rest, rfl, h⟩
    · rintro ⟨x, rfl, a, rest, rfl, h⟩
      exact ⟨a, rest, rfl, x, rfl, h⟩

/-! ## Runs in a world -/

/-- Answer a call with what the world has at this time, and note both. -/
def record (answer : ℕ → (r : Req) → Res r) (r : Req) (trace : List (Event Req Res)) :
    Res r × List (Event Req Res) :=
  (answer trace.length r, trace ++ [⟨r, answer trace.length r⟩])

/-- **The run in a world**: how it ends, and its trace. -/
def recorded (p : Session Req Res ε α) (answer : ℕ → (r : Req) → Res r) :
    Except ε α × List (Event Req Res) := p.run (record answer) []

/-- The trace is answered by the world, from time `n` on. -/
def AnsweredFrom (answer : ℕ → (r : Req) → Res r) : ℕ → List (Event Req Res) → Prop
  | _, [] => True
  | n, e :: rest => e.2 = answer n e.1 ∧ AnsweredFrom answer (n + 1) rest

section World

variable {answer : ℕ → (r : Req) → Res r}

theorem answeredFrom_append {t₁ t₂ : List (Event Req Res)} {n : ℕ} :
    AnsweredFrom answer n (t₁ ++ t₂) ↔
      AnsweredFrom answer n t₁ ∧ AnsweredFrom answer (n + t₁.length) t₂ := by
  induction t₁ generalizing n with
  | nil => simp [AnsweredFrom]
  | cons e t₁ ih =>
    rw [List.cons_append, AnsweredFrom, AnsweredFrom, ih, and_assoc, List.length_cons,
      Nat.add_assoc, Nat.add_comm 1]

/-- Every answer is that of the world at the time of the call. -/
theorem answeredFrom_iff {t : List (Event Req Res)} {n : ℕ} :
    AnsweredFrom answer n t ↔ ∀ (i : ℕ) e, t[i]? = some e → e.2 = answer (n + i) e.1 := by
  induction t generalizing n with
  | nil => exact ⟨fun _ => nofun, fun _ => trivial⟩
  | cons e t ih =>
    rw [AnsweredFrom, ih]
    constructor
    · rintro ⟨hfirst, hrest⟩ (_ | i) e' he'
      · cases he'
        exact hfirst
      · rw [hrest i e' he', Nat.add_assoc, Nat.add_comm 1]
    · intro h
      refine ⟨h 0 e rfl, fun i e' he' => ?_⟩
      rw [h (i + 1) e' he', Nat.add_assoc, Nat.add_comm 1]

theorem exists_run_record (answer : ℕ → (r : Req) → Res r) (p : Session Req Res ε α)
    (t : List (Event Req Res)) :
    ∃ x t', p.run (record answer) t = (x, t ++ t') ∧ p.Traces t' x ∧
      AnsweredFrom answer t.length t' := by
  induction p generalizing t with
  | ret y => exact ⟨y, [], by rw [run_ret, List.append_nil], ⟨rfl, rfl⟩, trivial⟩
  | call r k ih =>
    obtain ⟨x, t', hrun, htraces, hanswered⟩ :=
      ih (answer t.length r) (t ++ [⟨r, answer t.length r⟩])
    rw [List.append_assoc] at hrun
    rw [List.length_append] at hanswered
    exact ⟨x, _, hrun, ⟨_, t', rfl, htraces⟩, rfl, hanswered⟩

theorem run_record_of_traces {p : Session Req Res ε α} {t t' : List (Event Req Res)}
    {x : Except ε α} (h : p.Traces t' x) (ha : AnsweredFrom answer t.length t') :
    p.run (record answer) t = (x, t ++ t') := by
  induction p generalizing t t' with
  | ret y =>
    obtain ⟨rfl, rfl⟩ := h
    rw [run_ret, List.append_nil]
  | call r k ih =>
    obtain ⟨a, rest, rfl, hk⟩ := h
    obtain ⟨rfl, hrest⟩ : a = answer t.length r ∧ _ := ha
    rw [List.append_cons]
    refine ih _ hk ?_
    change AnsweredFrom answer (t ++ [_]).length rest
    rwa [List.length_append]

/-- **A run is a trace that the world answers.** -/
theorem recorded_eq_iff {p : Session Req Res ε α} {x : Except ε α} {t : List (Event Req Res)} :
    p.recorded answer = (x, t) ↔ p.Traces t x ∧ AnsweredFrom answer 0 t := by
  constructor
  · intro h
    obtain ⟨x', t', hrun, htraces, hanswered⟩ := exists_run_record answer p []
    cases h.symm.trans hrun
    exact ⟨htraces, hanswered⟩
  · rintro ⟨htraces, hanswered⟩
    exact run_record_of_traces htraces hanswered

end World

end Session

end EthIndexer
