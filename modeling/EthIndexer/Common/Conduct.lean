import EthIndexer.Common.Trace
/-!
# Rules for the calls of a session

A rule says which calls are allowed after what has happened so far, and a
session obeys it if none of its calls breaks it, whatever the answers are
(`Session.Obeys`). The definition follows the session and carries a
condition on its end, so a session is gone through part by part: what the
first part leaves behind is what the next one starts from (`Obeys.bind`,
`Obeys.defer`). Every trace of the session is then a trace under the rule
(`Obeys.of_traces`).
-/

namespace EthIndexer

namespace Session

variable {Req : Type} {Res : Req → Type} {ε α β : Type}

/-- **The session obeys the rule**: after `past` and whatever it is
answered, each of its calls is one the rule allows after what has happened
by then, and `post` holds of how it ends and of all that has happened. -/
def Obeys (rule : List (Event Req Res) → Req → Prop)
    (post : Except ε α → List (Event Req Res) → Prop) :
    Session Req Res ε α → List (Event Req Res) → Prop
  | .ret x, past => post x past
  | .call r k, past => rule past r ∧ ∀ a, (k a).Obeys rule post (past ++ [⟨r, a⟩])

variable {rule : List (Event Req Res) → Req → Prop} {past : List (Event Req Res)}
  {mid post post' : Except ε α → List (Event Req Res) → Prop} {p : Session Req Res ε α}

@[simp] theorem obeys_ret {x : Except ε α} :
    (.ret x : Session Req Res ε α).Obeys rule post past ↔ post x past := Iff.rfl

@[simp] theorem obeys_call {r : Req} {k : Res r → Session Req Res ε α} :
    (.call r k : Session Req Res ε α).Obeys rule post past ↔
      rule past r ∧ ∀ a, (k a).Obeys rule post (past ++ [⟨r, a⟩]) := Iff.rfl

-- A session is not evaluated to see what it obeys.
attribute [irreducible] Obeys

@[simp] theorem obeys_lift {x : Except ε α} :
    (lift x : Session Req Res ε α).Obeys rule post past ↔ post x past := obeys_ret

@[simp] theorem obeys_request {r : Req} {f : Res r → Except ε α} :
    (request r f).Obeys rule post past ↔
      rule past r ∧ ∀ a, post (f a) (past ++ [⟨r, a⟩]) := by
  simp [request]

/-- What has happened stays part of what has happened. -/
theorem Obeys.mono (hp : p.Obeys rule mid past)
    (h : ∀ x past', past <+: past' → mid x past' → post x past') : p.Obeys rule post past := by
  induction p generalizing past with
  | ret x => exact obeys_ret.2 (h x past (List.prefix_refl past) (obeys_ret.1 hp))
  | call r k ih =>
    obtain ⟨hr, hk⟩ := obeys_call.1 hp
    refine obeys_call.2 ⟨hr, fun a => ih a (hk a) fun x past' hpast' => ?_⟩
    exact h x past' ((List.prefix_append _ _).trans hpast')

theorem Obeys.bind {post : Except ε β → List (Event Req Res) → Prop}
    {f : α → Session Req Res ε β} (hp : p.Obeys rule mid past)
    (herror : ∀ e past', past <+: past' → mid (.error e) past' → post (.error e) past')
    (hok : ∀ a past', past <+: past' → mid (.ok a) past' → (f a).Obeys rule post past') :
    (p >>= f).Obeys rule post past := by
  induction p generalizing past with
  | ret x =>
    have hx := obeys_ret.1 hp
    cases x with
    | error e => exact obeys_ret.2 (herror e past (List.prefix_refl past) hx)
    | ok a => exact hok a past (List.prefix_refl past) hx
  | call r k ih =>
    obtain ⟨hr, hk⟩ := obeys_call.1 hp
    have hlater := List.prefix_append past
    exact obeys_call.2 ⟨hr, fun a => ih a (hk a)
      (fun e past' hpast' => herror e past' ((hlater _).trans hpast'))
      (fun b past' hpast' => hok b past' ((hlater _).trans hpast'))⟩

/-- One call, and then what follows its answer. -/
theorem Obeys.request_bind {post : Except ε β → List (Event Req Res) → Prop} {r : Req}
    {f : Res r → Except ε α} {g : α → Session Req Res ε β} (hr : rule past r)
    (herror : ∀ a e, f a = .error e → post (.error e) (past ++ [⟨r, a⟩]))
    (hok : ∀ a b, f a = .ok b → (g b).Obeys rule post (past ++ [⟨r, a⟩])) :
    (request r f >>= g).Obeys rule post past := by
  refine obeys_call.2 ⟨hr, fun a => ?_⟩
  change (ret (f a) >>= g).Obeys rule post _
  cases hfa : f a with
  | error e => exact obeys_ret.2 (herror a e hfa)
  | ok b => exact hok a b hfa

/-- The same, where the answer is only looked at. -/
theorem Obeys.ask_bind {post : Except ε β → List (Event Req Res) → Prop} {r : Req}
    {g : Res r → Session Req Res ε β} (hr : rule past r)
    (hok : ∀ a, (g a).Obeys rule post (past ++ [⟨r, a⟩])) :
    (request r .ok >>= g).Obeys rule post past := obeys_call.2 ⟨hr, hok⟩

theorem obeys_attempt {post : Except ε (Except ε α) → List (Event Req Res) → Prop} :
    p.attempt.Obeys rule post past ↔ p.Obeys rule (fun x => post (.ok x)) past := by
  induction p generalizing past with
  | ret x => rw [attempt, obeys_ret, obeys_ret]
  | call r k ih =>
    rw [attempt, obeys_call, obeys_call]
    exact and_congr_right fun _ => forall_congr' fun a => ih a

theorem obeys_mapError {f : ε → ε} :
    (p.mapError f).Obeys rule post past ↔ p.Obeys rule (fun x => post (x.mapError f)) past := by
  induction p generalizing past with
  | ret x => rw [mapError, obeys_ret, obeys_ret]
  | call r k ih =>
    rw [mapError, obeys_call, obeys_call]
    exact and_congr_right fun _ => forall_congr' fun a => ih a

/-- The cleanup starts from wherever the session ends, and cannot fail. -/
theorem Obeys.defer {cleanup : Session Req Res ε Unit} (hp : p.Obeys rule mid past)
    (hcleanup : ∀ x past', past <+: past' → mid x past' →
      cleanup.Obeys rule (fun y past'' => y = .ok () ∧ post x past'') past') :
    (p.defer cleanup).Obeys rule post past := by
  have hattempt : p.attempt.Obeys rule (fun y past' => ∃ x, y = .ok x ∧ mid x past') past :=
    obeys_attempt.2 (hp.mono fun x _ _ hx => ⟨x, rfl, hx⟩)
  refine hattempt.bind ?_ ?_
  · rintro e past' - ⟨x, hx, -⟩
    cases hx
  · rintro x past' hpast' ⟨_, hok, hx⟩
    cases hok
    refine (hcleanup x past' hpast' hx).bind ?_ ?_
    · rintro e past'' - ⟨hx, -⟩
      cases hx
    · rintro ⟨⟩ past'' - ⟨-, hpost⟩
      exact obeys_lift.2 hpost

/-- **The traces of a session that obeys a rule.** -/
theorem Obeys.of_traces (hp : p.Obeys rule post past) {t : List (Event Req Res)} {x : Except ε α}
    (ht : p.Traces t x) :
    post x (past ++ t) ∧
      ∀ pre e rest, t = pre ++ e :: rest → rule (past ++ pre) e.1 := by
  induction p generalizing past t with
  | ret y =>
    obtain ⟨rfl, rfl⟩ := ht
    rw [List.append_nil]
    refine ⟨obeys_ret.1 hp, fun pre e rest hsplit => ?_⟩
    cases pre <;> cases hsplit
  | call r k ih =>
    obtain ⟨a, rest, rfl, hrest⟩ := ht
    obtain ⟨hr, hk⟩ := obeys_call.1 hp
    obtain ⟨hpost, hrule⟩ := ih a (hk a) hrest
    rw [List.append_assoc] at hpost
    refine ⟨hpost, fun pre e post hsplit => ?_⟩
    cases pre with
    | nil =>
      cases hsplit
      rw [List.append_nil]
      exact hr
    | cons e' pre =>
      obtain ⟨rfl, htail⟩ := List.cons_eq_cons.1 hsplit
      rw [List.append_cons]
      exact hrule pre e post htail

end Session

end EthIndexer
