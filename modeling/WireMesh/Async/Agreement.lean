import WireMesh.Async.Calls

/-!
# Computations that agree

Two computations agree when they have the same value, if each of them has one:
one of them may reject or not end where the other one does not
(`Async.Agrees`). That is what is left of two runs that ask the same questions
in different orders.

* `Agrees.bind`, `Agrees.bind_run`: sequences of computations that agree do.
* `agrees_returns`: recursions agree when their bodies do, from answers that
  agree.
* `agrees_returns_at`: on a question on which both end, the bodies may count on
  not getting an answer to that question itself.
-/

namespace WireMesh

namespace Async

variable {Q R E A B : Type} {ans ans' : Q → Except E R → Prop} {body body' : Q → Async Q R E R}

/-- The values of the two computations are the same, if both have one. -/
def Agrees (ans ans' : Q → Except E R → Prop) (p p' : Async Q R E A) : Prop :=
  ∀ x y, Settles ans p (.ok x) → Settles ans' p' (.ok y) → x = y

/-- A computation agrees with itself when the answers it gets do. -/
theorem agrees_self (hans : ∀ q a b, ans q (.ok a) → ans' q (.ok b) → a = b)
    (p : Async Q R E A) : Agrees ans ans' p p := by
  intro x y hx hy
  induction p with
  | ret a =>
    cases hx
    cases hy
    rfl
  | throw e => cases hx
  | call q k ih =>
    cases hx with
    | answer hq hr =>
      cases hy with
      | answer hq' hr' =>
        cases hans q _ _ hq hq'
        exact ih _ hr hr'

/-- Sequences of computations agree when they go on in agreement from any values. -/
theorem agrees_bind {p : Async Q R E A} {p' : Async Q R E B} {C : Type}
    {f : A → Async Q R E C} {f' : B → Async Q R E C}
    (h : ∀ a b, Settles ans p (.ok a) → Settles ans' p' (.ok b) →
      Agrees ans ans' (f a) (f' b)) : Agrees ans ans' (p >>= f) (p' >>= f') := by
  intro x y hx hy
  obtain ⟨a, ha, hx⟩ := settles_bind_ok.1 hx
  obtain ⟨b, hb, hy⟩ := settles_bind_ok.1 hy
  exact h a b ha hb x y hx hy

theorem Agrees.bind {p p' : Async Q R E A} {f f' : A → Async Q R E B}
    (hp : Agrees ans ans' p p') (hf : ∀ a, Agrees ans ans' (f a) (f' a)) :
    Agrees ans ans' (p >>= f) (p' >>= f') :=
  agrees_bind fun a b ha hb => hp a b ha hb ▸ hf a

/-- Computations that may refuse agree when what they refuse with does, too. -/
theorem Agrees.bind_run {ε : Type} {p p' : ExceptT ε (Async Q R E) A}
    {f f' : A → ExceptT ε (Async Q R E) B} (hp : Agrees ans ans' p.run p'.run)
    (hf : ∀ a, Agrees ans ans' (f a).run (f' a).run) :
    Agrees ans ans' (p >>= f).run (p' >>= f').run := by
  refine Agrees.bind hp fun x => ?_
  cases x with
  | ok a => exact hf a
  | error e =>
    rintro _ _ ⟨⟩ ⟨⟩
    rfl

theorem Agrees.adapt {ε ε' : Type} {p p' : ExceptT ε (Async Q R E) A} (f : ε → ε')
    (hp : Agrees ans ans' p.run p'.run) :
    Agrees ans ans' (p.adapt f).run (p'.adapt f).run := by
  change Agrees ans ans' (Except.mapError f <$> p.run) (Except.mapError f <$> p'.run)
  rw [map_eq_pure_bind, map_eq_pure_bind]
  refine Agrees.bind hp fun x => ?_
  rintro _ _ ⟨⟩ ⟨⟩
  rfl

theorem settles_await {ε : Type} {p : Async Q R E A} {x : Except ε A} :
    Settles ans (await p : ExceptT ε (Async Q R E) A).run (.ok x) ↔
      ∃ a, x = .ok a ∧ Settles ans p (.ok a) := by
  change Settles ans (Except.ok <$> p) (.ok x) ↔ _
  rw [map_eq_pure_bind, settles_bind_ok]
  simp [and_comm]

section Search

variable {T : Type} {l l' : List T} {p p' : T → Async Q R E Bool}

/-- Searches agree on whether they find anything, if the tests agree on items of both. -/
theorem findM?_eq_none_iff (hl : ∀ t ∈ l, ∃ t' ∈ l', Agrees ans ans' (p t) (p' t'))
    (hl' : ∀ t' ∈ l', ∃ t ∈ l, Agrees ans ans' (p t) (p' t')) {found found' : Option T}
    (h : Settles ans (l.findM? p) (.ok found)) (h' : Settles ans' (l'.findM? p') (.ok found')) :
    found = none ↔ found' = none := by
  constructor
  · rintro rfl
    rcases found' with _ | t'
    · rfl
    · obtain ⟨ht', htrue⟩ := h'.findM?_some
      obtain ⟨t, ht, hagrees⟩ := hl' t' ht'
      cases hagrees _ _ (settles_findM?_none.1 h t ht) htrue
  · rintro rfl
    rcases found with _ | t
    · rfl
    · obtain ⟨ht, htrue⟩ := h.findM?_some
      obtain ⟨t', ht', hagrees⟩ := hl t ht
      cases hagrees _ _ htrue (settles_findM?_none.1 h' t' ht')

/-- Computations that refuse if a search finds anything, and go on otherwise. -/
theorem agrees_ensure_findM?_none [∀ found : Option T, Decidable (found = none)] {ε : Type}
    {e : ε} (hsearch : ∀ found found', Settles ans (l.findM? p) (.ok found) →
      Settles ans' (l'.findM? p') (.ok found') → (found = none ↔ found' = none))
    {f f' : ExceptT ε (Async Q R E) A} (hf : Agrees ans ans' f.run f'.run) :
    Agrees ans ans'
      (do let found ← await (l.findM? p); ensure (found = none) e; f : ExceptT ε _ A).run
      (do let found ← await (l'.findM? p'); ensure (found = none) e; f' : ExceptT ε _ A).run := by
  refine agrees_bind fun x y hx hy => ?_
  obtain ⟨found, rfl, hfound⟩ := settles_await.1 hx
  obtain ⟨found', rfl, hfound'⟩ := settles_await.1 hy
  have hiff := hsearch found found' hfound hfound'
  change Agrees ans ans' (ensure (found = none) e >>= fun _ => f).run
    (ensure (found' = none) e >>= fun _ => f').run
  by_cases hnone : found = none
  · grind [ensure]
  · rw [ensure, if_neg hnone, ensure, if_neg (mt hiff.2 hnone)]
    rintro _ _ ⟨⟩ ⟨⟩
    rfl

end Search

/-- Recursions agree when their bodies do from answers that agree. -/
theorem agrees_returns
    (hbody : ∀ ans ans' : Q → Except E R → Prop,
      (∀ q a b, ans q (.ok a) → ans' q (.ok b) → a = b) →
        ∀ q, Agrees ans ans' (body q) (body' q))
    {q : Q} {r r' : R} (h : Returns body q (.ok r)) (h' : Returns body' q (.ok r')) : r = r' := by
  obtain ⟨n, hn⟩ := h
  induction n generalizing q r r' with
  | zero => cases hn
  | succ n ih =>
    exact hbody _ _ (fun q a b ha hb => ih hb ha) q r r' (eval_eq_some_iff.1 hn)
      (returns_iff.1 h')

/-- The answers are those to the questions that come up. -/
theorem Settles.and_of_asks {S : Q → Prop} {p : Async Q R E A} {x : Except E A}
    (h : Settles ans p x) (hS : ∀ q, Asks ans p q → S q) :
    Settles (fun q y => ans q y ∧ S q) p x := by
  induction h with
  | ret => exact .ret
  | throw => exact .throw
  | answer hq _ ih => exact .answer ⟨hq, hS _ .here⟩ (ih fun q' hq' => hS q' (.later hq hq'))
  | reject hq => exact .reject ⟨hq, hS _ .here⟩

/-- Recursions agree on a question on which both end, when their bodies do from answers
    that agree and do not include one to that question. -/
theorem agrees_returns_at {q₀ : Q}
    (hbody : ∀ ans ans' : Q → Except E R → Prop,
      (∀ q a b, ans q (.ok a) → ans' q (.ok b) → a = b) →
        (∀ x, ¬ans q₀ x) → (∀ x, ¬ans' q₀ x) → ∀ q, Agrees ans ans' (body q) (body' q))
    {r r' : R} (h : Returns body q₀ (.ok r)) (h' : Returns body' q₀ (.ok r')) : r = r' := by
  -- Below a question from which `q₀` does not come up, it does not come up either.
  suffices hbelow : ∀ n q r r', ¬Relation.TransGen (Calls body) q q₀ →
      ¬Relation.TransGen (Calls body') q q₀ → run body n q = some (.ok r) →
      Returns body' q (.ok r') → r = r' by
    obtain ⟨n, hn⟩ := h
    exact hbelow n q₀ r r' (fun hcycle => not_terminates_of_cycle .refl hcycle ⟨_, n, hn⟩)
      (fun hcycle => not_terminates_of_cycle .refl hcycle ⟨_, h'⟩) hn h'
  intro n
  induction n with
  | zero => exact fun q r r' _ _ hn => nomatch hn
  | succ n ih =>
    intro q r r' hq hq' hn hr'
    refine hbody (fun q y => run body n q = some y ∧ ¬Relation.ReflTransGen (Calls body) q q₀)
      (fun q y => Returns body' q y ∧ ¬Relation.ReflTransGen (Calls body') q q₀)
      ?_ (fun x hx => hx.2 .refl) (fun x hx => hx.2 .refl) q r r' ?_ ?_
    · grind
    · refine (eval_eq_some_iff.1 hn).and_of_asks fun q' hcall hreach => hq ?_
      exact .head' (hcall.mono fun _ _ h => ⟨n, h⟩) hreach
    · exact (returns_iff.1 hr').and_of_asks fun q' hcall hreach => hq' (.head' hcall hreach)

end Async

end WireMesh
