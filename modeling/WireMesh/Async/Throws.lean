import WireMesh.Async.Calls

/-!
# What a computation throws

A computation rejects because a question it awaits does, or because it throws
itself (`Async.Throws`). A recursion that goes down without end on no question,
and whose body throws on none of those that come up, returns a value
(`exists_returns_ok`).
-/

namespace WireMesh

namespace Async

variable {Q R E A B : Type} {ans : Q → Except E R → Prop} {body : Q → Async Q R E R} {e : E}

/-- The computation comes to throw, the questions before that being answered by `ans`. -/
inductive Throws (ans : Q → Except E R → Prop) : Async Q R E A → E → Prop
  | here {e : E} : Throws ans (throw e) e
  | later {q : Q} {k : R → Async Q R E A} {r : R} {e : E} :
      ans q (.ok r) → Throws ans (k r) e → Throws ans (call q k) e

/-- A computation rejects as it throws or as a question does. -/
theorem settles_error_iff {p : Async Q R E A} :
    Settles ans p (.error e) ↔ Throws ans p e ∨ ∃ q, Asks ans p q ∧ ans q (.error e) := by
  constructor
  · intro h
    generalize hx : (Except.error e : Except E A) = x at h
    induction h with
    | ret => cases hx
    | throw =>
      cases hx
      exact .inl .here
    | answer hq _ ih =>
      rcases ih hx with h | ⟨q, hasks, hans⟩
      · exact .inl (.later hq h)
      · exact .inr ⟨q, .later hq hasks, hans⟩
    | reject hq =>
      cases hx
      exact .inr ⟨_, .here, hq⟩
  · rintro (h | ⟨q, hasks, hans⟩)
    · induction h with
      | here => exact .throw
      | later hq _ ih => exact .answer hq ih
    · induction hasks with
      | here => exact .reject hans
      | later hq _ ih => exact .answer hq (ih hans)

@[simp]
theorem throws_pure {a : A} : ¬Throws ans (pure a : Async Q R E A) e := nofun

@[simp]
theorem throws_ask {q : Q} : ¬Throws ans (ask q) e := by
  intro h
  cases h with
  | later _ h => cases h

@[simp]
theorem throws_ofExcept {x : Except E A} :
    Throws ans (ofExcept x : Async Q R E A) e ↔ x = .error e := by
  cases x with
  | ok a => exact ⟨nofun, nofun⟩
  | error e' =>
    constructor
    · intro h
      cases h
      rfl
    · rintro ⟨⟩
      exact .here

/-- A sequence of computations throws as its first one does, or later. -/
theorem throws_bind {p : Async Q R E A} {f : A → Async Q R E B} :
    Throws ans (p >>= f) e ↔ Throws ans p e ∨ ∃ a, Settles ans p (.ok a) ∧ Throws ans (f a) e := by
  change Throws ans (p.bind f) e ↔ _
  constructor
  · intro h
    induction p with
    | ret a => exact .inr ⟨a, .ret, h⟩
    | throw e' =>
      cases h
      exact .inl .here
    | call q k ih =>
      cases h with
      | later hq hr =>
        rcases ih _ hr with hp | ⟨a, hp, hf⟩
        · exact .inl (.later hq hp)
        · exact .inr ⟨a, .answer hq hp, hf⟩
  · rintro (hp | ⟨a, hp, hf⟩)
    · induction hp with
      | here => exact .here
      | later hq _ ih => exact .later hq ih
    · induction p with
      | ret a' => cases hp; exact hf
      | throw e' => cases hp
      | call q k ih =>
        cases hp with
        | answer hq hr => exact .later hq (ih _ hr)

/-- A search throws as its test does on an item. -/
theorem Throws.findM? {T : Type} {l : List T} {p : T → Async Q R E Bool}
    (h : Throws ans (l.findM? p) e) : ∃ t ∈ l, Throws ans (p t) e := by
  induction l with
  | nil => cases h
  | cons t l ih =>
    rw [List.findM?, throws_bind] at h
    grind [throws_pure]

section Refusing

variable {ε : Type}

@[simp]
theorem throws_run_pure {a : A} : ¬Throws ans (pure a : ExceptT ε (Async Q R E) A).run e := nofun

@[simp]
theorem throws_run_refuse {r : ε} : ¬Throws ans (refuse r : ExceptT ε (Async Q R E) A).run e :=
  nofun

@[simp]
theorem throws_run_ensure {c : Prop} [Decidable c] {r : ε} :
    ¬Throws ans (ensure c r : ExceptT ε (Async Q R E) Unit).run e := by
  rw [ensure]
  split
  · exact throws_run_pure
  · exact throws_run_refuse

@[simp]
theorem throws_run_orRefuse {x : Option A} {r : ε} :
    ¬Throws ans (orRefuse x r : ExceptT ε (Async Q R E) A).run e := by
  cases x <;> exact nofun

@[simp]
theorem throws_run_await {p : Async Q R E A} :
    Throws ans (await p : ExceptT ε (Async Q R E) A).run e ↔ Throws ans p e := by
  change Throws ans (Except.ok <$> p) e ↔ _
  rw [map_eq_pure_bind, throws_bind]
  simp

@[simp]
theorem throws_run_adapt {ε' : Type} {f : ε → ε'} {p : ExceptT ε (Async Q R E) A} :
    Throws ans (p.adapt f).run e ↔ Throws ans p.run e := by
  change Throws ans (Except.mapError f <$> p.run) e ↔ _
  rw [map_eq_pure_bind, throws_bind]
  simp

@[simp]
theorem throws_run_bind {p : ExceptT ε (Async Q R E) A} {f : A → ExceptT ε (Async Q R E) B} :
    Throws ans (p >>= f).run e ↔
      Throws ans p.run e ∨ ∃ a, Accepts ans p a ∧ Throws ans (f a).run e := by
  change Throws ans (p.run >>= ExceptT.bindCont f) e ↔ _
  rw [throws_bind]
  refine or_congr_right ⟨?_, fun ⟨a, hp, hf⟩ => ⟨.ok a, hp, hf⟩⟩
  rintro ⟨x, hp, hf⟩
  cases x with
  | ok a => exact ⟨a, hp, hf⟩
  | error r => cases hf

end Refusing

/-- A computation that does not throw returns a value when all its questions are answered with
    values. -/
theorem exists_settles_ok {p : Async Q R E A}
    (hans : ∀ q x y, ans q x → ans q y → x = y)
    (hasks : ∀ q, Asks ans p q → ∃ r, ans q (.ok r)) (hthrows : ∀ e, ¬Throws ans p e) :
    ∃ a, Settles ans p (.ok a) := by
  obtain ⟨e | a, h⟩ := exists_settles fun q hq => (hasks q hq).imp' _ fun _ => id
  · grind [settles_error_iff]
  · exact ⟨a, h⟩

/-- A recursion returns a value on `q` when there is no infinite descent from it, and its body
    throws on no question below. -/
theorem exists_returns_ok {r : Q → Q → Prop} (hr : ∀ q q', Calls body q q' → r q q') {q : Q}
    (hacc : Acc (fun q' q => r q q') q)
    (hthrows : ∀ q', Relation.ReflTransGen r q q' → ∀ e, ¬Throws (Returns body) (body q') e) :
    ∃ a, Returns body q (.ok a) := by
  induction hacc with
  | intro q _ ih =>
    have hunique : ∀ q x y, Returns body q x → Returns body q y → x = y :=
      fun _ _ _ => Returns.unique
    obtain ⟨a, ha⟩ := exists_settles_ok (p := body q) hunique
      (fun q' hq' => ih q' (hr q q' hq') fun q'' h => hthrows q'' (.head (hr q q' hq') h))
      (hthrows q .refl)
    exact ⟨a, returns_iff.2 ha⟩

end Async

end WireMesh
