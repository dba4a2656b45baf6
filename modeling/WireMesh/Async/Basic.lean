import Mathlib.Order.Lattice
import Mathlib.Data.Nat.Notation

/-!
# Computations that await calls of themselves

An asynchronous function that may call itself, with other arguments, before it
settles. Its body is a *call tree* (`Async`): it returns, rejects, or asks a
question and goes on with the answer. The tree itself always ends; what may
not end is the recursion, as the answer to a question is what the same body
settles with on that question.

* `Async.Settles ans p x`: given the answers `ans`, the computation `p` settles
  with `x`, a value or a rejection. A rejected question rejects the computation
  that awaits it.
* `Async.run body n q`: the recursion unfolded at most `n` deep. It is monotone
  in `n`, so that it gives at most one outcome (`Returns`), which solves the
  recursive equation (`returns_iff`).
-/

namespace WireMesh

/-- A computation asking questions in `Q`, whose answers are in `R`, and settling
    with a value in `A` or a rejection in `E`. -/
inductive Async (Q R E A : Type) : Type
  | ret (a : A)
  | throw (e : E)
  | call (q : Q) (k : R → Async Q R E A)

namespace Async

variable {Q R E A B : Type}

/-- Awaiting `p`, then going on with `f`. -/
protected def bind : Async Q R E A → (A → Async Q R E B) → Async Q R E B
  | ret a, f => f a
  | throw e, _ => throw e
  | call q k, f => call q fun r => (k r).bind f

instance : Monad (Async Q R E) where
  pure := ret
  bind := Async.bind

theorem bind_ret (p : Async Q R E A) : p.bind ret = p := by
  induction p with
  | ret a => rfl
  | throw e => rfl
  | call q k ih => simp only [Async.bind, ih]

theorem bind_assoc {C : Type} (p : Async Q R E A) (f : A → Async Q R E B)
    (g : B → Async Q R E C) : (p.bind f).bind g = p.bind fun a => (f a).bind g := by
  induction p with
  | ret a => rfl
  | throw e => rfl
  | call q k ih => simp only [Async.bind, ih]

instance : LawfulMonad (Async Q R E) :=
  LawfulMonad.mk' _ bind_ret (fun _ _ => rfl) bind_assoc

/-- Asking a question, and returning its answer. -/
def ask (q : Q) : Async Q R E R := call q ret

/-- A settled computation. -/
def ofExcept : Except E A → Async Q R E A
  | .ok a => ret a
  | .error e => throw e

/-! ## Outcomes -/

/-- The computation settles with the given outcome, the questions being answered by `ans`. -/
inductive Settles (ans : Q → Except E R → Prop) : Async Q R E A → Except E A → Prop
  | ret {a : A} : Settles ans (ret a) (.ok a)
  | throw {e : E} : Settles ans (throw e) (.error e)
  | answer {q : Q} {k : R → Async Q R E A} {r : R} {x : Except E A} :
      ans q (.ok r) → Settles ans (k r) x → Settles ans (call q k) x
  | reject {q : Q} {k : R → Async Q R E A} {e : E} :
      ans q (.error e) → Settles ans (call q k) (.error e)

variable {ans ans' : Q → Except E R → Prop}

@[simp]
theorem settles_pure {a : A} {x : Except E A} :
    Settles ans (pure a : Async Q R E A) x ↔ x = .ok a :=
  ⟨fun h => by cases h; rfl, fun h => h ▸ .ret⟩

@[simp]
theorem settles_throw {e : E} {x : Except E A} :
    Settles ans (throw e : Async Q R E A) x ↔ x = .error e :=
  ⟨fun h => by cases h; rfl, fun h => h ▸ .throw⟩

@[simp]
theorem settles_ofExcept {y x : Except E A} :
    Settles ans (ofExcept y : Async Q R E A) x ↔ y = x := by
  rw [eq_comm]
  cases y
  exacts [settles_throw, settles_pure]

@[simp]
theorem settles_ask {q : Q} {x : Except E R} : Settles ans (ask q) x ↔ ans q x := by
  constructor
  · intro h
    cases h with
    | answer hq hr => cases hr; exact hq
    | reject hq => exact hq
  · intro h
    cases x with
    | ok r => exact .answer h .ret
    | error e => exact .reject h

/-- A sequence of computations rejects with its first one, or goes on from its value. -/
theorem settles_bind {p : Async Q R E A} {f : A → Async Q R E B} {x : Except E B} :
    Settles ans (p >>= f) x ↔ (∃ a, Settles ans p (.ok a) ∧ Settles ans (f a) x) ∨
      ∃ e, x = .error e ∧ Settles ans p (.error e) := by
  change Settles ans (p.bind f) x ↔ _
  constructor
  · intro h
    induction p with
    | ret a => exact .inl ⟨a, .ret, h⟩
    | throw e =>
      cases h
      exact .inr ⟨e, rfl, .throw⟩
    | call q k ih =>
      cases h with
      | answer hq hr =>
        rcases ih _ hr with ⟨a, hp, hf⟩ | ⟨e, rfl, hp⟩
        · exact .inl ⟨a, .answer hq hp, hf⟩
        · exact .inr ⟨e, rfl, .answer hq hp⟩
      | reject hq => exact .inr ⟨_, rfl, .reject hq⟩
  · rintro (⟨a, hp, hf⟩ | ⟨e, rfl, hp⟩)
    · induction p with
      | ret a' => cases hp; exact hf
      | throw e => cases hp
      | call q k ih =>
        cases hp with
        | answer hq hr => exact .answer hq (ih _ hr)
    · induction p with
      | ret a' => cases hp
      | throw e' => cases hp; exact .throw
      | call q k ih =>
        cases hp with
        | answer hq hr => exact .answer hq (ih _ hr)
        | reject hq => exact .reject hq

@[simp]
theorem settles_bind_ok {p : Async Q R E A} {f : A → Async Q R E B} {b : B} :
    Settles ans (p >>= f) (.ok b) ↔
      ∃ a, Settles ans p (.ok a) ∧ Settles ans (f a) (.ok b) := by
  simp [settles_bind]

theorem Settles.mono {p : Async Q R E A} {x : Except E A} (h : Settles ans p x)
    (hans : ∀ q y, ans q y → ans' q y) : Settles ans' p x := by
  induction h with
  | ret => exact .ret
  | throw => exact .throw
  | answer hq _ ih => exact .answer (hans _ _ hq) ih
  | reject hq => exact .reject (hans _ _ hq)

/-- With at most one answer to each question, there is at most one outcome. -/
theorem Settles.unique {p : Async Q R E A} {x y : Except E A} (hx : Settles ans p x)
    (hy : Settles ans' p y) (hans : ∀ q a b, ans q a → ans' q b → a = b) : x = y := by
  induction hx with
  | ret => cases hy; rfl
  | throw => cases hy; rfl
  | answer hq _ ih =>
    cases hy with
    | answer hq' hr =>
      cases hans _ _ _ hq hq'
      exact ih hr
    | reject hq' => cases hans _ _ _ hq hq'
  | reject hq =>
    cases hy with
    | answer hq' _ => cases hans _ _ _ hq hq'
    | reject hq' =>
      cases hans _ _ _ hq hq'
      rfl

/-! ## Computations that may refuse -/

section Accepts

variable {ε : Type} {a : A} {b : B} {e : ε}

/-- The computation, which may refuse with an `ε`, does not and ends with the value. -/
def Accepts (ans : Q → Except E R → Prop) (p : ExceptT ε (Async Q R E) A) (a : A) : Prop :=
  Settles ans p.run (.ok (.ok a))

/-- Refusing with `e`. -/
def refuse (e : ε) : ExceptT ε (Async Q R E) A := throwThe ε e

/-- Refusing with `e` unless the condition holds. -/
def ensure (c : Prop) [Decidable c] (e : ε) : ExceptT ε (Async Q R E) Unit :=
  if c then pure () else refuse e

/-- The value, refusing with `e` when there is none. -/
def orRefuse (x : Option A) (e : ε) : ExceptT ε (Async Q R E) A :=
  match x with
  | some a => pure a
  | none => refuse e

/-- The value, refusing with what `f` makes of the failure. -/
def orRefuseWith {δ : Type} (x : Except δ A) (f : δ → ε) : ExceptT ε (Async Q R E) A :=
  match x with
  | .ok a => pure a
  | .error e => refuse (f e)

/-- Awaiting a computation that does not refuse. -/
def await (p : Async Q R E A) : ExceptT ε (Async Q R E) A := ExceptT.lift p

@[simp]
theorem accepts_pure {a' : A} :
    Accepts ans (pure a : ExceptT ε (Async Q R E) A) a' ↔ a' = a := by
  change Settles ans (pure (.ok a) : Async Q R E (Except ε A)) (.ok (.ok a')) ↔ _
  simp

@[simp]
theorem accepts_refuse : ¬Accepts ans (refuse e : ExceptT ε (Async Q R E) A) a := by
  change ¬Settles ans (pure (.error e) : Async Q R E (Except ε A)) (.ok (.ok a))
  simp

@[simp]
theorem accepts_bind {p : ExceptT ε (Async Q R E) A} {f : A → ExceptT ε (Async Q R E) B} :
    Accepts ans (p >>= f) b ↔ ∃ a, Accepts ans p a ∧ Accepts ans (f a) b := by
  change Settles ans (p.run >>= ExceptT.bindCont f) (.ok (.ok b)) ↔ _
  rw [settles_bind_ok]
  constructor
  · rintro ⟨x, hp, hf⟩
    cases x with
    | ok a => exact ⟨a, hp, hf⟩
    | error e => exact absurd hf accepts_refuse
  · exact fun ⟨a, hp, hf⟩ => ⟨.ok a, hp, hf⟩

@[simp]
theorem accepts_ensure {c : Prop} [Decidable c] {u : Unit} :
    Accepts ans (ensure c e : ExceptT ε (Async Q R E) Unit) u ↔ c := by
  rw [ensure]
  split <;> simp [*]

@[simp]
theorem accepts_orRefuse {x : Option A} :
    Accepts ans (orRefuse x e : ExceptT ε (Async Q R E) A) a ↔ x = some a := by
  cases x <;> simp [orRefuse, eq_comm]

@[simp]
theorem accepts_orRefuseWith {δ : Type} {x : Except δ A} {f : δ → ε} :
    Accepts ans (orRefuseWith x f : ExceptT ε (Async Q R E) A) a ↔ x = .ok a := by
  cases x <;> simp [orRefuseWith, eq_comm]

@[simp]
theorem accepts_await {p : Async Q R E A} :
    Accepts ans (await p : ExceptT ε (Async Q R E) A) a ↔ Settles ans p (.ok a) := by
  change Settles ans (Except.ok <$> p) (.ok (.ok a)) ↔ _
  rw [map_eq_pure_bind, settles_bind_ok]
  simp

/-- Renaming the refusals of a computation keeps what it accepts. -/
@[simp]
theorem accepts_adapt {ε' : Type} {f : ε → ε'} {p : ExceptT ε (Async Q R E) A} :
    Accepts ans (p.adapt f) a ↔ Accepts ans p a := by
  change Settles ans (Except.mapError f <$> p.run) (.ok (.ok a)) ↔ _
  rw [map_eq_pure_bind, settles_bind_ok]
  constructor
  · rintro ⟨x, hp, hx⟩
    cases x with
    | ok a' =>
      obtain rfl : a = a' := by simpa [Except.mapError] using hx
      exact hp
    | error e => simp [Except.mapError] at hx
  · exact fun h => ⟨.ok a, h, by simp [Except.mapError]⟩

/-- The computation refuses with the given reason. -/
def Refuses (ans : Q → Except E R → Prop) (p : ExceptT ε (Async Q R E) A) (e : ε) : Prop :=
  Settles ans p.run (.ok (.error e))

@[simp]
theorem refuses_pure : ¬Refuses ans (pure a : ExceptT ε (Async Q R E) A) e := by
  change ¬Settles ans (pure (.ok a) : Async Q R E (Except ε A)) (.ok (.error e))
  simp

@[simp]
theorem refuses_refuse {e' : ε} :
    Refuses ans (refuse e : ExceptT ε (Async Q R E) A) e' ↔ e' = e := by
  change Settles ans (pure (.error e) : Async Q R E (Except ε A)) (.ok (.error e')) ↔ _
  simp

/-- A sequence of computations refuses with its first one, or goes on and refuses then. -/
@[simp]
theorem refuses_bind {p : ExceptT ε (Async Q R E) A} {f : A → ExceptT ε (Async Q R E) B} :
    Refuses ans (p >>= f) e ↔
      Refuses ans p e ∨ ∃ a, Accepts ans p a ∧ Refuses ans (f a) e := by
  change Settles ans (p.run >>= ExceptT.bindCont f) (.ok (.error e)) ↔ _
  rw [settles_bind_ok]
  constructor
  · rintro ⟨x, hp, hf⟩
    cases x with
    | ok a => exact .inr ⟨a, hp, hf⟩
    | error e' =>
      cases hf
      exact .inl hp
  · rintro (hp | ⟨a, hp, hf⟩)
    · exact ⟨.error e, hp, .ret⟩
    · exact ⟨.ok a, hp, hf⟩

@[simp]
theorem refuses_ensure {c : Prop} [Decidable c] {e' : ε} :
    Refuses ans (ensure c e : ExceptT ε (Async Q R E) Unit) e' ↔ ¬c ∧ e' = e := by
  rw [ensure]
  split <;> simp [*]

@[simp]
theorem refuses_orRefuseWith {δ : Type} {x : Except δ A} {f : δ → ε} :
    Refuses ans (orRefuseWith x f : ExceptT ε (Async Q R E) A) e ↔
      ∃ d, x = .error d ∧ e = f d := by
  cases x <;> simp [orRefuseWith]

@[simp]
theorem refuses_await {p : Async Q R E A} :
    ¬Refuses ans (await p : ExceptT ε (Async Q R E) A) e := by
  change ¬Settles ans (Except.ok <$> p) (.ok (.error e))
  rw [map_eq_pure_bind, settles_bind_ok]
  simp

end Accepts

/-! ## Searching a list -/

variable {T : Type} {l : List T} {p : T → Async Q R E Bool}

/-- A search finds nothing iff the test fails on every item. -/
theorem settles_findM?_none :
    Settles ans (l.findM? p) (.ok none) ↔ ∀ t ∈ l, Settles ans (p t) (.ok false) := by
  induction l with
  | nil => simp [List.findM?]
  | cons t l ih =>
    rw [List.findM?, settles_bind_ok, List.forall_mem_cons, ← ih]
    constructor
    · rintro ⟨b, hb, h⟩
      cases b with
      | true => simp at h
      | false => exact ⟨hb, h⟩
    · exact fun ⟨hb, h⟩ => ⟨false, hb, h⟩

theorem except_findM?_eq_none {p : T → Except E Bool} :
    l.findM? p = .ok none ↔ ∀ t ∈ l, p t = .ok false := by
  induction l with
  | nil => simp [List.findM?, pure, Except.pure]
  | cons t l ih =>
    rw [List.findM?, List.forall_mem_cons, ← ih]
    cases ht : p t with
    | error e => simp [bind, Except.bind]
    | ok b => cases b <;> simp [bind, Except.bind, pure, Except.pure]

/-- A search goes no further than the first item, if the test succeeds on it. -/
theorem Settles.findM?_head {t : T} (h : Settles ans (p t) (.ok true)) :
    Settles ans ((t :: l).findM? p) (.ok (some t)) := by
  rw [List.findM?, settles_bind_ok]
  exact ⟨true, h, by simp⟩

/-- A search finds an item on which the test succeeds. -/
theorem Settles.findM?_some {t : T} (h : Settles ans (l.findM? p) (.ok (some t))) :
    t ∈ l ∧ Settles ans (p t) (.ok true) := by
  induction l with
  | nil => simp [List.findM?] at h
  | cons s l ih =>
    rw [List.findM?, settles_bind_ok] at h
    obtain ⟨b, hb, h⟩ := h
    cases b with
    | true =>
      obtain rfl : t = s := by simpa using h
      exact ⟨List.mem_cons_self, hb⟩
    | false => exact (ih h).imp_left (List.mem_cons_of_mem _)

/-! ## Recursion -/

/-- The outcome of a computation, with partial answers to its questions. -/
def eval (f : Q → Option (Except E R)) : Async Q R E A → Option (Except E A)
  | ret a => some (.ok a)
  | throw e => some (.error e)
  | call q k => match f q with
    | none => none
    | some (.ok r) => (k r).eval f
    | some (.error e) => some (.error e)

/-- The outcome of the recursion on `q`, unfolded at most `n` deep. -/
def run (body : Q → Async Q R E R) : ℕ → Q → Option (Except E R)
  | 0, _ => none
  | n + 1, q => (body q).eval (run body n)

/-- The recursion settles on `q` with the outcome `x`. -/
def Returns (body : Q → Async Q R E R) (q : Q) (x : Except E R) : Prop :=
  ∃ n, run body n q = some x

/-- The recursion ends on `q`. -/
def Terminates (body : Q → Async Q R E R) (q : Q) : Prop := ∃ x, Returns body q x

theorem eval_eq_some_iff {f : Q → Option (Except E R)} {p : Async Q R E A} {x : Except E A} :
    p.eval f = some x ↔ Settles (fun q y => f q = some y) p x := by
  induction p with
  | ret a => rw [eval, Option.some_inj, eq_comm]; exact settles_pure.symm
  | throw e => rw [eval, Option.some_inj, eq_comm]; exact settles_throw.symm
  | call q k ih =>
    constructor
    · intro h
      rw [eval] at h
      split at h
      · cases h
      · exact .answer ‹_› ((ih _).1 h)
      · cases h
        exact .reject ‹_›
    · intro h
      cases h with
      | answer hq hr => simp only [eval, hq]; exact (ih _).2 hr
      | reject hq => simp only [eval, hq]

variable {body : Q → Async Q R E R}

theorem run_succ {n : ℕ} {q : Q} {x : Except E R} (h : run body n q = some x) :
    run body (n + 1) q = some x := by
  induction n generalizing q x with
  | zero => cases h
  | succ n ih =>
    exact eval_eq_some_iff.2 ((eval_eq_some_iff.1 h).mono fun _ _ => ih)

theorem run_mono {m n : ℕ} (hmn : m ≤ n) {q : Q} {x : Except E R} (h : run body m q = some x) :
    run body n q = some x := by
  induction hmn with
  | refl => exact h
  | step _ ih => exact run_succ ih

theorem Returns.unique {q : Q} {x y : Except E R} (hx : Returns body q x)
    (hy : Returns body q y) : x = y := by
  obtain ⟨m, hm⟩ := hx
  obtain ⟨n, hn⟩ := hy
  have h := run_mono (le_max_left m n) hm
  grind [run_mono, le_max_right]

/-- Finitely many answers are all given at some depth. -/
theorem Settles.exists_run {p : Async Q R E A} {x : Except E A}
    (h : Settles (Returns body) p x) : ∃ n, p.eval (run body n) = some x := by
  induction h with
  | ret => exact ⟨0, rfl⟩
  | throw => exact ⟨0, rfl⟩
  | answer hq _ ih =>
    obtain ⟨m, hm⟩ := hq
    obtain ⟨n, hn⟩ := ih
    refine ⟨max m n, eval_eq_some_iff.2 (.answer (run_mono (le_max_left m n) hm) ?_)⟩
    exact (eval_eq_some_iff.1 hn).mono fun _ _ => run_mono (le_max_right m n)
  | reject hq =>
    obtain ⟨m, hm⟩ := hq
    exact ⟨m, eval_eq_some_iff.2 (.reject hm)⟩

/-- The recursive equation: what the recursion settles with is what its body
    settles with, its own outcomes being the answers. -/
theorem returns_iff {q : Q} {x : Except E R} :
    Returns body q x ↔ Settles (Returns body) (body q) x := by
  constructor
  · rintro ⟨n, hn⟩
    cases n with
    | zero => cases hn
    | succ n => exact (eval_eq_some_iff.1 hn).mono fun _ _ h => ⟨n, h⟩
  · intro h
    obtain ⟨n, hn⟩ := h.exists_run
    exact ⟨n + 1, hn⟩

end Async

end WireMesh
