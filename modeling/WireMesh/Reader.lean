import Mathlib.Data.List.Basic
import WireMesh.Text

/-!
# Readers of bytes

A reader takes bytes off its input, and returns a value and what is left of the
input, or fails.

* `bind_eq_ok` and the lemmas beside it say when a reader composed of others
  accepts an input.
* `loop_exact`, `loop_writes`: the two rules for a loop. What a loop has taken
  off its input satisfies any invariant that every step keeps; and a loop reads
  back a list of chunks when every step reads back one.
-/

namespace WireMesh

/-- A reader, failing with an `E`. -/
abbrev Reader (E : Type) := StateT Bytes (Except E)

namespace Reader

variable {E A B S : Type} {input rest : Bytes} {a : A} {b : B}

/-- The reader that fails. -/
def fail (e : E) : Reader E A := fun _ => .error e

/-- A value that does not depend on the input. -/
def ofExcept (x : Except E A) : Reader E A := fun input => x.map fun a => (a, input)

/-- A function that takes a value off the input, or fails with the given error. -/
def ofOption (e : E) (f : Bytes → Option (A × Bytes)) : Reader E A := fun input =>
  match f input with
  | some x => .ok x
  | none => .error e

/-- How much is left of the input. -/
def remaining : Reader E ℕ := fun input => .ok (input.length, input)

/-- Failing unless the condition holds. -/
def ensure (c : Prop) [Decidable c] (e : E) : Reader E Unit := if c then pure () else fail e

/-- A number of iterations of a step. -/
def loop : ℕ → (S → Reader E S) → S → Reader E S
  | 0, _, s => pure s
  | n + 1, step, s => do
    let s ← step s
    loop n step s

/-- A number of values, in a row. -/
def times (n : ℕ) (p : Reader E A) : Reader E (List A) :=
  loop n (fun items => do return items ++ [← p]) []

/-! ## When a reader accepts -/

@[simp]
theorem pure_eq_ok {a' : A} :
    (pure a : Reader E A) input = .ok (a', rest) ↔ a' = a ∧ rest = input := by
  change (Except.ok (a, input) : Except E (A × Bytes)) = _ ↔ _
  rw [Except.ok.injEq, Prod.mk.injEq, eq_comm, eq_comm (a := input)]

@[simp]
theorem fail_eq_ok {e : E} : ¬(fail e : Reader E A) input = .ok (a, rest) := nofun

@[simp]
theorem bind_eq_ok {p : Reader E A} {f : A → Reader E B} :
    (p >>= f) input = .ok (b, rest) ↔
      ∃ a mid, p input = .ok (a, mid) ∧ f a mid = .ok (b, rest) := by
  change (p input >>= fun x => f x.1 x.2) = _ ↔ _
  cases p input with
  | error e => simp [bind, Except.bind]
  | ok x =>
    obtain ⟨a, mid⟩ := x
    simp [bind, Except.bind]

@[simp]
theorem ofExcept_eq_ok {x : Except E A} :
    (ofExcept x) input = .ok (a, rest) ↔ x = .ok a ∧ rest = input := by
  cases x with
  | error e => simp [ofExcept, Except.map]
  | ok a' => simp [ofExcept, Except.map, eq_comm]

@[simp]
theorem ofOption_eq_ok {e : E} {f : Bytes → Option (A × Bytes)} :
    ofOption e f input = .ok (a, rest) ↔ f input = some (a, rest) := by
  rw [ofOption]
  cases f input <;> simp

@[simp]
theorem remaining_eq_ok {n : ℕ} :
    (remaining : Reader E ℕ) input = .ok (n, rest) ↔ n = input.length ∧ rest = input := by
  simp [remaining, eq_comm]

@[simp]
theorem ensure_eq_ok {c : Prop} [Decidable c] {e : E} {u : Unit} :
    ensure c e input = .ok (u, rest) ↔ c ∧ rest = input := by
  rw [ensure]
  split <;> simp [*]

/-! ## Loops -/

variable {step : S → Reader E S} {s s' : S} {n : ℕ}

theorem loop_succ_eq_ok :
    loop (n + 1) step s input = .ok (s', rest) ↔
      ∃ t mid, step s input = .ok (t, mid) ∧ loop n step t mid = .ok (s', rest) :=
  bind_eq_ok

/-- What every step keeps about the number of iterations, the state and the bytes taken so
    far, the loop keeps. -/
theorem loop_exact (Inv : ℕ → S → Bytes → Prop)
    (hstep : ∀ k s taken input s' rest, Inv k s taken → step s input = .ok (s', rest) →
      ∃ more, input = more ++ rest ∧ Inv (k + 1) s' (taken ++ more))
    (hinv : Inv 0 s []) (h : loop n step s input = .ok (s', rest)) :
    ∃ taken, input = taken ++ rest ∧ Inv n s' taken := by
  suffices hloop : ∀ {n k s taken input}, Inv k s taken → loop n step s input = .ok (s', rest) →
      ∃ more, input = more ++ rest ∧ Inv (k + n) s' (taken ++ more) by grind
  intro n k s taken input hinv h
  induction n generalizing k s taken input with
  | zero =>
    obtain ⟨rfl, rfl⟩ := pure_eq_ok.1 h
    exact ⟨[], rfl, by simpa using hinv⟩
  | succ n ih => grind [loop_succ_eq_ok]

/-- A loop reads back what is written for the items of a list, the state being what it is to
    be after each of them. -/
theorem loop_writes {X : Type} {write : X → Bytes} (state : List X → S) {items : List X}
    (hstep : ∀ before x after rest, items = before ++ x :: after →
      step (state before) (write x ++ rest) = .ok (state (before ++ [x]), rest)) (rest : Bytes) :
    loop items.length step (state []) (items.flatMap write ++ rest) = .ok (state items, rest) := by
  suffices h : ∀ before after, items = before ++ after →
      loop after.length step (state before) (after.flatMap write ++ rest) =
        .ok (state items, rest) from h [] items rfl
  intro before after hitems
  induction after generalizing before with
  | nil => simp [loop, hitems]
  | cons x after ih => grind [loop_succ_eq_ok]

/-- Values in a row are read from their encodings in a row. -/
theorem times_exact {p : Reader E A} (encode : A → Bytes) (P : A → Prop)
    (hp : ∀ input a rest, p input = .ok (a, rest) → input = encode a ++ rest ∧ P a)
    {items : List A} (h : times n p input = .ok (items, rest)) :
    input = items.flatMap encode ++ rest ∧ items.length = n ∧ ∀ a ∈ items, P a := by
  have hloop := loop_exact
    (fun k items taken => taken = items.flatMap encode ∧ items.length = k ∧ ∀ a ∈ items, P a)
    ?_ ⟨rfl, rfl, by simp⟩ h
  · grind
  · grind [bind_eq_ok, pure_eq_ok]

theorem times_writes {p : Reader E A} {encode : A → Bytes} (norm : A → A) {items : List A}
    (hp : ∀ a ∈ items, ∀ rest, p (encode a ++ rest) = .ok (norm a, rest)) (rest : Bytes) :
    times items.length p (items.flatMap encode ++ rest) = .ok (items.map norm, rest) := by
  refine loop_writes (fun done => done.map norm) ?_ rest
  grind [bind_eq_ok, pure_eq_ok]

end Reader

end WireMesh
