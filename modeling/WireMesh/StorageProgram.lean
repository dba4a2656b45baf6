import Mathlib.Data.List.AList

/-!
# Programs over a key/value storage

An asynchronous program that reads and writes a storage, one key at a time. Each operation
is atomic, but others may use the storage between two of them, so that a program is kept as
what it will do next (`StorageProgram`).

* `StorageProgram.step`: the next operation.
* `StorageProgram.exec`: the whole program, when nothing else uses the storage.
* `StorageProgram.Writes`: all that a program may write, whatever it reads.
* `StorageProgram.Returns`, `StorageProgram.Harmless`: all that a program may return, and what it
  returns only if it has not written.
-/

namespace WireMesh

/-- A program over a storage with keys in `K` and values in `V`, returning a value in `A`. -/
inductive StorageProgram (K V A : Type) : Type
  | ret (a : A)
  | get (key : K) (next : Option V → StorageProgram K V A)
  | set (key : K) (value : V) (next : StorageProgram K V A)

namespace StorageProgram

variable {K V A B : Type}

protected def bind : StorageProgram K V A → (A → StorageProgram K V B) → StorageProgram K V B
  | ret a, f => f a
  | get key next, f => get key fun value => (next value).bind f
  | set key value next, f => set key value (next.bind f)

instance : Monad (StorageProgram K V) where
  pure := ret
  bind := StorageProgram.bind

theorem bind_ret (p : StorageProgram K V A) : p.bind ret = p := by
  induction p with
  | ret a => rfl
  | get key next ih => exact congrArg (get key) (funext ih)
  | set key value next ih => exact congrArg (set key value) ih

protected theorem bind_assoc {C : Type} (p : StorageProgram K V A) (f : A → StorageProgram K V B)
    (g : B → StorageProgram K V C) : (p.bind f).bind g = p.bind fun a => (f a).bind g := by
  induction p with
  | ret a => rfl
  | get key next ih => exact congrArg (get key) (funext ih)
  | set key value next ih => exact congrArg (set key value) ih

instance : LawfulMonad (StorageProgram K V) :=
  LawfulMonad.mk' _ bind_ret (fun _ _ => rfl) StorageProgram.bind_assoc

/-- Reading a key. -/
def read (key : K) : StorageProgram K V (Option V) := get key ret

/-- Writing a key. -/
def write (key : K) (value : V) : StorageProgram K V Unit := set key value (ret ())

section Execution

variable [DecidableEq K]

/-- The next operation of a program, with the storage it leaves and what is left to do. -/
def step (storage : AList fun _ : K => V) :
    StorageProgram K V A → (AList fun _ : K => V) × StorageProgram K V A
  | ret a => (storage, ret a)
  | get key next => (storage, next (storage.lookup key))
  | set key value next => (storage.insert key value, next)

/-- The storage that the program leaves, and what it returns. -/
def exec (storage : AList fun _ : K => V) :
    StorageProgram K V A → (AList fun _ : K => V) × A
  | ret a => (storage, a)
  | get key next => (next (storage.lookup key)).exec storage
  | set key value next => next.exec (storage.insert key value)

theorem exec_step (storage : AList fun _ : K => V) (p : StorageProgram K V A) :
    (p.step storage).2.exec (p.step storage).1 = p.exec storage := by
  cases p <;> rfl

end Execution

/-! ## Programs that nothing interrupts -/

section Uninterrupted

variable [DecidableEq K] (storage : AList fun _ : K => V)

@[simp]
theorem exec_pure (a : A) : (pure a : StorageProgram K V A).exec storage = (storage, a) := rfl

@[simp]
theorem exec_read (key : K) : (read key).exec storage = (storage, storage.lookup key) := rfl

@[simp]
theorem exec_write (key : K) (value : V) :
    (write key value).exec storage = (storage.insert key value, ()) := rfl

@[simp]
theorem exec_bind (p : StorageProgram K V A) (f : A → StorageProgram K V B) :
    (p >>= f).exec storage = (f (p.exec storage).2).exec (p.exec storage).1 := by
  change (p.bind f).exec storage = _
  induction p generalizing storage with
  | ret a => rfl
  | get key next ih => exact ih _ storage
  | set key value next ih => exact ih _

@[simp]
theorem exec_map (p : StorageProgram K V A) (f : A → B) :
    (f <$> p).exec storage = ((p.exec storage).1, f (p.exec storage).2) := by
  rw [map_eq_pure_bind, exec_bind, exec_pure]

end Uninterrupted

/-! ## What a program may write -/

/-- Whatever the program reads, what it writes satisfies the condition. -/
def Writes (P : K → V → Prop) : StorageProgram K V A → Prop
  | ret _ => True
  | get _ next => ∀ value, (next value).Writes P
  | set key value next => P key value ∧ next.Writes P

variable {P : K → V → Prop}

@[simp]
theorem writes_pure (a : A) : (pure a : StorageProgram K V A).Writes P := trivial

@[simp]
theorem writes_read (key : K) : (read key : StorageProgram K V (Option V)).Writes P :=
  fun _ => trivial

@[simp]
theorem writes_write {key : K} {value : V} :
    (write key value : StorageProgram K V Unit).Writes P ↔ P key value :=
  ⟨fun h => h.1, fun h => ⟨h, trivial⟩⟩

theorem Writes.bind {p : StorageProgram K V A} {f : A → StorageProgram K V B} (hp : p.Writes P)
    (hf : ∀ a, (f a).Writes P) : (p >>= f).Writes P := by
  change (p.bind f).Writes P
  induction p with
  | ret a => exact hf a
  | get key next ih => exact fun value => ih value (hp value)
  | set key value next ih => exact ⟨hp.1, ih hp.2⟩

theorem Writes.mono {Q : K → V → Prop} (hPQ : ∀ key value, P key value → Q key value)
    {p : StorageProgram K V A} (hp : p.Writes P) : p.Writes Q := by
  induction p with
  | ret a => trivial
  | get key next ih => exact fun value => ih value (hp value)
  | set key value next ih => exact ⟨hPQ key value hp.1, ih hp.2⟩

/-- A step leaves the storage as it is, or writes one key. -/
theorem Writes.step [DecidableEq K] {p : StorageProgram K V A} (hp : p.Writes P)
    (storage : AList fun _ : K => V) :
    (p.step storage).2.Writes P ∧ ((p.step storage).1 = storage ∨
      ∃ key value, P key value ∧ (p.step storage).1 = storage.insert key value) := by
  cases p with
  | ret a => exact ⟨trivial, .inl rfl⟩
  | get key next => exact ⟨hp _, .inl rfl⟩
  | set key value next => exact ⟨hp.2, .inr ⟨key, value, hp.1, rfl⟩⟩

/-- What may not be written under a key is not. -/
theorem Writes.exec_lookup [DecidableEq K] {p : StorageProgram K V A} (hp : p.Writes P) {key : K}
    (hkey : ∀ value, ¬P key value) (storage : AList fun _ : K => V) :
    (p.exec storage).1.lookup key = storage.lookup key := by
  induction p generalizing storage with
  | ret a => rfl
  | get key' next ih => exact ih _ (hp _) storage
  | set key' value next ih =>
    have hne : key ≠ key' := fun heq => hkey value (heq ▸ hp.1)
    exact (ih hp.2 _).trans (AList.lookup_insert_ne hne)

/-- A program that only reads leaves the storage as it is. -/
theorem Writes.exec_eq [DecidableEq K] {p : StorageProgram K V A} (hp : p.Writes fun _ _ => False)
    (storage : AList fun _ : K => V) : (p.exec storage).1 = storage := by
  induction p with
  | ret a => rfl
  | get key next ih => exact ih _ (hp _)
  | set key value next ih => exact hp.1.elim

/-! ## What a program may return -/

/-- Whatever the program reads, what it returns satisfies the condition. -/
def Returns (Q : A → Prop) : StorageProgram K V A → Prop
  | ret a => Q a
  | get _ next => ∀ value, (next value).Returns Q
  | set _ _ next => next.Returns Q

/-- Whatever the program reads, once it has written it does not return a result of the given
    kind. -/
def Harmless (refused : A → Prop) : StorageProgram K V A → Prop
  | ret _ => True
  | get _ next => ∀ value, (next value).Harmless refused
  | set _ _ next => next.Returns fun a => ¬refused a

variable {Q : A → Prop} {refused : B → Prop}

theorem Returns.bind {P : B → Prop} {p : StorageProgram K V A} {f : A → StorageProgram K V B}
    (hp : p.Returns Q) (hf : ∀ a, Q a → (f a).Returns P) : (p >>= f).Returns P := by
  change (p.bind f).Returns P
  induction p with
  | ret a => exact hf a hp
  | get key next ih => exact fun value => ih value (hp value)
  | set key value next ih => exact ih hp

theorem returns_of_forall (p : StorageProgram K V A) (h : ∀ a, Q a) : p.Returns Q := by
  induction p with
  | ret a => exact h a
  | get key next ih => exact ih
  | set key value next ih => exact ih

theorem Returns.harmless {p : StorageProgram K V B} (h : p.Returns fun b => ¬refused b) :
    p.Harmless refused := by
  induction p with
  | ret b => trivial
  | get key next ih => exact fun value => ih value (h value)
  | set key value next ih => exact h

theorem Returns.step [DecidableEq K] {p : StorageProgram K V A} (h : p.Returns Q)
    (storage : AList fun _ : K => V) : (p.step storage).2.Returns Q := by
  cases p with
  | ret a => exact h
  | get key next => exact h _
  | set key value next => exact h

/-- A step leaves the storage as it is, or the program does not refuse any more. -/
theorem Harmless.step [DecidableEq K] {p : StorageProgram K V B} (h : p.Harmless refused)
    (storage : AList fun _ : K => V) :
    (p.step storage).2.Harmless refused ∧ ((p.step storage).1 = storage ∨
      (p.step storage).2.Returns fun b => ¬refused b) := by
  cases p with
  | ret b => exact ⟨trivial, .inl rfl⟩
  | get key next => exact ⟨h _, .inl rfl⟩
  | set key value next => exact ⟨Returns.harmless h, .inr h⟩

/-- If the first program has written, the second one does not refuse. -/
theorem Harmless.bind {p : StorageProgram K V A} {f : A → StorageProgram K V B}
    (hp : p.Harmless Q) (hf : ∀ a, (f a).Harmless refused)
    (hQ : ∀ a, ¬Q a → (f a).Returns fun b => ¬refused b) : (p >>= f).Harmless refused := by
  change (p.bind f).Harmless refused
  induction p with
  | ret a => exact hf a
  | get key next ih => exact fun value => ih value (hp value)
  | set key value next ih => exact Returns.bind hp hQ

theorem Writes.harmless {p : StorageProgram K V B} (hp : p.Writes fun _ _ => False) :
    p.Harmless refused := by
  induction p with
  | ret b => trivial
  | get key next ih => exact fun value => ih value (hp value)
  | set key value next ih => exact hp.1.elim

/-- The first program only reads. -/
theorem Writes.harmless_bind {p : StorageProgram K V A} (hp : p.Writes fun _ _ => False)
    {f : A → StorageProgram K V B} (hf : ∀ a, (f a).Harmless refused) :
    (p >>= f).Harmless refused :=
  Harmless.bind (Q := fun _ => True) hp.harmless hf fun _ hnot => absurd trivial hnot

end StorageProgram

end WireMesh
