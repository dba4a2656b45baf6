import Mathlib.Data.Set.Insert
import Mathlib.Logic.Function.Basic
import Mathlib.Order.Interval.Set.Basic

/-!
# Resources that are used once

A ledger says where each of the resources is that have been issued: nowhere, or in one place. A
resource may be moved to another place or be dropped, but it is never in two places, so that what
has come to a place where it is used cannot come to another one. Only what has not been issued may
be issued.
-/

namespace WireMesh

variable {P A : Type*}

/-- Where the resources are that have been issued. -/
structure Ledger (P A : Type*) where
  held : P → Option A
  issued : Set A
  mem_issued : ∀ {p : P} {a : A}, held p = some a → a ∈ issued
  unique : ∀ {p q : P} {a : A}, held p = some a → held q = some a → p = q

namespace Ledger

variable {p q : P} {a : A}

def empty (issued : Set A) : Ledger P A where
  held _ := none
  issued := issued
  mem_issued h := (Option.some_ne_none _ h.symm).elim
  unique h := (Option.some_ne_none _ h.symm).elim

/-- What is nowhere may count as issued, or as not issued. -/
def revise (l : Ledger P A) (issued : Set A)
    (h : ∀ {p : P} {a : A}, l.held p = some a → a ∈ issued) : Ledger P A where
  held := l.held
  issued := issued
  mem_issued := h
  unique := l.unique

variable [DecidableEq P]

theorem mem_issue (l : Ledger P A) {new : A}
    (h : Function.update l.held p (some new) q = some a) : a ∈ insert new l.issued := by
  grind [mem_issued]

theorem unique_issue (l : Ledger P A) {new : A} (hnew : new ∉ l.issued) {r : P}
    (hq : Function.update l.held p (some new) q = some a)
    (hr : Function.update l.held p (some new) r = some a) : q = r := by
  -- What is issued now has not been issued before.
  grind [mem_issued, unique]

/-- A resource is issued to a place. -/
def issue (l : Ledger P A) (p : P) (new : A) (hnew : new ∉ l.issued) : Ledger P A where
  held := Function.update l.held p (some new)
  issued := insert new l.issued
  mem_issued := l.mem_issue
  unique := l.unique_issue hnew

theorem mem_drop (l : Ledger P A) (h : Function.update l.held p none q = some a) :
    a ∈ l.issued := by grind [mem_issued]

theorem unique_drop (l : Ledger P A) {r : P} (hq : Function.update l.held p none q = some a)
    (hr : Function.update l.held p none r = some a) : q = r := by grind [unique]

def drop (l : Ledger P A) (p : P) : Ledger P A where
  held := Function.update l.held p none
  issued := l.issued
  mem_issued := l.mem_drop
  unique := l.unique_drop

theorem move_eq_some (l : Ledger P A) {r : P}
    (h : Function.update (Function.update l.held q (l.held p)) p none r = some a) :
    r = q ∧ l.held p = some a ∨ r ≠ p ∧ r ≠ q ∧ l.held r = some a := by grind

theorem mem_move (l : Ledger P A) {r : P}
    (h : Function.update (Function.update l.held q (l.held p)) p none r = some a) :
    a ∈ l.issued := by
  rcases l.move_eq_some h with ⟨-, h⟩ | ⟨-, -, h⟩ <;> exact l.mem_issued h

theorem unique_move (l : Ledger P A) {r s : P}
    (hr : Function.update (Function.update l.held q (l.held p)) p none r = some a)
    (hs : Function.update (Function.update l.held q (l.held p)) p none s = some a) : r = s := by
  grind [unique]

/-- What is at `p` is moved to `q`. -/
def move (l : Ledger P A) (p q : P) : Ledger P A where
  held := Function.update (Function.update l.held q (l.held p)) p none
  issued := l.issued
  mem_issued := l.mem_move
  unique := l.unique_move

end Ledger

/-! ## Tracked resources -/

/-- The resources are where a ledger says. -/
def Tracked (held : P → Option A) (issued : Set A) : Prop :=
  ∃ l : Ledger P A, l.held = held ∧ l.issued = issued

namespace Tracked

variable {held : P → Option A} {issued : Set A}

theorem empty (issued : Set A) : Tracked (fun _ : P => none) issued := ⟨.empty issued, rfl, rfl⟩

theorem congr (h : Tracked held issued) {held' : P → Option A} (heq : ∀ p, held' p = held p) :
    Tracked held' issued := by
  rwa [funext heq]

theorem mem_issued (h : Tracked held issued) {p : P} {a : A} (hp : held p = some a) :
    a ∈ issued := by
  obtain ⟨l, rfl, rfl⟩ := h
  exact l.mem_issued hp

theorem unique (h : Tracked held issued) {p q : P} {a : A} (hp : held p = some a)
    (hq : held q = some a) : p = q := by
  obtain ⟨l, rfl, rfl⟩ := h
  exact l.unique hp hq

theorem revise (h : Tracked held issued) {t : Set A}
    (ht : ∀ {p : P} {a : A}, held p = some a → a ∈ t) : Tracked held t := by
  obtain ⟨l, rfl, rfl⟩ := h
  exact ⟨l.revise t ht, rfl, rfl⟩

theorem mono (h : Tracked held issued) {t : Set A} (ht : issued ⊆ t) : Tracked held t :=
  h.revise fun hp => ht (h.mem_issued hp)

variable [DecidableEq P]

theorem issue (h : Tracked held issued) (p : P) {new : A} (hnew : new ∉ issued) :
    Tracked (Function.update held p (some new)) (insert new issued) := by
  obtain ⟨l, rfl, rfl⟩ := h
  exact ⟨l.issue p new hnew, rfl, rfl⟩

/-- Resources that are numbered as they are issued. -/
theorem issue_next {held : P → Option ℕ} {n : ℕ} (h : Tracked held (Set.Iio n)) (p : P) :
    Tracked (Function.update held p (some n)) (Set.Iio (n + 1)) := by
  refine (h.issue p Set.self_notMem_Iio).mono fun m hm => ?_
  grind

theorem drop (h : Tracked held issued) (p : P) : Tracked (Function.update held p none) issued := by
  obtain ⟨l, rfl, rfl⟩ := h
  exact ⟨l.drop p, rfl, rfl⟩

theorem move (h : Tracked held issued) (p q : P) :
    Tracked (Function.update (Function.update held q (held p)) p none) issued := by
  obtain ⟨l, rfl, rfl⟩ := h
  exact ⟨l.move p q, rfl, rfl⟩

end Tracked

end WireMesh
