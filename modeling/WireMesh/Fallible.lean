import Mathlib.Data.List.Basic
import Mathlib.Data.List.Forall2

/-!
# Computations that fail

Rules for computations in `Except`: what a computation that has succeeded has computed on its way,
and loops whose every step succeeds.
-/

namespace WireMesh

variable {α β ε : Type}

theorem ok_bind (a : α) (f : α → Except ε β) : (Except.ok a >>= f) = f a := rfl

theorem mapError_ok {ε' : Type} (f : ε → ε') (a : α) :
    (Except.ok a : Except ε α).mapError f = .ok a := rfl

theorem of_bind_eq_ok {x : Except ε α} {f : α → Except ε β} {b : β} (h : (x >>= f) = .ok b) :
    ∃ a, x = .ok a ∧ f a = .ok b := by
  rcases x with e | a
  · cases h
  · exact ⟨a, rfl, h⟩

theorem of_mapError_eq_ok {ε' : Type} {x : Except ε α} {f : ε → ε'} {a : α}
    (h : x.mapError f = .ok a) : x = .ok a := by
  rcases x with e | b
  · cases h
  · exact congrArg Except.ok (Except.ok.inj h)

theorem exists_eq_ok_of_toOption {x : Except ε α} {f : α → β} {b : β}
    (h : x.toOption.map f = some b) : ∃ a, x = .ok a ∧ f a = b := by
  rcases x with e | a
  · cases h
  · exact ⟨a, rfl, Option.some.inj h⟩

/-- A computation that throws unless a condition fails. -/
theorem of_guard_eq_ok {p : Prop} [Decidable p] {e : ε} {f : Unit → Except ε β} {x : Except ε β}
    {b : β} (h : (if p then throw e >>= f else x) = .ok b) : ¬p ∧ x = .ok b := by
  split_ifs at h with hp
  · cases h
  · exact ⟨hp, h⟩

/-! ## Loops over lists -/

theorem mapM_ok {l : List α} {f : α → Except ε β} {g : α → β} (h : ∀ a ∈ l, f a = .ok (g a)) :
    l.mapM f = .ok (l.map g) := by
  induction l with
  | nil => rfl
  | cons a l ih =>
    rw [List.mapM_cons, h a List.mem_cons_self, ih fun b hb => h b (List.mem_cons_of_mem a hb)]
    rfl

theorem forall₂_of_mapM {l : List α} {f : α → Except ε β} {r : List β} (h : l.mapM f = .ok r) :
    List.Forall₂ (fun a b => f a = .ok b) l r := by
  induction l generalizing r with
  | nil =>
    obtain rfl := Except.ok.inj h
    exact .nil
  | cons a l ih =>
    rw [List.mapM_cons] at h
    obtain ⟨b, hb, h⟩ := of_bind_eq_ok h
    obtain ⟨r', hr', h⟩ := of_bind_eq_ok h
    obtain rfl := Except.ok.inj h
    exact .cons hb (ih hr')

theorem exists_ok_of_mapM {l : List α} {f : α → Except ε β} {r : List β} (h : l.mapM f = .ok r)
    {a : α} (ha : a ∈ l) : ∃ b, f a = .ok b := by
  replace h := forall₂_of_mapM h
  induction h with
  | nil => cases ha
  | cons hb _ ih =>
    rcases List.mem_cons.1 ha with rfl | ha
    · exact ⟨_, hb⟩
    · exact ih ha

theorem mapM_of_forall₂ {l : List α} {f : α → Except ε β} {r : List β}
    (h : List.Forall₂ (fun a b => f a = .ok b) l r) : l.mapM f = .ok r := by
  induction h with
  | nil => rfl
  | cons ha _ ih =>
    rw [List.mapM_cons, ha, ih]
    rfl

theorem forM_ok {l : List α} {f : α → Except ε Unit} (h : ∀ a ∈ l, f a = .ok ()) :
    l.forM f = .ok () := by
  induction l with
  | nil => rfl
  | cons a l ih =>
    change f a >>= (fun _ => l.forM f) = _
    rw [h a List.mem_cons_self, ok_bind, ih fun a ha => h a (List.mem_cons_of_mem _ ha)]

theorem forM_eq_ok_iff {l : List α} {f : α → Except ε Unit} :
    l.forM f = .ok () ↔ ∀ a ∈ l, f a = .ok () := by
  refine ⟨fun h => ?_, forM_ok⟩
  induction l with
  | nil => simp
  | cons a l ih =>
    obtain ⟨_, ha, h⟩ := of_bind_eq_ok (show f a >>= (fun _ => l.forM f) = _ from h)
    exact List.forall_mem_cons.2 ⟨ha, ih h⟩

/-! ## Loops over numbers -/

theorem foldl_range {f : β → ℕ → β} {k : ℕ} (after : ℕ → β)
    (h : ∀ m < k, f (after m) m = after (m + 1)) :
    (List.range k).foldl f (after 0) = after k := by
  induction k with
  | zero => rfl
  | succ k ih => grind [List.range_succ]

theorem foldlM_range_succ {μ : Type → Type} [Monad μ] [LawfulMonad μ] (f : α → ℕ → μ α) (a : α)
    (k : ℕ) : (List.range (k + 1)).foldlM f a = (List.range k).foldlM f a >>= fun b => f b k := by
  simp [List.range_succ, List.foldlM_append]

theorem foldlM_range {f : β → ℕ → Except ε β} {k : ℕ} (after : ℕ → β)
    (h : ∀ m < k, f (after m) m = .ok (after (m + 1))) :
    (List.range k).foldlM f (after 0) = .ok (after k) := by
  induction k with
  | zero => rfl
  | succ k ih =>
    rw [foldlM_range_succ, ih fun m hm => h m (by omega)]
    exact h k (by omega)

end WireMesh
