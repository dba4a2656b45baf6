import Mathlib.Algebra.Field.Basic
import Mathlib.Algebra.Group.Hom.End

/-!
# Fields with a generator

A finite field is known by its addition and by one map: the multiplication by an element whose
powers are all the elements but zero. Every other product is then found by adding logarithms, and
all laws of a field follow from what that map does (`Generator.power_mul`).
-/

namespace WireMesh

/-- An additive group with a map that runs through all its elements but zero, from `one` on. -/
structure Generator (F : Type*) [AddCommGroup F] where
  /-- The multiplication by the generator. -/
  shift : F →+ F
  one : F
  log : F → ℕ
  order : ℕ
  order_pos : 0 < order
  one_ne_zero : one ≠ 0
  shift_log : ∀ a ≠ 0, shift^[log a] one = a
  shift_order : shift^[order] one = one
  log_le : ∀ a ≠ 0, log a ≤ order

namespace Generator

variable {F : Type*} [AddCommGroup F] (g : Generator F)

def power (i : ℕ) : F := g.shift^[i] g.one

theorem power_log {a : F} (ha : a ≠ 0) : g.power (g.log a) = a := g.shift_log a ha

theorem power_add (i j : ℕ) : g.power (i + j) = g.shift^[i] (g.power j) :=
  Function.iterate_add_apply ..

theorem power_order_mul (k : ℕ) : g.power (g.order * k) = g.one := by
  induction k with
  | zero => rfl
  | succ k ih =>
    rw [Nat.mul_succ, power_add, power, g.shift_order]
    exact ih

theorem iterate_zero (i : ℕ) : g.shift^[i] 0 = 0 := by
  induction i with
  | zero => rfl
  | succ i ih => rw [Function.iterate_succ_apply, map_zero, ih]

theorem iterate_add (i : ℕ) (a b : F) : g.shift^[i] (a + b) = g.shift^[i] a + g.shift^[i] b := by
  induction i generalizing a b with
  | zero => rfl
  | succ i ih => simp only [Function.iterate_succ_apply, map_add, ih]

theorem power_ne_zero (i : ℕ) : g.power i ≠ 0 := by
  intro hzero
  -- A later power is `one` again.
  have hle : i ≤ g.order * i := Nat.le_mul_of_pos_left i g.order_pos
  have hone := g.power_order_mul i
  rw [← Nat.sub_add_cancel hle, power_add, hzero, iterate_zero] at hone
  exact g.one_ne_zero hone.symm

variable [DecidableEq F]

protected def mul (a b : F) : F := if a = 0 ∨ b = 0 then 0 else g.power (g.log a + g.log b)

protected def inv (a : F) : F := if a = 0 then 0 else g.power (g.order - g.log a)

/-- The multiplication by a power of the generator. -/
theorem power_mul (i : ℕ) (b : F) : g.mul (g.power i) b = g.shift^[i] b := by
  by_cases hb : b = 0
  · rw [hb, iterate_zero, Generator.mul, if_pos (.inr rfl)]
  · rw [Generator.mul, if_neg (by simp [g.power_ne_zero i, hb]), Nat.add_comm, power_add,
      g.power_log (g.power_ne_zero i), power, ← Function.iterate_add_apply, Nat.add_comm,
      Function.iterate_add_apply]
    exact congrArg _ (g.power_log hb)

theorem zero_mul (b : F) : g.mul 0 b = 0 := if_pos (.inl rfl)

theorem mul_comm (a b : F) : g.mul a b = g.mul b a := by
  simp only [Generator.mul, or_comm, Nat.add_comm]

theorem mul_assoc (a b c : F) : g.mul (g.mul a b) c = g.mul a (g.mul b c) := by
  by_cases ha : a = 0
  · rw [ha, zero_mul, zero_mul, zero_mul]
  by_cases hb : b = 0
  · rw [hb, g.mul_comm a, zero_mul, zero_mul, g.mul_comm a, zero_mul]
  rw [← g.power_log ha, ← g.power_log hb, power_mul, ← power_add, power_mul, power_mul, power_mul,
    Function.iterate_add_apply]

theorem mul_add (a b c : F) : g.mul a (b + c) = g.mul a b + g.mul a c := by
  by_cases ha : a = 0
  · rw [ha, zero_mul, zero_mul, zero_mul, add_zero]
  · rw [← g.power_log ha, power_mul, power_mul, power_mul, iterate_add]

theorem one_mul (b : F) : g.mul g.one b = b := g.power_mul 0 b

theorem mul_inv_cancel {a : F} (ha : a ≠ 0) : g.mul a (g.inv a) = g.one := by
  have hmul := g.power_mul (g.log a) (g.power (g.order - g.log a))
  rw [g.power_log ha, ← power_add, Nat.add_sub_cancel' (g.log_le a ha)] at hmul
  rw [Generator.inv, if_neg ha, hmul]
  exact g.shift_order

/-- The field with the addition of the group. -/
@[reducible]
def field : Field F where
  mul := g.mul
  one := g.one
  inv := g.inv
  mul_assoc := g.mul_assoc
  one_mul := g.one_mul
  mul_one a := (g.mul_comm a g.one).trans (g.one_mul a)
  zero_mul := g.zero_mul
  mul_zero a := (g.mul_comm a 0).trans (g.zero_mul a)
  left_distrib := g.mul_add
  right_distrib a b c := by
    change g.mul (a + b) c = g.mul a c + g.mul b c
    rw [g.mul_comm, g.mul_add, g.mul_comm c a, g.mul_comm c b]
  mul_comm := g.mul_comm
  exists_pair_ne := ⟨g.one, 0, g.one_ne_zero⟩
  mul_inv_cancel _ := g.mul_inv_cancel
  inv_zero := if_pos rfl
  nnqsmul := _
  qsmul := _

end Generator

end WireMesh
