import Mathlib.Algebra.BigOperators.Group.Finset.Sigma
import Mathlib.Algebra.BigOperators.Pi
import Mathlib.Algebra.BigOperators.Ring.Finset
import Mathlib.Algebra.Field.Basic
import Mathlib.Algebra.Module.Pi
import Mathlib.Algebra.Module.Submodule.Lattice
import Mathlib.LinearAlgebra.Matrix.NonsingularInverse
import Mathlib.Logic.Equiv.Basic

/-!
# Gauss-Jordan elimination

The inverse of a matrix over any field, by elimination in the matrix next to the identity. Rows are
sequences of entries, of which only the first ones matter.

* `Nonsingular`: no column is a combination of the others. No step changes this, so that there is
  always a pivot (`exists_pivot`).
* Whatever is closed under sums and multiples holds of the rows at the end if it holds of them at
  the start (`Reduced.mem`). For the rows of a matrix next to the identity, it is that the left half
  is the right half times the matrix, from which the inverse is read off (`exists_inverse`).
-/

namespace WireMesh.GaussJordan

variable {F : Type*} [Field F]

/-! ## The algorithm -/

def swap (rows : ℕ → ℕ → F) (i j : ℕ) : ℕ → ℕ → F := fun r => rows (Equiv.swap i j r)

/-- The entry on the diagonal becomes one. -/
def scale (rows : ℕ → ℕ → F) (column : ℕ) : ℕ → ℕ → F :=
  Function.update rows column ((rows column column)⁻¹ • rows column)

/-- The other entries of the column become zero. -/
def clear (rows : ℕ → ℕ → F) (column : ℕ) : ℕ → ℕ → F := fun r =>
  if r = column then rows column else rows r - rows r column • rows column

/-- The matrix next to the identity. -/
def augment (n : ℕ) (matrix : ℕ → ℕ → F) : ℕ → ℕ → F := fun r c =>
  if c < n then matrix r c else if c = n + r then 1 else 0

section Algorithm

variable [DecidableEq F]

/-- The first row, from the diagonal on, whose entry in the column is not zero. -/
def pivot (n : ℕ) (rows : ℕ → ℕ → F) (column : ℕ) : Option ℕ :=
  (List.range' column (n - column)).find? fun r => rows r column ≠ 0

def step (n : ℕ) (rows : ℕ → ℕ → F) (column : ℕ) : Option (ℕ → ℕ → F) :=
  (pivot n rows column).map fun p => clear (scale (swap rows column p) column) column

def eliminate (n : ℕ) (rows : ℕ → ℕ → F) : Option (ℕ → ℕ → F) :=
  (List.range n).foldlM (step n) rows

end Algorithm

/-! ## What the steps keep -/

/-- The first columns are done with: they are those of the identity. -/
def Cleared (n k : ℕ) (rows : ℕ → ℕ → F) : Prop :=
  ∀ r < n, ∀ j < k, rows r j = if r = j then 1 else 0

/-- No combination of the first columns is zero. -/
def Nonsingular (n : ℕ) (rows : ℕ → ℕ → F) : Prop :=
  ∀ x : ℕ → F, (∀ r < n, ∑ j ∈ Finset.range n, rows r j * x j = 0) → ∀ j < n, x j = 0

/-- What holds when the first `k` columns are done with. Where `K` has only what is zero, the rows
    are nonsingular. -/
@[grind cases]
structure Reduced (n k : ℕ) (K : Set (ℕ → F)) (S : Submodule F (ℕ → F)) (rows : ℕ → ℕ → F) :
    Prop where
  kernel : ∀ x : ℕ → F, (∀ r < n, ∑ j ∈ Finset.range n, rows r j * x j = 0) → x ∈ K
  cleared : Cleared n k rows
  mem : ∀ r < n, rows r ∈ S

variable {n k p : ℕ} {rows : ℕ → ℕ → F} {K : Set (ℕ → F)}
  {S : Submodule F (ℕ → F)}

theorem swap_lt (hk : k < n) (hp : p < n) {r : ℕ} (hr : r < n) : Equiv.swap k p r < n := by
  rw [Equiv.swap_apply_def]
  split_ifs <;> assumption

theorem Reduced.swap (h : Reduced n k K S rows) (hp : p < n) (hk : k ≤ p) :
    Reduced n k K S (swap rows k p) := by
  have hkn : k < n := by omega
  refine ⟨fun x hx => h.kernel x fun r hr => ?_, fun r hr j hj => ?_, fun r hr => ?_⟩
  · have hrow := hx (Equiv.swap k p r) (swap_lt hkn hp hr)
    rwa [GaussJordan.swap, Equiv.swap_apply_self] at hrow
  · -- Neither of the two rows has a column that is done with.
    rw [GaussJordan.swap, h.cleared _ (swap_lt hkn hp hr) j hj, Equiv.swap_apply_def]
    split_ifs <;> first | rfl | omega
  · exact h.mem _ (swap_lt hkn hp hr)

theorem Reduced.scale (h : Reduced n k K S rows) (hk : k < n) (hpivot : rows k k ≠ 0) :
    Reduced n k K S (scale rows k) := by
  refine ⟨fun x hx => h.kernel x fun r hr => ?_, fun r hr j hj => ?_, fun r hr => ?_⟩ <;>
    rcases eq_or_ne r k with rfl | hne
  · have hrow := hx r hr
    simp only [GaussJordan.scale, Function.update_self, Pi.smul_apply, smul_eq_mul, mul_assoc,
      ← Finset.mul_sum] at hrow
    exact (mul_eq_zero.1 hrow).resolve_left (inv_ne_zero hpivot)
  · simpa only [GaussJordan.scale, Function.update_of_ne hne] using hx r hr
  · have hzero : rows r j = 0 := by rw [h.cleared r hr j hj, if_neg (by omega)]
    rw [GaussJordan.scale, Function.update_self, Pi.smul_apply, hzero, smul_zero, if_neg (by omega)]
  · rw [GaussJordan.scale, Function.update_of_ne hne, h.cleared r hr j hj]
  · rw [GaussJordan.scale, Function.update_self]
    exact S.smul_mem _ (h.mem r hr)
  · rw [GaussJordan.scale, Function.update_of_ne hne]
    exact h.mem r hr

theorem scale_pivot (hpivot : rows k k ≠ 0) : scale rows k k k = 1 := by
  rw [scale, Function.update_self, Pi.smul_apply, smul_eq_mul, inv_mul_cancel₀ hpivot]

theorem Reduced.clear (h : Reduced n k K S rows) (hk : k < n) (hpivot : rows k k = 1) :
    Reduced n (k + 1) K S (clear rows k) := by
  refine ⟨fun x hx => ?_, fun r hr j hj => ?_, fun r hr => ?_⟩
  · have hzero : ∑ j ∈ Finset.range n, rows k j * x j = 0 := by
      simpa [GaussJordan.clear] using hx k hk
    refine h.kernel x fun r hr => ?_
    have hrow := hx r hr
    rcases eq_or_ne r k with rfl | hne
    · exact hzero
    · -- The row is what it has become and a multiple of the pivot row.
      simp only [GaussJordan.clear, if_neg hne, Pi.sub_apply, Pi.smul_apply, smul_eq_mul, sub_mul,
        mul_assoc, Finset.sum_sub_distrib, ← Finset.mul_sum, hzero, mul_zero, sub_zero] at hrow
      exact hrow
  · rcases eq_or_ne r k with rfl | hne
    · rw [GaussJordan.clear, if_pos rfl]
      rcases (Nat.lt_succ_iff.1 hj).eq_or_lt with rfl | hlt
      · rw [hpivot, if_pos rfl]
      · exact h.cleared r hr j hlt
    · rw [GaussJordan.clear, if_neg hne, Pi.sub_apply, Pi.smul_apply, smul_eq_mul]
      rcases (Nat.lt_succ_iff.1 hj).eq_or_lt with rfl | hlt
      · rw [hpivot, mul_one, sub_self, if_neg hne]
      · rw [h.cleared k hk j hlt, if_neg (by omega : k ≠ j), mul_zero, sub_zero,
          h.cleared r hr j hlt]
  · grind [GaussJordan.clear, Submodule.sub_mem, Submodule.smul_mem]

/-- The rows whose left half is the right half times the matrix. -/
def consistent (n : ℕ) (matrix : ℕ → ℕ → F) : Submodule F (ℕ → F) where
  carrier := { row | ∀ j < n, row j = ∑ i ∈ Finset.range n, row (n + i) * matrix i j }
  add_mem' := by
    intro a b ha hb j hj
    simp only [Pi.add_apply, add_mul, Finset.sum_add_distrib, ha j hj, hb j hj]
  zero_mem' := by simp
  smul_mem' := by
    intro c a ha j hj
    simp only [Pi.smul_apply, smul_eq_mul, mul_assoc, ← Finset.mul_sum, ha j hj]

theorem reduced_augment {matrix : ℕ → ℕ → F}
    (h : ∀ x : ℕ → F, (∀ r < n, ∑ j ∈ Finset.range n, matrix r j * x j = 0) → x ∈ K) :
    Reduced n 0 K (consistent n matrix) (augment n matrix) := by
  refine ⟨fun x hx => h x fun r hr => ?_, fun _ _ _ hj => absurd hj (Nat.not_lt_zero _), ?_⟩
  · grind [Finset.sum_congr, augment]
  · intro r hr j hj
    have hterm : ∀ i ∈ Finset.range n, augment n matrix r (n + i) * matrix i j =
        if i = r then matrix r j else 0 := by grind [augment]
    rw [Finset.sum_congr rfl hterm, Finset.sum_ite_eq', if_pos (Finset.mem_range.2 hr), augment,
      if_pos hj]

/-! ## Elimination -/

section Elimination

variable [DecidableEq F]

theorem pivot_spec (h : pivot n rows k = some p) : k ≤ p ∧ p < n ∧ rows p k ≠ 0 := by
  have hmem := List.mem_of_find?_eq_some h
  have hne := List.find?_some h
  grind

/-- Without a pivot, the column would be a combination of those that are done with. -/
theorem exists_pivot (h : Nonsingular n rows) (hcleared : Cleared n k rows) (hk : k < n) :
    ∃ p, pivot n rows k = some p := by
  rw [← Option.isSome_iff_exists, Option.isSome_iff_ne_none]
  intro hnone
  have hzero : ∀ r, k ≤ r → r < n → rows r k = 0 := by
    intro r hle hlt
    have hr := List.find?_eq_none.1 hnone r (List.mem_range'_1.2 ⟨hle, by omega⟩)
    simpa using hr
  let x : ℕ → F := fun j => if j < k then -rows j k else if j = k then 1 else 0
  have hx : ∀ r < n, ∑ j ∈ Finset.range n, rows r j * x j = 0 := by
    intro r hr
    have hterm : ∀ j ∈ Finset.range n, rows r j * x j =
        (if j = k then rows r k else 0) +
          if j = r then (if r < k then -rows r k else 0) else 0 := by
      intro j hj
      rcases lt_trichotomy j k with hlt | rfl | hlt
      · rw [hcleared r hr j hlt]
        grind
      · grind
      · grind
    rw [Finset.sum_congr rfl hterm, Finset.sum_add_distrib, Finset.sum_ite_eq', Finset.sum_ite_eq',
      if_pos (Finset.mem_range.2 hk), if_pos (Finset.mem_range.2 hr)]
    grind
  have hone := h x hx k hk
  simp [x] at hone

theorem Reduced.step (h : Reduced n k K S rows) (hk : k < n) {rows' : ℕ → ℕ → F}
    (hstep : step n rows k = some rows') : Reduced n (k + 1) K S rows' := by
  obtain ⟨p, hp, rfl⟩ := Option.map_eq_some_iff.1 hstep
  obtain ⟨hle, hlt, hne⟩ := pivot_spec hp
  have hpivot : GaussJordan.swap rows k p k k ≠ 0 := by
    rwa [GaussJordan.swap, Equiv.swap_apply_left]
  exact ((h.swap hlt hle).scale hk hpivot).clear hk (scale_pivot hpivot)

theorem Reduced.steps (h : Reduced n 0 K S rows) (hk : k ≤ n) {rows' : ℕ → ℕ → F}
    (hsteps : (List.range k).foldlM (GaussJordan.step n) rows = some rows') :
    Reduced n k K S rows' := by
  induction k generalizing rows' with
  | zero =>
    obtain rfl : rows = rows' := Option.some.inj hsteps
    exact h
  | succ k ih =>
    rw [List.range_succ, List.foldlM_append] at hsteps
    obtain ⟨before, hbefore, hstep⟩ := Option.bind_eq_some_iff.1 hsteps
    exact (ih (by omega) hbefore).step hk (by simpa using hstep)

/-- Nonsingular rows are reduced to the end. -/
theorem Reduced.exists_eliminate (h : Reduced n 0 { x | ∀ j < n, x j = 0 } S rows) :
    ∃ rows', eliminate n rows = some rows' := by
  have hsteps : ∀ k ≤ n, ∃ rows', (List.range k).foldlM (GaussJordan.step n) rows = some rows' := by
    intro k
    induction k with
    | zero => exact fun _ => ⟨rows, rfl⟩
    | succ k ih =>
      intro hk
      obtain ⟨before, hbefore⟩ := ih (by omega)
      have hreduced := h.steps (by omega) hbefore
      obtain ⟨p, hp⟩ := exists_pivot hreduced.kernel hreduced.cleared hk
      simp [List.range_succ, List.foldlM_append, hbefore, GaussJordan.step, hp]
  exact hsteps n le_rfl

/-- The right half of the rows becomes the inverse of the matrix. -/
theorem inverse_of_eliminate {matrix : ℕ → ℕ → F}
    (h : eliminate n (augment n matrix) = some rows) :
    ∀ r < n, ∀ j < n,
      ∑ i ∈ Finset.range n, rows r (n + i) * matrix i j = if r = j then 1 else 0 := by
  intro r hr j hj
  have hrows := (reduced_augment (K := Set.univ) fun _ _ => trivial).steps le_rfl h
  rw [← hrows.mem r hr j hj, hrows.cleared r hr j hj]

/-- A nonsingular matrix has an inverse. -/
theorem exists_inverse {matrix : ℕ → ℕ → F} (h : Nonsingular n matrix) :
    ∃ rows, eliminate n (augment n matrix) = some rows ∧
      ∀ r < n, ∀ j < n,
        ∑ i ∈ Finset.range n, rows r (n + i) * matrix i j = if r = j then 1 else 0 := by
  obtain ⟨rows, heliminate⟩ := (reduced_augment h).exists_eliminate
  exact ⟨rows, heliminate, inverse_of_eliminate heliminate⟩

end Elimination

/-- A matrix with an inverse on one side has it on the other. -/
theorem mul_inverse {inverse matrix : ℕ → ℕ → F}
    (h : ∀ r < n, ∀ j < n,
      ∑ i ∈ Finset.range n, inverse r i * matrix i j = if r = j then 1 else 0) :
    ∀ r < n, ∀ j < n,
      ∑ i ∈ Finset.range n, matrix r i * inverse i j = if r = j then 1 else 0 := by
  let square (m : ℕ → ℕ → F) : Matrix (Fin n) (Fin n) F := .of fun r j => m r j
  have hmul (a b : ℕ → ℕ → F) : square a * square b = 1 ↔
      ∀ r < n, ∀ j < n, ∑ i ∈ Finset.range n, a r i * b i j = if r = j then 1 else 0 := by
    simp [← Matrix.ext_iff, Fin.forall_iff, Matrix.mul_apply, Matrix.one_apply, square,
      Finset.sum_range]
  exact (hmul _ _).1 (mul_eq_one_comm.1 ((hmul _ _).2 h))

/-- An inverse undoes the matrix. -/
theorem sum_inverse_mul {inverse matrix : ℕ → ℕ → F}
    (h : ∀ r < n, ∀ j < n,
      ∑ i ∈ Finset.range n, inverse r i * matrix i j = if r = j then 1 else 0)
    (x : ℕ → F) {r : ℕ} (hr : r < n) :
    ∑ i ∈ Finset.range n, inverse r i * ∑ j ∈ Finset.range n, matrix i j * x j = x r :=
  calc ∑ i ∈ Finset.range n, inverse r i * ∑ j ∈ Finset.range n, matrix i j * x j
    _ = ∑ j ∈ Finset.range n, (∑ i ∈ Finset.range n, inverse r i * matrix i j) * x j := by
      simp only [Finset.mul_sum, Finset.sum_mul, mul_assoc]
      exact Finset.sum_comm
    _ = ∑ j ∈ Finset.range n, if r = j then x r else 0 := by grind [Finset.sum_congr]
    _ = x r := by rw [Finset.sum_ite_eq, if_pos (Finset.mem_range.2 hr)]

end WireMesh.GaussJordan
