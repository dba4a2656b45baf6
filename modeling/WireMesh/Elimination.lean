import WireMesh.ByteField
import WireMesh.Fallible
import WireMesh.GaussJordan

/-!
# Inverting a matrix of bytes

`invertMatrix` is Gauss-Jordan elimination over the field of bytes: each of its steps on the rows of
bytes is the step on the rows of elements of the field that they stand for (`table`). So it finds
the inverse of every nonsingular matrix (`invertMatrix_table`).
-/

namespace WireMesh

open TypeScript.ErasureCoding

/-! ## Tables -/

/-- The first elements of a sequence, as bytes. -/
def row (m : ℕ) (v : ℕ → GF) : List UInt8 := (List.range m).map fun c => (v c).byte

/-- The first rows, as bytes. -/
def table (n m : ℕ) (rows : ℕ → ℕ → GF) : List (List UInt8) :=
  (List.range n).map fun r => row m (rows r)

section Tables

variable {n m : ℕ} {v w : ℕ → GF} {rows rows' : ℕ → ℕ → GF}

@[simp]
theorem length_row : (row m v).length = m := by simp [row]

@[simp]
theorem length_table : (table n m rows).length = n := by simp [table]

theorem getElem?_row {c : ℕ} (hc : c < m) : (row m v)[c]? = some (v c).byte := by
  simp [row, hc]

theorem getElem?_table {r : ℕ} (hr : r < n) : (table n m rows)[r]? = some (row m (rows r)) := by
  simp [table, hr]

theorem row_congr (h : ∀ c < m, v c = w c) : row m v = row m w :=
  List.map_congr_left fun c hc => congrArg GF.byte (h c (List.mem_range.1 hc))

theorem table_congr (h : ∀ r < n, ∀ c < m, rows r c = rows' r c) :
    table n m rows = table n m rows' :=
  List.map_congr_left fun r hr => row_congr (h r (List.mem_range.1 hr))

theorem entry_table {r c : ℕ} (hr : r < n) (hc : c < m) :
    entry (table n m rows) r c = (rows r c).byte := by
  rw [entry, getElem?_table hr, Option.bind_some, getElem?_row hc, Option.getD_some]

/-- One element is changed. -/
theorem set_row (i : ℕ) (a : GF) : (row m v).set i a.byte = row m (Function.update v i a) := by
  apply List.ext_getElem?
  grind [getElem?_row, length_row]

/-- One row is changed. -/
theorem set_table (i : ℕ) (v : ℕ → GF) :
    (table n m rows).set i (row m v) = table n m (Function.update rows i v) := by
  apply List.ext_getElem?
  grind [getElem?_table, length_table]

end Tables

/-! ## Steps -/

section Steps

variable {n column : ℕ} {rows : ℕ → ℕ → GF}

theorem GF.byte_ne_zero {a : GF} : a.byte ≠ 0 ↔ a ≠ 0 := (not_congr GF.mk_eq_zero).symm

theorem find?_congr {α : Type*} {p q : α → Bool} {l : List α} (h : ∀ a ∈ l, p a = q a) :
    l.find? p = l.find? q := by
  induction l with
  | nil => rfl
  | cons a l ih => grind

theorem findPivot_table (hcolumn : column < n) :
    findPivot n (table n (2 * n) rows) column = GaussJordan.pivot n rows column := by
  refine find?_congr fun r hr => ?_
  grind [entry_table, GF.byte_ne_zero]

theorem swapRows_table {p : ℕ} (hcolumn : column < n) (hp : p < n) :
    swapRows (table n (2 * n) rows) column p =
      table n (2 * n) (GaussJordan.swap rows column p) := by
  have hswap : GaussJordan.swap rows column p =
      Function.update (Function.update rows column (rows p)) p (rows column) := by
    grind [GaussJordan.swap]
  grind [swapRows, getElem?_table, set_table, Function.update_eq_self]

theorem scaleRow_row {v : ℕ → GF} (hcolumn : column < n) (hpivot : v column ≠ 0) :
    scaleRow n (row (2 * n) v) (gfInv (((row (2 * n) v)[column]?).getD 1)) =
      row (2 * n) ((v column)⁻¹ • v) := by
  rw [getElem?_row (by omega), Option.getD_some, gfInv_eq (GF.byte_ne_zero.2 hpivot)]
  refine List.map_congr_left fun c hc => ?_
  rw [getElem?_row (List.mem_range.1 hc), Option.getD_some, gfMul_eq, mul_comm]
  rfl

theorem eliminateRow_table {other : ℕ} (hother : other < n) (hcolumn : column < n) :
    eliminateRow n column (table n (2 * n) rows) other =
      .ok (table n (2 * n) (Function.update rows other (GaussJordan.clear rows column other))) := by
  rcases eq_or_ne other column with rfl | hne
  · rw [eliminateRow, if_pos rfl, GaussJordan.clear, if_pos rfl, Function.update_eq_self]
  rw [GaussJordan.clear, if_neg hne]
  by_cases hzero : rows other column = 0
  · simp [eliminateRow, hne, entry_table hother (by omega : column < 2 * n), hzero, GF.byte_zero]
  · simp only [eliminateRow, if_neg hne, entry_table hother (by omega : column < 2 * n),
      if_neg (GF.byte_ne_zero.2 hzero), getElem?_table hother, getElem?_table hcolumn]
    rw [← set_table]
    refine congrArg (fun r => Except.ok (List.set _ other r)) (List.map_congr_left fun c hc => ?_)
    have hc := List.mem_range.1 hc
    rw [getElem?_row hc, getElem?_row hc, Option.getD_some, Option.getD_some, gfMul_eq]
    rfl

/-- The rows are cleared one after another, and the pivot row stays as it is. -/
theorem foldlM_clear {ε : Type} {f : List (List UInt8) → ℕ → Except ε (List (List UInt8))}
    (hf : ∀ {rows : ℕ → ℕ → GF} {other : ℕ}, other < n → f (table n (2 * n) rows) other =
      .ok (table n (2 * n) (Function.update rows other (GaussJordan.clear rows column other)))) :
    (List.range n).foldlM f (table n (2 * n) rows) =
      .ok (table n (2 * n) (GaussJordan.clear rows column)) := by
  suffices h : ∀ k ≤ n, (List.range k).foldlM f (table n (2 * n) rows) =
      .ok (table n (2 * n) fun r =>
        if r < k then GaussJordan.clear rows column r else rows r) by
    rw [h n le_rfl]
    refine congrArg Except.ok (table_congr fun r hr c _ => ?_)
    rw [if_pos hr]
  intro k hk
  induction k with
  | zero => rfl
  | succ k ih =>
    rw [foldlM_range_succ, ih (by omega)]
    change f _ k = _
    rw [hf (by omega)]
    refine congrArg Except.ok (table_congr fun r _ c _ => ?_)
    rw [Function.update_apply]
    rcases eq_or_ne r k with rfl | hne
    · simp only [GaussJordan.clear, lt_self_iff_false, if_true, if_false, Nat.lt_succ_self,
        ite_self]
    · simp only [if_neg hne, show r < k + 1 ↔ r < k from by omega]

theorem eliminateColumn_table (hcolumn : column < n) {rows' : ℕ → ℕ → GF}
    (h : GaussJordan.step n rows column = some rows') :
    eliminateColumn n (table n (2 * n) rows) column = .ok (table n (2 * n) rows') := by
  obtain ⟨p, hp, rfl⟩ := Option.map_eq_some_iff.1 h
  obtain ⟨-, hlt, hne⟩ := GaussJordan.pivot_spec hp
  have hpivot : GaussJordan.swap rows column p column column ≠ 0 := by
    rwa [GaussJordan.swap, Equiv.swap_apply_left]
  simp only [eliminateColumn, findPivot_table hcolumn, hp, swapRows_table hcolumn hlt,
    getElem?_table hcolumn]
  rw [scaleRow_row hcolumn hpivot, set_table,
    foldlM_clear fun hother => eliminateRow_table hother hcolumn]
  rfl

/-- Steps on the bytes are steps on the elements. -/
theorem foldlM_step {ε : Type} {f : List (List UInt8) → ℕ → Except ε (List (List UInt8))}
    (hf : ∀ {rows rows' : ℕ → ℕ → GF} {column : ℕ}, column < n →
      GaussJordan.step n rows column = some rows' →
        f (table n (2 * n) rows) column = .ok (table n (2 * n) rows'))
    {k : ℕ} (hk : k ≤ n) {rows' : ℕ → ℕ → GF}
    (h : (List.range k).foldlM (GaussJordan.step n) rows = some rows') :
    (List.range k).foldlM f (table n (2 * n) rows) = .ok (table n (2 * n) rows') := by
  induction k generalizing rows' with
  | zero =>
    obtain rfl : rows = rows' := Option.some.inj h
    rfl
  | succ k ih =>
    rw [foldlM_range_succ] at h ⊢
    obtain ⟨before, hbefore, hstep⟩ := Option.bind_eq_some_iff.1 h
    rw [ih (by omega) hbefore]
    exact hf hk hstep

end Steps

/-! ## The inverse -/

theorem row_add (a b : ℕ) (v : ℕ → GF) : row (a + b) v = row a v ++ row b fun c => v (a + c) := by
  simp [row, List.range_add, Function.comp_def]

theorem row_zero (m : ℕ) : row m (fun _ => 0) = List.replicate m 0 := by
  rw [row, List.map_const', List.length_range, GF.byte_zero]

theorem augment_row (n r : ℕ) (matrix : ℕ → ℕ → GF) :
    (row n (matrix r) ++ List.replicate n 0).set (n + r) (1 : GF).byte =
      row (2 * n) (GaussJordan.augment n matrix r) := by
  have hzeros : row n (matrix r) ++ List.replicate n 0 =
      row (2 * n) fun c => if c < n then matrix r c else 0 := by
    rw [Nat.two_mul, row_add, ← row_zero]
    grind [row_congr]
  rw [hzeros, set_row]
  refine row_congr fun c _ => ?_
  rw [Function.update_apply, GaussJordan.augment]
  split_ifs <;> first | rfl | omega

theorem augmented_table (n : ℕ) (matrix : ℕ → ℕ → GF) :
    ((table n n matrix).mapIdx fun rowIndex r =>
      (r ++ List.replicate n 0).set (n + rowIndex) 1) =
        table n (2 * n) (GaussJordan.augment n matrix) := by
  apply List.ext_getElem?
  intro r
  rw [List.getElem?_mapIdx]
  by_cases hr : r < n
  · rw [getElem?_table hr, getElem?_table hr, Option.map_some]
    exact congrArg some (augment_row n r matrix)
  · rw [List.getElem?_eq_none (by simpa using hr), List.getElem?_eq_none (by simpa using hr)]
    rfl

theorem drop_table (n : ℕ) (rows : ℕ → ℕ → GF) :
    (table n (2 * n) rows).map (·.drop n) = table n n fun r c => rows r (n + c) := by
  rw [table, List.map_map]
  refine List.map_congr_left fun r _ => ?_
  rw [Function.comp_apply, Nat.two_mul, row_add, List.drop_left' length_row]

/-- A nonsingular matrix is inverted. -/
theorem invertMatrix_table {n : ℕ} {matrix : ℕ → ℕ → GF} (h : GaussJordan.Nonsingular n matrix) :
    ∃ inverse : ℕ → ℕ → GF, invertMatrix (table n n matrix) = .ok (table n n inverse) ∧
      ∀ r < n, ∀ j < n,
        ∑ i ∈ Finset.range n, inverse r i * matrix i j = if r = j then 1 else 0 := by
  obtain ⟨rows, heliminate, hinverse⟩ := GaussJordan.exists_inverse h
  refine ⟨fun r c => rows r (n + c), ?_, hinverse⟩
  simp only [invertMatrix, length_table, augmented_table,
    foldlM_step (fun hcolumn hstep => eliminateColumn_table hcolumn hstep) le_rfl heliminate]
  exact congrArg Except.ok (drop_table n rows)

end WireMesh
