import Mathlib.LinearAlgebra.Lagrange
import WireMesh.GaussJordan

/-!
# Systematic codes with Cauchy rows

A code whose first symbols are those of the message. Each of the others is a combination of them
with the coefficients `1 / (x - y)`, for a point `x` of its own and the points `y` of the symbols of
the message. Any symbols of a codeword, as many as the message has, determine it
(`nonsingular_coefficient`): what is zero at those symbols is zero at the points of a polynomial
whose degree is too small (`eq_zero_of_cauchy`).
-/

namespace WireMesh.CauchyCode

open Polynomial

variable {F : Type*} [Field F]

/-- The columns of a Cauchy matrix are independent, if there are at least as many rows. -/
theorem eq_zero_of_cauchy {ι κ : Type*} [DecidableEq ι] {s : Finset ι} {t : Finset κ} {x : κ → F}
    {y : ι → F} (hx : Set.InjOn x t) (hy : Set.InjOn y s) (hxy : ∀ j ∈ t, ∀ i ∈ s, x j ≠ y i)
    (hcard : s.card ≤ t.card) {d : ι → F}
    (h : ∀ j ∈ t, ∑ i ∈ s, (x j - y i)⁻¹ * d i = 0) : ∀ i ∈ s, d i = 0 := by
  -- The combination, times all the denominators, is a polynomial.
  let r : ι → F := fun i => (Lagrange.nodalWeight s y i)⁻¹ * d i
  have hweight : ∀ i ∈ s, Lagrange.nodalWeight s y i ≠ 0 := fun i hi =>
    Lagrange.nodalWeight_ne_zero hy hi
  have heval : ∀ j ∈ t, (Lagrange.interpolate s y r).eval (x j) = 0 := by
    intro j hj
    have hterm : ∀ i ∈ s, Lagrange.nodalWeight s y i * (x j - y i)⁻¹ * r i =
        (x j - y i)⁻¹ * d i := by grind
    grind [Lagrange.eval_interpolate_not_at_node, Finset.sum_congr]
  have hdegree : (Lagrange.interpolate s y r).degree < t.card :=
    (Lagrange.degree_interpolate_lt r hy).trans_le (Nat.cast_le.2 hcard)
  have hzero := eq_zero_of_degree_lt_of_eval_index_eq_zero t hx hdegree heval
  grind [Lagrange.eval_interpolate_at_node, eval_zero]

variable (point : ℕ → F) (k : ℕ)

/-- The coefficients of a symbol: the first symbols are those of the message. -/
def coefficient (row column : ℕ) : F :=
  if row < k then if column = row then 1 else 0 else (point row - point column)⁻¹

/-- A symbol of the codeword. -/
def symbol (message : ℕ → F) (row : ℕ) : F :=
  ∑ column ∈ Finset.range k, coefficient point k row column * message column

variable {point k} {message : ℕ → F}

theorem symbol_of_lt {row : ℕ} (h : row < k) : symbol point k message row = message row := by
  have hterm : ∀ column ∈ Finset.range k, coefficient point k row column * message column =
      if column = row then message row else 0 := by grind [coefficient]
  rw [symbol, Finset.sum_congr rfl hterm, Finset.sum_ite_eq', if_pos (Finset.mem_range.2 h)]

theorem nonsingular_coefficient {n : ℕ} (hpoint : Set.InjOn point { i | i < n }) (hkn : k ≤ n)
    {indices : ℕ → ℕ} (hindices : Set.InjOn indices { r | r < k })
    (hlt : ∀ r < k, indices r < n) :
    GaussJordan.Nonsingular k fun r column => coefficient point k (indices r) column := by
  intro message hmessage
  have hsymbol : ∀ r < k, symbol point k message (indices r) = 0 := hmessage
  -- The rows of the identity, and the columns that they give.
  let rows := (Finset.range k).filter fun r => indices r < k
  let known := rows.image indices
  have hknown : ∀ column ∈ known, message column = 0 := by grind [symbol_of_lt]
  -- There are as many other rows as columns that are not known.
  let others := (Finset.range k).filter fun r => ¬indices r < k
  let unknown := Finset.range k \ known
  have hsub : known ⊆ Finset.range k := by grind
  have hcard : unknown.card ≤ others.card := by
    have hrows : rows.card + others.card = (Finset.range k).card :=
      Finset.card_filter_add_card_filter_not _
    have himage : known.card = rows.card := by
      refine Finset.card_image_of_injOn fun a ha b hb hab => hindices ?_ ?_ hab
      · exact Finset.mem_range.1 (Finset.mem_filter.1 ha).1
      · exact Finset.mem_range.1 (Finset.mem_filter.1 hb).1
    grind
  have hzero := eq_zero_of_cauchy (x := fun r => point (indices r)) (y := point) (d := message)
    (s := unknown) (t := others) ?_ ?_ ?_ hcard ?_
  · grind
  · intro a ha b hb hab
    have ha := Finset.mem_range.1 (Finset.mem_filter.1 ha).1
    have hb := Finset.mem_range.1 (Finset.mem_filter.1 hb).1
    exact hindices ha hb (hpoint (hlt a ha) (hlt b hb) hab)
  · intro a ha b hb hab
    have ha := Finset.mem_range.1 (Finset.mem_sdiff.1 ha).1
    have hb := Finset.mem_range.1 (Finset.mem_sdiff.1 hb).1
    exact hpoint (ha.trans_le hkn) (hb.trans_le hkn) hab
  · intro r hr column hcolumn heq
    obtain ⟨hr, hlarge⟩ := Finset.mem_filter.1 hr
    have hcolumn := Finset.mem_range.1 (Finset.mem_sdiff.1 hcolumn).1
    have hsame := hpoint (hlt r (Finset.mem_range.1 hr)) (hcolumn.trans_le hkn) heq
    omega
  · intro r hr
    obtain ⟨hr, hlarge⟩ := Finset.mem_filter.1 hr
    have hrow := hsymbol r (Finset.mem_range.1 hr)
    rw [symbol, ← Finset.sum_subset Finset.sdiff_subset] at hrow
    · simpa only [coefficient, if_neg hlarge] using hrow
    · grind

end WireMesh.CauchyCode
