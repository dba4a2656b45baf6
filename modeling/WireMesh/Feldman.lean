import Mathlib.Algebra.BigOperators.GroupWithZero.Action
import Mathlib.Algebra.Module.BigOperators
import Mathlib.Algebra.Polynomial.Eval.Defs
import Mathlib.Algebra.Polynomial.Inductions

/-!
# Verifiable secret sharing

A dealer shares a secret as the values of a polynomial, and commits to the polynomial by the
multiples of a generator by its coefficients. Evaluation is linear, so that the multiple of the
generator by a value can be computed from the commitment, and a value that has been received can be
checked against it. The sum of the commitments of some dealers is a commitment to the sum of their
polynomials.

* `evaluate_of_commits`: a commitment is evaluated as the polynomial is.
* `evaluate_sum`: the sum of commitments is evaluated as their sum.
* `eq_eval_of_commits`: whatever passes the check is the value of the polynomial.
-/

namespace WireMesh.Feldman

open Polynomial

section Ring

variable {F E : Type*} [CommRing F] [AddCommGroup E] [Module F E]

/-- The commitment to the value at `x`. -/
def evaluate (commitment : List E) (x : F) : E :=
  commitment.foldr (fun c value => c + x • value) 0

@[simp]
theorem evaluate_nil (x : F) : evaluate ([] : List E) x = 0 := rfl

@[simp]
theorem evaluate_cons (c : E) (commitment : List E) (x : F) :
    evaluate (c :: commitment) x = c + x • evaluate commitment x := rfl

/-- A commitment to a polynomial. -/
def Commits (g : E) (p : F[X]) (commitment : List E) : Prop :=
  ∀ k, commitment.getD k 0 = p.coeff k • g

theorem evaluate_of_commits {g : E} {p : F[X]} {commitment : List E}
    (h : Commits g p commitment) (x : F) : evaluate commitment x = p.eval x • g := by
  -- The first coefficient is taken off the polynomial as it is off the list.
  induction commitment generalizing p with
  | nil =>
    rw [eval_eq_sum_range, Finset.sum_smul]
    refine (Finset.sum_eq_zero fun k _ => ?_).symm
    rw [mul_comm, mul_smul, ← h k, List.getD_nil, smul_zero]
  | cons c commitment ih =>
    have hrest : Commits g p.divX commitment := by
      intro k
      rw [coeff_divX]
      exact h (k + 1)
    have hfirst : c = p.coeff 0 • g := h 0
    have heval : p.eval x = p.divX.eval x * x + p.coeff 0 := by
      conv_lhs => rw [← divX_mul_X_add p, eval_add, eval_mul, eval_X, eval_C]
    rw [evaluate_cons, ih hrest, hfirst, heval, add_smul, mul_comm, mul_smul, add_comm]

/-! ## Sums of commitments -/

theorem evaluate_eq_sum (commitment : List E) (x : F) :
    evaluate commitment x =
      ∑ k ∈ Finset.range commitment.length, x ^ k • commitment.getD k 0 := by
  induction commitment with
  | nil => rfl
  | cons c commitment ih =>
    rw [evaluate_cons, ih, List.length_cons, Finset.sum_range_succ', Finset.smul_sum, pow_zero,
      one_smul, List.getD_cons_zero, add_comm]
    simp only [List.getD_cons_succ, pow_succ', mul_smul]

/-- The sum of commitments of a degree, coefficient by coefficient. -/
def sum (degree : ℕ) (commitments : List (List E)) : List E :=
  (List.range degree).map fun k => (commitments.map fun commitment => commitment.getD k 0).sum

theorem length_sum (degree : ℕ) (commitments : List (List E)) :
    (sum degree commitments).length = degree := by
  rw [sum, List.length_map, List.length_range]

theorem getD_sum {degree k : ℕ} (h : k < degree) (commitments : List (List E)) :
    (sum degree commitments).getD k 0 =
      (commitments.map fun commitment => commitment.getD k 0).sum := by
  simp [sum, h]

theorem evaluate_sum {degree : ℕ} {commitments : List (List E)}
    (h : ∀ commitment ∈ commitments, commitment.length = degree) (x : F) :
    evaluate (sum degree commitments) x =
      (commitments.map fun commitment => evaluate commitment x).sum := by
  rw [evaluate_eq_sum, length_sum, Finset.sum_congr rfl fun k hk => by
    rw [getD_sum (Finset.mem_range.1 hk)]]
  induction commitments with
  | nil => simp
  | cons commitment commitments ih =>
    have hrest := ih fun c hc => h c (List.mem_cons_of_mem _ hc)
    simp only [List.map_cons, List.sum_cons, smul_add, Finset.sum_add_distrib, hrest]
    rw [evaluate_eq_sum, h commitment List.mem_cons_self]

end Ring

/-- A value is determined by its multiple of the generator. -/
theorem eq_eval_of_commits {F E : Type*} [Field F] [AddCommGroup E] [Module F E] {g : E}
    (hg : g ≠ 0) {p : F[X]} {commitment : List E} (h : Commits g p commitment) {x value : F}
    (hvalue : value • g = evaluate commitment x) : value = p.eval x := by
  rw [evaluate_of_commits h] at hvalue
  exact smul_left_injective F hg hvalue

end WireMesh.Feldman
