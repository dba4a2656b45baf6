import Mathlib.Data.List.GetD
import Mathlib.LinearAlgebra.Lagrange
import WireMesh.Feldman

/-!
# Sharing a secret

A secret is the value at zero of a polynomial, and the shares are its values at other points. Of a
polynomial of degree below `t`, any `t` shares determine the secret, and fewer do not; the secret is
a linear combination of the shares, whose coefficients depend on the points alone.

* `sum_weight_mul_eval`: the secret from the shares.
* `eval_zero_eq_of_agree`, `exists_agree_of_card_lt`: how many shares determine the secret.
* `polynomial`: the polynomial with given coefficients, and `commits_polynomial`, the commitment to
  it. Sums of both are `commits_sum`.
-/

namespace WireMesh

open Polynomial

namespace SecretSharing

variable {F : Type*} [Field F] {t : ℕ}

/-! ## Interpolation at zero -/

section Weight

variable [DecidableEq F]

/-- The coefficient of the share at a point. -/
def weight (points : Finset F) (x : F) : F :=
  (∏ y ∈ points.erase x, y) * (∏ y ∈ points.erase x, (y - x))⁻¹

theorem weight_eq_eval_basis (points : Finset F) (x : F) :
    weight points x = (Lagrange.basis points id x).eval 0 := by
  rw [Lagrange.basis, eval_prod, weight, ← Finset.prod_inv_distrib, ← Finset.prod_mul_distrib]
  refine Finset.prod_congr rfl fun y _ => ?_
  rw [Lagrange.basisDivisor, eval_mul, eval_C, eval_sub, eval_X, eval_C, id, id, zero_sub,
    ← neg_sub y x, inv_neg, neg_mul_neg, mul_comm]

theorem sum_weight_mul_eval {points : Finset F} {p : F[X]} (h : p.degree < points.card) :
    ∑ x ∈ points, weight points x * p.eval x = p.eval 0 := by
  have hp : p = Lagrange.interpolate points id fun x => p.eval x :=
    Lagrange.eq_interpolate Function.injective_id.injOn h
  grind [Lagrange.interpolate_apply, eval_finsetSum, weight_eq_eval_basis, eval_mul, eval_C]

end Weight

/-! ## Thresholds -/

theorem eval_zero_eq_of_agree {p q : F[X]} (hp : p.degree < t) (hq : q.degree < t)
    {points : Finset F} (ht : t ≤ points.card) (h : ∀ x ∈ points, p.eval x = q.eval x) :
    p.eval 0 = q.eval 0 := by
  have hcard : (t : WithBot ℕ) ≤ points.card := by exact_mod_cast ht
  rw [eq_of_degrees_lt_of_eval_finset_eq points (hp.trans_le hcard) (hq.trans_le hcard) h]

/-- Any secret is possible, given fewer shares than the threshold. -/
theorem exists_agree_of_card_lt [DecidableEq F] (p : F[X]) {points : Finset F}
    (ht : points.card < t) (h0 : 0 ∉ points) (secret : F) :
    ∃ q : F[X], q.degree < t ∧ (∀ x ∈ points, q.eval x = p.eval x) ∧ q.eval 0 = secret := by
  -- Interpolation through the shares and the secret.
  have hinj : Set.InjOn (id : F → F) (insert 0 points : Finset F) := Function.injective_id.injOn
  refine ⟨Lagrange.interpolate (insert 0 points) id (Function.update p.eval 0 secret), ?_, ?_, ?_⟩
  · refine (Lagrange.degree_interpolate_lt _ hinj).trans_le ?_
    rw [Finset.card_insert_of_notMem h0]
    exact_mod_cast ht
  · intro x hx
    have hne : x ≠ 0 := ne_of_mem_of_not_mem hx h0
    have hnode := Lagrange.eval_interpolate_at_node (Function.update p.eval 0 secret) hinj
      (Finset.mem_insert_of_mem hx)
    rwa [id, Function.update_of_ne hne] at hnode
  · grind [Lagrange.eval_interpolate_at_node, Finset.mem_insert_self]

/-! ## Polynomials by their coefficients -/

/-- The polynomial with the given coefficients, the constant one first. -/
noncomputable def polynomial : List F → F[X]
  | [] => 0
  | a :: coefficients => C a + X * polynomial coefficients

theorem coeff_polynomial (coefficients : List F) (k : ℕ) :
    (polynomial coefficients).coeff k = coefficients.getD k 0 := by
  induction coefficients generalizing k with
  | nil => simp [polynomial]
  | cons a coefficients ih =>
    rcases k with _ | k
    · simp [polynomial]
    · simp [polynomial, ih]

theorem eval_polynomial (coefficients : List F) (x : F) :
    (polynomial coefficients).eval x = Feldman.evaluate coefficients x := by
  induction coefficients with
  | nil => exact eval_zero
  | cons a coefficients ih =>
    rw [polynomial, eval_add, eval_C, eval_mul, eval_X, ih, Feldman.evaluate_cons, smul_eq_mul]

/-! ## Commitments -/

variable {E : Type*} [AddCommGroup E] [Module F E] {g : E}

theorem commits_polynomial (g : E) (coefficients : List F) :
    Feldman.Commits g (polynomial coefficients) (coefficients.map (· • g)) := by
  intro k
  rw [coeff_polynomial]
  rcases Nat.lt_or_ge k coefficients.length with hk | hk
  · simp [hk]
  · simp [hk]

/-- A commitment leaves no room for coefficients beyond its length. -/
theorem degree_lt_of_commits (hg : g ≠ 0) {p : F[X]} {commitment : List E}
    (h : Feldman.Commits g p commitment) : p.degree < commitment.length := by
  rw [degree_lt_iff_coeff_zero]
  intro k hk
  have hzero : p.coeff k • g = 0 := by rw [← h k, List.getD_eq_default _ _ hk]
  exact (smul_eq_zero.1 hzero).resolve_right hg

theorem commits_sum {degree : ℕ} {polynomials : List F[X]} {commitments : List (List E)}
    (h : List.Forall₂ (Feldman.Commits g) polynomials commitments)
    (hlength : ∀ commitment ∈ commitments, commitment.length = degree) :
    Feldman.Commits g polynomials.sum (Feldman.sum degree commitments) := by
  intro k
  have hcoefficients : (commitments.map fun commitment => commitment.getD k 0).sum =
      polynomials.sum.coeff k • g := by
    clear hlength
    induction h with
    | nil => simp
    | cons hcommits _ ih =>
      rw [List.map_cons, List.sum_cons, List.sum_cons, coeff_add, add_smul, ih, hcommits k]
  grind [Feldman.getD_sum, Feldman.length_sum, List.sum_eq_zero]

end SecretSharing

end WireMesh
