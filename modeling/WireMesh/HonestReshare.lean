import WireMesh.ReshareConsistency
import WireMesh.SecretSharing

/-!
# Resharing a secret

Each survivor weights its share by a Lagrange coefficient, and deals the product anew. The weighted
shares sum up to the secret, so that the sum of the polynomials that are dealt shares the secret as
well, and the sum of the commitments commits to it.

* `lagrange_coefficient_right_or_refused`: when the loop over the identifiers computes the
  coefficient. It does unless another identifier is repeated, and then it need not.
* `round1Reshare_eq`: what a survivor deals.
* `honest_reshare_preserves_secret`: the new shares are values of one polynomial, whose value at
  zero is the secret.
-/

namespace WireMesh

open Polynomial

namespace Rust.Reshare

section Weights

variable {F : Type} [Field F] [DecidableEq F]

theorem foldl_next (xi : F) (xSet : List F) (s : Interpolation F) :
    xSet.foldl (Interpolation.next xi) s = {
      num := s.num * (xSet.filter (· ≠ xi)).prod
      den := s.den * ((xSet.filter (· ≠ xi)).map (· - xi)).prod
      found := s.found || decide (xi ∈ xSet) } := by
  induction xSet generalizing s with
  | nil => simp
  | cons xj xSet ih => grind [Interpolation.next]

omit [Field F] in
theorem toFinset_filter_ne (xi : F) (xSet : List F) :
    (xSet.filter (· ≠ xi)).toFinset = xSet.toFinset.erase xi := by
  ext x
  simp [and_comm]

theorem weight_ne_zero {xSet : List F} (h0 : 0 ∉ xSet) (xi : F) :
    SecretSharing.weight xSet.toFinset xi ≠ 0 := by
  refine mul_ne_zero (Finset.prod_ne_zero_iff.2 fun y hy => ?_) (inv_ne_zero ?_)
  · grind [List.mem_toFinset]
  · grind [Finset.prod_ne_zero_iff]

/-- The copies of the other identifiers beyond the first ones. -/
def surplus (xSet : List F) (xi : F) : List F :=
  (xSet.filter (· ≠ xi)).diff (xSet.filter (· ≠ xi)).dedup

omit [Field F] in
theorem dedup_append_surplus (xSet : List F) (xi : F) :
    ((xSet.filter (· ≠ xi)).dedup ++ surplus xSet xi).Perm (xSet.filter (· ≠ xi)) :=
  List.subperm_append_diff_self_of_count_le fun y _ =>
    (List.dedup_sublist _).count_le y

theorem prod_map_others (g : F → F) (xSet : List F) (xi : F) :
    ((xSet.filter (· ≠ xi)).map g).prod =
      (∏ y ∈ xSet.toFinset.erase xi, g y) * ((surplus xSet xi).map g).prod := by
  rw [← ((dedup_append_surplus xSet xi).map g).prod_eq, List.map_append, List.prod_append,
    ← toFinset_filter_ne, ← List.prod_toFinset _ (List.nodup_dedup _)]
  congr 2
  ext y
  simp

/-- A further copy of another identifier counts as one more identifier. -/
theorem lagrangeCoefficientAtZero_eq_mul {xSet : List F} {xi : F} (hmem : xi ∈ xSet) :
    lagrangeCoefficientAtZero xSet xi = .ok (SecretSharing.weight xSet.toFinset xi *
      ((surplus xSet xi).prod * ((surplus xSet xi).map (· - xi)).prod⁻¹)) := by
  have hnum := prod_map_others id xSet xi
  simp only [List.map_id, id] at hnum
  rw [lagrangeCoefficientAtZero, if_neg (List.ne_nil_of_mem hmem), foldl_next]
  simp only [hnum, prod_map_others (· - xi), one_mul, hmem, decide_true, Bool.or_true,
    Bool.not_true, Bool.false_eq_true, if_false, mul_inv]
  refine congrArg Except.ok ?_
  rw [SecretSharing.weight]
  ring

theorem lagrangeCoefficientAtZero_eq {xSet : List F} {xi : F}
    (hothers : (xSet.filter (· ≠ xi)).Nodup) (hmem : xi ∈ xSet) :
    lagrangeCoefficientAtZero xSet xi = .ok (SecretSharing.weight xSet.toFinset xi) := by
  have hsurplus : surplus xSet xi = [] := by
    have hlength := (dedup_append_surplus xSet xi).length_eq
    rw [hothers.dedup, List.length_append] at hlength
    exact List.length_eq_zero_iff.1 (by omega)
  rw [lagrangeCoefficientAtZero_eq_mul hmem, hsurplus]
  simp

/-- There is a coefficient of the identifiers in the list. It is the right one if and only if the
    surplus copies of the others, which are not zero, cancel out. -/
theorem lagrange_coefficient_right_or_refused {xSet : List F} (h0 : 0 ∉ xSet) (xi : F) :
    ((∃ s, lagrangeCoefficientAtZero xSet xi = .ok s) ↔ xi ∈ xSet) ∧
      ((∀ s, lagrangeCoefficientAtZero xSet xi = .ok s →
          s = (Lagrange.basis xSet.toFinset id xi).eval 0) ↔
        (xi ∈ xSet → (surplus xSet xi).prod = ((surplus xSet xi).map (· - xi)).prod)) := by
  by_cases hmem : xi ∈ xSet
  · have hden : ((surplus xSet xi).map (· - xi)).prod ≠ 0 := by
      refine List.prod_ne_zero fun hzero => ?_
      obtain ⟨y, hy, hyx⟩ := List.mem_map.1 hzero
      have hother := (dedup_append_surplus xSet xi).mem_iff.1 (List.mem_append_right _ hy)
      simp [sub_eq_zero.1 hyx] at hother
    simp only [lagrangeCoefficientAtZero_eq_mul hmem, ← SecretSharing.weight_eq_eval_basis,
      Except.ok.injEq, exists_eq', forall_eq', hmem, forall_const, true_and]
    rw [mul_eq_left₀ (weight_ne_zero h0 xi), mul_inv_eq_one₀ hden]
  · have hrefused : ∀ s, lagrangeCoefficientAtZero xSet xi ≠ .ok s := by
      intro s hs
      rw [lagrangeCoefficientAtZero, foldl_next] at hs
      obtain ⟨-, hs⟩ := of_guard_eq_ok hs
      simp only [hmem, decide_false, Bool.or_false, Bool.not_false, if_true] at hs
      cases hs
    simp [hrefused, hmem]

/-- The identifier itself may be repeated. -/
theorem lagrange_coefficient_right_or_refused_sample :
    lagrangeCoefficientAtZero [1, 2, 1] (1 : ℚ) = .ok 2 ∧
      2 = (Lagrange.basis [1, 2, 1].toFinset id (1 : ℚ)).eval 0 := by
  have hok : lagrangeCoefficientAtZero [1, 2, 1] (1 : ℚ) = .ok 2 := by decide +kernel
  exact ⟨hok, (lagrange_coefficient_right_or_refused (by decide) 1).2.2 (by decide) 2 hok⟩

/-- Another identifier that is repeated counts twice: the scalar is 4, and the value is 2. -/
theorem lagrange_coefficient_wrong :
    lagrangeCoefficientAtZero [1, 2, 2] (1 : ℚ) = .ok 4 ∧
      (Lagrange.basis [1, 2, 2].toFinset id (1 : ℚ)).eval 0 = 2 := by
  refine ⟨by decide +kernel, ?_⟩
  rw [← SecretSharing.weight_eq_eval_basis]
  decide +kernel

end Weights

variable {F E : Type} [Field F] [DecidableEq F] [AddCommGroup E] [Module F E] [DecidableEq E]
  {c : Curve F E}

/-! ## Dealing -/

/-- A threshold that the new participants can have. -/
@[grind cases]
structure Allowed (newIds : List F) (newThreshold : ℕ) : Prop where
  two_le : 2 ≤ newThreshold
  le_length : newThreshold ≤ newIds.length
  length_lt : newIds.length < 2 ^ 16
  nodup : newIds.Nodup

def commitmentTo (c : Curve F E) (coefficients : List F) : List E :=
  coefficients.map (· • c.generator)

def shareOf (c : Curve F E) (coefficients : List F) (identifier : F) : SecretShare F E where
  identifier := identifier
  signingShare := evaluatePolynomial identifier coefficients
  commitment := commitmentTo c coefficients

theorem exists_shares {newIds : List F} {newThreshold : ℕ} (h : Allowed newIds newThreshold)
    (key : F) (random : ℕ → F) :
    ∃ shares, c.split key newIds.length newThreshold newIds random = .ok shares ∧
      ∀ y share, shares.get y = some share ↔
        y ∈ newIds ∧ share = shareOf c (key :: (List.range (newThreshold - 1)).map random) y := by
  obtain ⟨shares, hsplit, hshares⟩ :=
    c.exists_split key newThreshold newIds random h.two_le h.le_length h.nodup
  exact ⟨shares, hsplit, fun y share => OrderedMap.mem_entries_iff.symm.trans (hshares y share)⟩

/-- The coefficients of what a survivor deals. -/
def dealt (survivors : List F) (newThreshold : ℕ) (x share : F) (random : ℕ → F) : List F :=
  SecretSharing.weight survivors.toFinset x * share ::
    (List.range (newThreshold - 1)).map random

theorem length_dealt {newIds : List F} {newThreshold : ℕ} (h : Allowed newIds newThreshold)
    (survivors : List F) (x share : F) (random : ℕ → F) :
    (dealt survivors newThreshold x share random).length = newThreshold := by
  have := h.two_le
  simp [dealt]
  omega

/-- What a survivor has dealt: its commitment, and a share for each new participant. -/
def Deals (c : Curve F E) (coefficients newIds : List F)
    (contribution : List E × OrderedMap F (SecretShare F E)) : Prop :=
  contribution.1 = commitmentTo c coefficients ∧
    ∀ y ∈ newIds, contribution.2.get y = some (shareOf c coefficients y)

/-- A survivor whose weighted share is a key deals it. -/
theorem deals_of_signingKey {survivors newIds : List F} {newThreshold : ℕ}
    (hsurvivors : survivors.Nodup) {x : F} (hx : x ∈ survivors)
    (h : Allowed newIds newThreshold) {share key : F} (random : ℕ → F)
    (hkey : c.signingKey (SecretSharing.weight survivors.toFinset x * share) = .ok key) :
    ∃ contribution, round1Reshare c x share survivors newIds newThreshold random =
        .ok contribution ∧
      Deals c (dealt survivors newThreshold x share random) newIds contribution := by
  obtain rfl := c.signingKey_eq_ok _ _ hkey
  obtain ⟨shares, hsplit, hshares⟩ := exists_shares (c := c) h
    (SecretSharing.weight survivors.toFinset x * share) random
  obtain ⟨y, hy⟩ : ∃ y, y ∈ newIds :=
    List.exists_mem_of_length_pos (Nat.lt_of_lt_of_le Nat.two_pos (h.two_le.trans h.le_length))
  -- There is a first share, and all of them come with the same commitment.
  rcases hvalues : shares.values with _ | ⟨first, rest⟩
  · have hmem := OrderedMap.mem_values_iff.2 ⟨y, (hshares y _).2 ⟨hy, rfl⟩⟩
    rw [hvalues] at hmem
    cases hmem
  obtain ⟨z, hz⟩ := OrderedMap.mem_values_iff.1
    (hvalues ▸ List.mem_cons_self : first ∈ shares.values)
  obtain ⟨-, rfl⟩ := (hshares z first).1 hz
  refine ⟨(_, shares), ?_, rfl, fun y hy => (hshares y _).2 ⟨hy, rfl⟩⟩
  rw [round1Reshare, lagrangeCoefficientAtZero_eq (hsurvivors.filter _) hx,
    Nat.mod_eq_of_lt h.length_lt, mapError_ok, ok_bind, hkey, mapError_ok, ok_bind, hsplit,
    mapError_ok, ok_bind, hvalues]
  rfl

theorem deals_of_round1Reshare {survivors newIds : List F} {newThreshold : ℕ}
    (hsurvivors : survivors.Nodup) {x : F} (hx : x ∈ survivors)
    (h : Allowed newIds newThreshold) {share : F} {random : ℕ → F}
    {contribution : List E × OrderedMap F (SecretShare F E)}
    (hround1 : round1Reshare c x share survivors newIds newThreshold random = .ok contribution) :
    Deals c (dealt survivors newThreshold x share random) newIds contribution := by
  have hrest := hround1
  rw [round1Reshare, lagrangeCoefficientAtZero_eq (hsurvivors.filter _) hx, mapError_ok,
    ok_bind] at hrest
  obtain ⟨key, hkey, -⟩ := of_bind_eq_ok hrest
  obtain ⟨contribution', heq, hdeals⟩ :=
    deals_of_signingKey hsurvivors hx h random (of_mapError_eq_ok hkey)
  cases heq.symm.trans hround1
  exact hdeals

/-! ## Shares of the sum -/

omit [DecidableEq F] in
theorem evaluate_commitmentTo (coefficients : List F) (y : F) :
    Feldman.evaluate (commitmentTo c coefficients) y =
      evaluatePolynomial y coefficients • c.generator := by
  rw [commitmentTo, Feldman.evaluate_of_commits
    (SecretSharing.commits_polynomial c.generator coefficients), SecretSharing.eval_polynomial]
  rfl

omit [DecidableEq F] in
theorem verify_shareOf (a : F) (coefficients : List F) (y : F) :
    ∃ r, c.verify (shareOf c (a :: coefficients) y) = .ok r := by
  refine (c.exists_verify_iff _).2 ⟨by simp [shareOf, commitmentTo], ?_⟩
  exact (evaluate_commitmentTo (a :: coefficients) y).symm

/-- The polynomials that are dealt sum up to one that shares the secret. -/
noncomputable def resharedPolynomial (p : F[X]) (survivors : List F) (newThreshold : ℕ)
    (random : F → ℕ → F) : F[X] :=
  (survivors.map fun x => SecretSharing.polynomial
    (dealt survivors newThreshold x (p.eval x) (random x))).sum

theorem eval_resharedPolynomial (p : F[X]) (survivors : List F) (newThreshold : ℕ)
    (random : F → ℕ → F) (y : F) :
    (resharedPolynomial p survivors newThreshold random).eval y =
      (survivors.map fun x => evaluatePolynomial y
        (dealt survivors newThreshold x (p.eval x) (random x))).sum := by
  rw [resharedPolynomial, ← coe_evalRingHom, map_list_sum, List.map_map]
  congr 1
  refine List.map_congr_left fun x _ => ?_
  exact SecretSharing.eval_polynomial _ y

theorem eval_zero_resharedPolynomial {p : F[X]} {t : ℕ} (hp : p.degree < t) {survivors : List F}
    (hnodup : survivors.Nodup) (ht : t ≤ survivors.length) (newThreshold : ℕ)
    (random : F → ℕ → F) :
    (resharedPolynomial p survivors newThreshold random).eval 0 = p.eval 0 := by
  have hcard : (t : WithBot ℕ) ≤ survivors.toFinset.card := by
    rw [List.toFinset_card_of_nodup hnodup]
    exact_mod_cast ht
  calc (resharedPolynomial p survivors newThreshold random).eval 0
    _ = (survivors.map fun x => SecretSharing.weight survivors.toFinset x * p.eval x).sum := by
      grind [eval_resharedPolynomial, dealt, evaluatePolynomial]
    _ = ∑ x ∈ survivors.toFinset, SecretSharing.weight survivors.toFinset x * p.eval x :=
      (List.sum_toFinset _ hnodup).symm
    _ = p.eval 0 := SecretSharing.sum_weight_mul_eval (hp.trans_le hcard)

theorem length_of_dealt (c : Curve F E) (p : F[X]) (survivors : List F) {newIds : List F}
    {newThreshold : ℕ} (h : Allowed newIds newThreshold) (random : F → ℕ → F) :
    ∀ commitment ∈ survivors.map fun x =>
      commitmentTo c (dealt survivors newThreshold x (p.eval x) (random x)),
      commitment.length = newThreshold := by grind [commitmentTo, length_dealt]

theorem commits_resharedPolynomial (c : Curve F E) (p : F[X]) (survivors : List F)
    {newIds : List F} {newThreshold : ℕ} (h : Allowed newIds newThreshold) (random : F → ℕ → F) :
    Feldman.Commits c.generator (resharedPolynomial p survivors newThreshold random)
      (Feldman.sum newThreshold (survivors.map fun x =>
        commitmentTo c (dealt survivors newThreshold x (p.eval x) (random x)))) := by
  refine SecretSharing.commits_sum ?_ (length_of_dealt c p survivors h random)
  rw [List.forall₂_map_left_iff, List.forall₂_map_right_iff, List.forall₂_same]
  intro x _
  exact SecretSharing.commits_polynomial c.generator _

/-- What the contributions of the survivors sum up to. -/
@[grind cases]
structure Reshared (c : Curve F E) (q : F[X]) (newIds : List F) (newThreshold : ℕ)
    (contributions : List (List E × OrderedMap F (SecretShare F E))) : Prop where
  commits : Feldman.Commits c.generator q
    (Feldman.sum newThreshold (contributions.map Prod.fst))
  /-- What the commitments are combined to is their sum. -/
  combined : ∀ combined, combineSurvivorCommitments c (contributions.map Prod.fst) = .ok combined →
    combined = Feldman.sum newThreshold (contributions.map Prod.fst)
  /-- They are combined unless a point is the identity. -/
  combines : (∀ contribution ∈ contributions, ∀ point ∈ contribution.1, point ≠ 0) →
    (∀ k < newThreshold, q.coeff k ≠ 0) →
    combineSurvivorCommitments c (contributions.map Prod.fst) =
      .ok (Feldman.sum newThreshold (contributions.map Prod.fst))
  /-- A new participant sums up its parts to a value of the polynomial. -/
  shares : ∀ y ∈ newIds, ∃ parts,
    List.Forall₂ (fun contribution part => contribution.2.get y = some part) contributions parts ∧
    ∀ publicKeyPackage, derivePublicKeyPackage c
      (Feldman.sum newThreshold (contributions.map Prod.fst)) newIds = .ok publicKeyPackage →
      combineReceivedShares c y parts publicKeyPackage newThreshold = .ok {
        identifier := y
        signingShare := q.eval y
        verifyingShare := q.eval y • c.generator
        verifyingKey := publicKeyPackage.verifyingKey
        minSigners := newThreshold }

theorem deals_of_forall₂ {p : F[X]} {survivors newIds : List F} {newThreshold : ℕ}
    {random : F → ℕ → F} (hnodup : survivors.Nodup) (h : Allowed newIds newThreshold)
    {contributions : List (List E × OrderedMap F (SecretShare F E))}
    (hdealt : List.Forall₂ (fun x contribution => round1Reshare c x (p.eval x) survivors newIds
      newThreshold (random x) = .ok contribution) survivors contributions) :
    List.Forall₂ (fun x contribution => Deals c
      (dealt survivors newThreshold x (p.eval x) (random x)) newIds contribution)
        survivors contributions := by
  have hmem := (List.forall₂_and_left survivors contributions (p := (· ∈ survivors))).2
    ⟨fun _ hx => hx, hdealt⟩
  exact hmem.imp fun x contribution hx => deals_of_round1Reshare hnodup hx.1 h hx.2

theorem reshared_of_dealt {p : F[X]} {survivors newIds : List F} {newThreshold : ℕ}
    {random : F → ℕ → F} (hnodup : survivors.Nodup) (h : Allowed newIds newThreshold)
    {contributions : List (List E × OrderedMap F (SecretShare F E))}
    (hdealt : List.Forall₂ (fun x contribution => round1Reshare c x (p.eval x) survivors newIds
      newThreshold (random x) = .ok contribution) survivors contributions) :
    Reshared c (resharedPolynomial p survivors newThreshold random) newIds newThreshold
      contributions := by
  have hdeals := deals_of_forall₂ hnodup h hdealt
  have hcommits := commits_resharedPolynomial c p survivors h random
  have hlength := length_of_dealt c p survivors h random
  have hfst : contributions.map Prod.fst = survivors.map fun x =>
      commitmentTo c (dealt survivors newThreshold x (p.eval x) (random x)) := by
    rw [eq_comm, ← List.forall₂_eq_eq_eq, List.forall₂_map_left_iff, List.forall₂_map_right_iff]
    exact hdeals.imp fun _ _ hdeal => hdeal.1.symm
  constructor
  · rwa [hfst]
  · intro combined hcombined
    rw [hfst] at hcombined ⊢
    obtain ⟨hcombinedLength, hsum⟩ := combineSurvivorCommitments_spec hcombined
    -- Without survivors there is nothing to combine.
    obtain ⟨x, hx⟩ : ∃ x, x ∈ survivors := by
      refine List.exists_mem_of_ne_nil _ ?_
      rintro rfl
      cases hcombined
    grind [List.mem_map_of_mem]
  · intro hpoints hcoefficients
    have hne : survivors ≠ [] := by
      rintro rfl
      exact hcoefficients 0 (Nat.lt_of_lt_of_le Nat.two_pos h.two_le) (coeff_zero 0)
    rw [hfst]
    refine combineSurvivorCommitments_eq (by simpa using hne)
      (Nat.lt_of_lt_of_le Nat.two_pos h.two_le) hlength ?_ ?_
    · rw [← hfst]
      exact fun commitment hcommitment => by
        obtain ⟨contribution, hmem, rfl⟩ := List.mem_map.1 hcommitment
        exact hpoints contribution hmem
    · intro point hpoint
      obtain ⟨k, hk, rfl⟩ := List.getElem_of_mem hpoint
      rw [← List.getD_eq_getElem _ 0 hk, hcommits k]
      grind [Feldman.length_sum, smul_ne_zero, Curve.generator_ne_zero]
  · intro y hy
    refine ⟨survivors.map fun x =>
      shareOf c (dealt survivors newThreshold x (p.eval x) (random x)) y, ?_, ?_⟩
    · rw [List.forall₂_map_right_iff]
      exact hdeals.flip.imp fun _ _ hdeal => hdeal.2 y hy
    · intro publicKeyPackage hpackage
      rw [hfst] at hpackage
      have hget := get_verifyingShares_of_derive hpackage hy
      rw [Feldman.evaluate_of_commits hcommits] at hget
      rw [combineReceivedShares_eq _ hget, List.map_map, eval_resharedPolynomial]
      · rfl
      · intro share hshare
        obtain ⟨x, -, rfl⟩ := List.mem_map.1 hshare
        exact verify_shareOf _ _ y

end Rust.Reshare

open Rust.Reshare

/-- A survivor can deal unless its share is zero. Whatever the survivors deal, the new shares are
    values of one polynomial, of a degree below the new threshold, whose value at zero is the
    secret, and the commitments sum up to a commitment to it. -/
theorem honest_reshare_preserves_secret {F E : Type} [Field F] [DecidableEq F] [AddCommGroup E]
    [Module F E] [DecidableEq E] (c : Curve F E) {p : F[X]} {t : ℕ} (hp : p.degree < t)
    {survivors newIds : List F} {newThreshold : ℕ} (hnodup : survivors.Nodup)
    (hzero : 0 ∉ survivors) (ht : t ≤ survivors.length)
    (h : Allowed newIds newThreshold) (random : F → ℕ → F) :
    (∀ x ∈ survivors, p.eval x ≠ 0 → ∃ contribution, round1Reshare c x (p.eval x) survivors newIds
      newThreshold (random x) = .ok contribution) ∧
    ∃ q : F[X], q.degree < newThreshold ∧ q.eval 0 = p.eval 0 ∧
      ∀ contributions, List.Forall₂ (fun x contribution => round1Reshare c x (p.eval x) survivors
        newIds newThreshold (random x) = .ok contribution) survivors contributions →
        Reshared c q newIds newThreshold contributions := by
  constructor
  · intro x hx hshare
    obtain ⟨key, hkey⟩ := c.exists_signingKey _ (mul_ne_zero (weight_ne_zero hzero x) hshare)
    obtain ⟨contribution, hround1, -⟩ := deals_of_signingKey hnodup hx h (random x) hkey
    exact ⟨contribution, hround1⟩
  · refine ⟨resharedPolynomial p survivors newThreshold random, ?_, ?_, ?_⟩
    · have hdegree := SecretSharing.degree_lt_of_commits c.generator_ne_zero
        (commits_resharedPolynomial c p survivors h random)
      rwa [Feldman.length_sum] at hdegree
    · exact eval_zero_resharedPolynomial hp hnodup ht newThreshold random
    · intro contributions hdealt
      exact reshared_of_dealt hnodup h hdealt

theorem honest_reshare_preserves_secret_sample :
    ∃ q : (ZMod 7)[X], q.degree < 2 ∧ q.eval 0 = 3 ∧
      ∃ contributions, Reshared sampleCurve q [3, 4] 2 contributions := by
  have hp : (X + C 3 : (ZMod 7)[X]).degree < (2 : ℕ) := by
    rw [degree_X_add_C]
    decide
  have heval : ∀ x : ZMod 7, (X + C 3 : (ZMod 7)[X]).eval x = x + 3 := by
    intro x
    rw [eval_add, eval_X, eval_C]
  have hnodup : ([1, 2] : List (ZMod 7)).Nodup := by decide
  have hallowed : Allowed ([3, 4] : List (ZMod 7)) 2 := ⟨le_rfl, le_rfl, by decide, by decide⟩
  obtain ⟨hdeal, q, hdegree, hq, h⟩ := honest_reshare_preserves_secret sampleCurve hp hnodup
    (by decide) le_rfl hallowed fun _ _ => 1
  obtain ⟨first, hfirst⟩ := hdeal 1 List.mem_cons_self (by rw [heval]; decide)
  obtain ⟨second, hsecond⟩ := hdeal 2 (List.mem_cons_of_mem _ List.mem_cons_self)
    (by rw [heval]; decide)
  rw [heval, zero_add] at hq
  exact ⟨q, hdegree, hq, [first, second], h _ (.cons hfirst (.cons hsecond .nil))⟩

end WireMesh
