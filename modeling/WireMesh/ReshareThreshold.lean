import WireMesh.ReshareConsistency
import WireMesh.SecretSharing

/-!
# The threshold of a reshared group

How many shares of a reshared group determine its secret is the number of coefficients that the
survivors commit to. The commitments are compared with each other, but not with the threshold that
the new participants agree on.

* `reshare_has_threshold`: the group has the threshold if and only if a survivor commits to as many
  coefficients.
* `reshare_below_threshold`: survivors that agree on another number go unnoticed.
-/

namespace WireMesh

open Polynomial

namespace Rust.Reshare

variable {F E : Type} [Field F] [DecidableEq F] [AddCommGroup E] [Module F E] [DecidableEq E]
  {c : Curve F E}

/-- The commitment has as many coefficients as the threshold, so that as many shares of whatever it
    commits to, and no fewer, determine the secret. -/
@[grind cases]
structure HasThreshold (c : Curve F E) (combined : List E) (threshold : ℕ) : Prop where
  length_eq : combined.length = threshold
  determined : ∀ p, Feldman.Commits c.generator p combined → ∀ points : Finset F,
    threshold ≤ points.card → ∀ q : F[X], q.degree < threshold →
    (∀ x ∈ points, q.eval x = p.eval x) → q.eval 0 = p.eval 0
  undetermined : ∀ p, Feldman.Commits c.generator p combined → ∀ points : Finset F,
    points.card < threshold → 0 ∉ points → ∀ secret, ∃ q : F[X], q.degree < threshold ∧
    (∀ x ∈ points, q.eval x = p.eval x) ∧ q.eval 0 = secret

theorem hasThreshold_length (c : Curve F E) (combined : List E) :
    HasThreshold c combined combined.length where
  length_eq := rfl
  determined _ hp _ hpoints _ hq hagree :=
    SecretSharing.eval_zero_eq_of_agree hq
      (SecretSharing.degree_lt_of_commits c.generator_ne_zero hp) hpoints hagree
  undetermined p _ _ hpoints hzero secret :=
    SecretSharing.exists_agree_of_card_lt p hpoints hzero secret

end Rust.Reshare

open Rust.Reshare

/-- The group has the threshold that a new participant has joined with, if and only if one of the
    commitments that it has summed up has as many coefficients. -/
theorem reshare_has_threshold {F E : Type} [Field F] [DecidableEq F] [AddCommGroup E] [Module F E]
    [DecidableEq E] (c : Curve F E) (o : JoinThresholdReshare F E) (peers : Peers)
    (keyPackage : KeyPackage F E) (publicKeyPackage : PublicKeyPackage F E) (own : F)
    (entries : List (F × List E))
    (hjoin : joinThresholdReshare c o peers = .ok (keyPackage, publicKeyPackage))
    (hown : c.derive o.ownDeviceId = some own)
    (hentries : broadcastCommitments c o peers own = .ok entries) :
    (keyPackage.minSigners = o.newThreshold ∧
      ∃ combined,
        combineSurvivorCommitments c (survivorCommitments entries).values = .ok combined ∧
        HasThreshold c combined o.newThreshold) ↔
    ∃ commitment ∈ (survivorCommitments entries).values, commitment.length = o.newThreshold := by
  obtain ⟨own', entries', combined, newIds, shares, key, hjoined⟩ := joined_of_join hjoin
  obtain rfl : own' = own := Option.some.inj (hjoined.derive_eq.symm.trans hown)
  obtain rfl : entries' = entries := Except.ok.inj (hjoined.entries_eq.symm.trans hentries)
  obtain ⟨hlength, -⟩ := combineSurvivorCommitments_spec hjoined.combined_eq
  obtain ⟨-, -, hkeyPackage⟩ := combineReceivedShares_spec hjoined.keyPackage_eq
  constructor
  · rintro ⟨-, combined', hcombined', h⟩
    obtain rfl := Except.ok.inj (hjoined.combined_eq.symm.trans hcombined')
    -- There is a commitment, since no sum is computed of none.
    rcases hvalues : (survivorCommitments entries').values with _ | ⟨commitment, rest⟩
    · rw [hvalues] at hcombined'
      cases hcombined'
    · exact ⟨commitment, List.mem_cons_self,
        (hlength commitment (hvalues ▸ List.mem_cons_self)).trans h.length_eq⟩
  · rintro ⟨commitment, hcommitment, hthreshold⟩
    refine ⟨by rw [hkeyPackage], combined, hjoined.combined_eq, ?_⟩
    rw [← hthreshold, hlength commitment hcommitment]
    exact hasThreshold_length c combined

theorem reshare_has_threshold_sample :
    ∃ keyPackage publicKeyPackage combined,
      joinThresholdReshare sampleCurve .sample (.sample [3, 4, 1, 1]) =
        .ok (keyPackage, publicKeyPackage) ∧
      keyPackage.minSigners = 2 ∧ HasThreshold sampleCurve combined 2 := by
  obtain ⟨⟨keyPackage, publicKeyPackage⟩, hjoin, -⟩ := exists_eq_ok_of_toOption
    (x := joinThresholdReshare sampleCurve .sample (.sample [3, 4, 1, 1]))
    (f := fun r => r.1.signingShare) (b := 2) (by decide +kernel)
  have hentries : broadcastCommitments sampleCurve .sample (.sample [3, 4, 1, 1]) 3 =
      .ok [(1, [1, 1]), (2, [2, 1])] := by decide +kernel
  obtain ⟨hmin, combined, -, h⟩ := (reshare_has_threshold sampleCurve _ _ _ _ 3 _ hjoin
    (by decide) hentries).2 ⟨[1, 1], by decide, rfl⟩
  exact ⟨keyPackage, publicKeyPackage, combined, hjoin, hmin, h⟩

/-- Both survivors deal for a threshold of two. Whoever joins with a threshold of three does not
    notice. -/
theorem reshare_below_threshold :
    ∃ keyPackage publicKeyPackage entries combined,
      joinThresholdReshare sampleCurve { JoinThresholdReshare.sample with newThreshold := 3 }
        (.sample [3, 4, 1, 1]) = .ok (keyPackage, publicKeyPackage) ∧
      broadcastCommitments sampleCurve { JoinThresholdReshare.sample with newThreshold := 3 }
        (.sample [3, 4, 1, 1]) 3 = .ok entries ∧
      combineSurvivorCommitments sampleCurve (survivorCommitments entries).values =
        .ok combined ∧
      keyPackage.minSigners = 3 ∧ ¬HasThreshold sampleCurve combined 3 := by
  obtain ⟨⟨keyPackage, publicKeyPackage⟩, hjoin, hmin⟩ := exists_eq_ok_of_toOption
    (x := joinThresholdReshare sampleCurve { JoinThresholdReshare.sample with newThreshold := 3 }
      (.sample [3, 4, 1, 1])) (f := fun r => r.1.minSigners) (b := 3) (by decide +kernel)
  refine ⟨keyPackage, publicKeyPackage, [(1, [1, 1]), (2, [2, 1])], [3, 2], hjoin,
    by decide +kernel, by decide +kernel, hmin, fun h => ?_⟩
  exact absurd h.length_eq (by decide)

end WireMesh
