import WireMesh.Issuance

/-!
# Asking before minting

`canGrant` and `canGrantVia` answer whether a device could mint a token with a
token it holds, as the parent or as the authoriser.

* `grant_queries_predict_minting`: the answer is yes iff the mint succeeds, but
  for a grant-capability within its parent.
* `canGrant_unmintable`: a grant-capability could be minted below another one by
  the answer, and the mint refuses it.
-/

namespace WireMesh.TypeScript

open Async

section

variable (codec : Codec) (trilean : Trilean)

/-- Whether a candidate with an expiry could be minted with a held token, by a check of the
    token's claims. -/
def couldMint (heldToken : CapabilityToken) (expires now : ℕ)
    (check : TokenClaims → Mint Unit) : Async Empty Empty String Bool :=
  if expires ≤ now then return false
  else match decodeTokenClaims codec heldToken with
    | none => return false
    | some heldClaims => do return (← (check heldClaims).run).isOk

def canGrant (heldToken : CapabilityToken) (deviceId : DeviceId) (candidate : NarrowingCandidate)
    (now : ℕ) : Async Empty Empty String Bool :=
  couldMint codec heldToken candidate.expires now fun heldClaims =>
    checkNarrowing trilean heldClaims deviceId candidate

def canGrantVia (heldGrantCapability : CapabilityToken) (deviceId : DeviceId)
    (candidate : GrantSubject) (now : ℕ) : Async Empty Empty String Bool :=
  couldMint codec heldGrantCapability candidate.expires now fun heldClaims =>
    checkAuthorisation codec trilean heldClaims deviceId candidate

end

/-- The token to be minted as a candidate below a parent. -/
def MintCapabilityTokenOptions.candidate (options : MintCapabilityTokenOptions) :
    NarrowingCandidate where
  capability := options.capability
  scope := options.scope
  expires := options.expires
  delegationsRemaining := options.delegationsRemaining

variable {codec : Codec} {trilean : Trilean} {ans : Empty → Except String Empty → Prop}

theorem settles_couldMint {held : CapabilityToken} {expires now : ℕ}
    {check : TokenClaims → Mint Unit} :
    Settles ans (couldMint codec held expires now check) (.ok true) ↔
      now < expires ∧ ∃ claims, decodeTokenClaims codec held = some claims ∧
        Accepts ans (check claims) () := by
  rw [couldMint]
  split
  case isTrue h => simp [h]
  case isFalse h =>
    cases decodeTokenClaims codec held with
    | none => simp
    | some claims =>
      simp only [settles_bind_ok, settles_pure, Option.some.injEq, exists_eq_left', not_le.1 h,
        true_and, Accepts]
      constructor
      · rintro ⟨r, hr, hok⟩
        cases r with
        | ok u => exact hr
        | error e => simp [Except.isOk, Except.toBool] at hok
      · exact fun h => ⟨_, h, rfl⟩

/-- A device is told that it could mint a token below the one it holds iff the mint succeeds, but
    for a grant-capability within the one it holds that is yet to expire. It is told that it could
    mint one with the one it holds as the authoriser iff the mint succeeds. -/
theorem grant_queries_predict_minting (codec : Codec) {trilean : Trilean} (ht : trilean.Kleene)
    (held : CapabilityToken) (options : MintCapabilityTokenOptions)
    (hparent : options.parent = none) (hauthoriser : options.authorisedBy = none) :
    ((Settles (fun _ _ => False) (canGrant codec trilean held options.identity.deviceId
          options.candidate options.now) (.ok true) ↔
        ∃ token, { options with parent := some held }.Mints codec trilean token) ↔
      ¬(options.capability = manageGrant ∧ options.now < options.expires ∧
        ∃ claims, decodeTokenClaims codec held = some claims ∧
          Narrowed claims options.identity.deviceId options.candidate)) ∧
    (Settles (fun _ _ => False) (canGrantVia codec trilean held options.identity.deviceId
        options.subject options.now) (.ok true) ↔
      ∃ token, { options with authorisedBy := some held }.Mints codec trilean token) := by
  refine ⟨?_, ?_⟩
  · rw [canGrant, settles_couldMint]
    change (_ ↔ ∃ token, Accepts _ _ token) ↔ _
    simp only [accepts_bind, accepts_ensure, accepts_pure, checkParent, checkAuthoriser,
      accepts_orRefuse, hauthoriser, checkNarrowing_accepts ht]
    by_cases hverb : options.capability = manageGrant
    -- The mint refuses a grant-capability, so the answer must be no.
    · simp [hverb, MintCapabilityTokenOptions.candidate]
    · simp [hverb, MintCapabilityTokenOptions.candidate, Unique.exists_iff]
  · rw [canGrantVia, settles_couldMint]
    change _ ↔ ∃ token, Accepts _ _ token
    simp only [accepts_bind, accepts_ensure, accepts_pure, checkParent, checkAuthoriser,
      accepts_orRefuse, hparent]
    simp [MintCapabilityTokenOptions.subject, Unique.exists_iff]

theorem grant_queries_predict_minting_sample :
    let options := { Sample.delegatedMint.options with parent := none }
    (∃ token, { options with parent := some (Link.sample 2 Sample.minted).token }.Mints
        Sample.options.codec Sample.options.trilean token) ∧
      Settles (fun _ _ => False) (canGrant Sample.options.codec Sample.options.trilean
        (Link.sample 2 Sample.minted).token options.identity.deviceId options.candidate
        options.now) (.ok true) := by
  intro options
  have hmints := Sample.mints_minted.mints Sample.delegatedMint (by simp)
  exact ⟨⟨_, hmints⟩, ((grant_queries_predict_minting _ Trilean.sample_kleene _ options rfl
    rfl).1.2 fun h => absurd h.1 (by decide)).2 ⟨_, hmints⟩⟩

/-- The holder of a grant-capability is told that it could mint another one below it, which the
    mint refuses. -/
theorem canGrant_unmintable :
    let options := { Sample.grantMint.options with
      identity := .sample 2, delegationsRemaining := some 0 }
    let held := (Link.sample 1 Sample.grant).token
    Settles (fun _ _ => False) (canGrant Sample.options.codec Sample.options.trilean held
        options.identity.deviceId options.candidate options.now) (.ok true) ∧
      Settles (fun _ _ => False) (mintCapabilityToken Sample.options.codec Sample.options.trilean
        { options with parent := some held })
        (.ok (.error .authorisationParentForbidden)) := by
  intro options held
  have hgrant : decodeTokenClaims Sample.options.codec held = some Sample.grant :=
    (Sample.links_reads (by simp [Sample.links])).1
  refine ⟨settles_couldMint.2 ⟨by decide, _, hgrant,
    (checkNarrowing_accepts Trilean.sample_kleene).2
      ⟨rfl, by decide, by decide, rfl, by decide⟩⟩, ?_⟩
  change Refuses _ _ _
  simp [Sample.grantMint, manageGrant, options]

end WireMesh.TypeScript
