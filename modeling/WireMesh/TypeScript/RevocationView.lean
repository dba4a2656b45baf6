import WireMesh.Buckets
import WireMesh.Revocation
import WireMesh.TypeScript.Tokens

/-!
# The TypeScript revocation view

The view records every entry that verifies, under the hexadecimal text of its
token-id, and hands all of them back. So it is the log of what was recorded:
`RevocationView.entriesFor_recordAll`.

A recording awaits the verification of its entry and then changes the view in
one go, so recordings that overlap take effect one after another, in the order
in which their verifications end.
-/

namespace WireMesh.TypeScript

/-! ## The verification of entries -/

inductive RevocationEntryVerdictReason
  | malformed
  | badSignature
  | wrongIssuer
deriving DecidableEq

abbrev RevocationEntryVerdict := Except RevocationEntryVerdictReason RevocationClaims

/-- What an entry is verified with, beside the decoder. -/
structure VerifyRevocationEntryOptions where
  claims : Bytes → Option RevocationClaims
  identity : Identity

/-- The verification of a gossiped entry; it fails where the check of a signature does. -/
def verifyRevocationEntry (options : VerifyRevocationEntryOptions) (entry : RevocationEntry) :
    Except String RevocationEntryVerdict :=
  match entry.payload with
  | none => .ok (.error .malformed)
  | some payload => match options.claims payload with
    | none => .ok (.error .malformed)
    | some claims =>
      match options.identity.verify claims.issuerKey
        (sig1ToBeSigned entry.protectedHeader payload) entry.signature with
      | .error message => .error message
      | .ok signatureOk =>
        if signatureOk = false then
          .ok (.error .badSignature)
        else if options.identity.deriveDeviceId claims.issuerKey.publicKey ≠ claims.issuer then
          .ok (.error .wrongIssuer)
        else
          .ok (.ok claims)

theorem verifyRevocationEntry_eq_ok_iff {options : VerifyRevocationEntryOptions}
    {entry : RevocationEntry} {claims : RevocationClaims} :
    verifyRevocationEntry options entry = .ok (.ok claims) ↔
      options.identity.Attests options.claims entry claims := by
  constructor
  · intro h
    rw [verifyRevocationEntry] at h
    split at h
    next => cases h
    next payload hpayload =>
      split at h
      next => cases h
      next c hclaims =>
        split at h
        next => cases h
        next signatureOk hsigned =>
          split_ifs at h with hfalse hissuer
          all_goals cases h
          rw [Bool.not_eq_false] at hfalse
          exact ⟨payload, hpayload, hclaims, hfalse ▸ hsigned, not_not.1 hissuer⟩
  · rintro ⟨payload, hpayload, hclaims, hsigned, hissuer⟩
    simp [verifyRevocationEntry, hpayload, hclaims, hsigned, hissuer]

/-! ## The view -/

/-- The recorded entries, under the texts of their token-ids. -/
structure RevocationView where
  entriesByTokenId : Buckets String RevocationClaims

namespace RevocationView

def revocationKey (tokenId : Bytes) : String := bytesToHex tokenId

def createRevocationView : RevocationView where
  entriesByTokenId := ∅

def entriesFor (view : RevocationView) (tokenId : Bytes) : List RevocationClaims :=
  view.entriesByTokenId.bucket (revocationKey tokenId)

/-- The view with the claims of a verified entry. -/
def push (view : RevocationView) (claims : RevocationClaims) : RevocationView where
  entriesByTokenId :=
    view.entriesByTokenId.modify (revocationKey claims.tokenId) fun existing =>
      existing ++ [claims]

/-- An entry that verifies is recorded, and any other one dropped. -/
def record (options : VerifyRevocationEntryOptions) (view : RevocationView)
    (entry : RevocationEntry) : RevocationView × Except String RevocationEntryVerdict :=
  match verifyRevocationEntry options entry with
  | .ok (.ok claims) => (view.push claims, .ok (.ok claims))
  | verdict => (view, verdict)

/-- The view after a sequence of recordings. -/
def recordAll (options : VerifyRevocationEntryOptions) (view : RevocationView)
    (entries : List RevocationEntry) : RevocationView :=
  entries.foldl (fun view entry => (record options view entry).1) view

variable {options : VerifyRevocationEntryOptions} {view : RevocationView}

@[simp]
theorem entriesFor_create {tokenId : Bytes} : createRevocationView.entriesFor tokenId = [] := rfl

theorem entriesFor_push {claims : RevocationClaims} {tokenId : Bytes} :
    (view.push claims).entriesFor tokenId =
      view.entriesFor tokenId ++ [claims].filter (fun c => c.tokenId = tokenId) := by
  grind [entriesFor, push, Buckets.bucket_modify, revocationKey, bytesToHex_inj]

/-- The claims of an entry that verifies. -/
def admitted (options : VerifyRevocationEntryOptions) (entry : RevocationEntry) :
    Option RevocationClaims :=
  match verifyRevocationEntry options entry with
  | .ok (.ok claims) => some claims
  | _ => none

theorem admitted_eq_some_iff {entry : RevocationEntry} {claims : RevocationClaims} :
    admitted options entry = some claims ↔
      options.identity.Attests options.claims entry claims := by
  rw [← verifyRevocationEntry_eq_ok_iff, admitted]
  grind

/-- A recording appends the claims of the entry, if it verifies. -/
theorem entriesFor_record {entry : RevocationEntry} {tokenId : Bytes} :
    (record options view entry).1.entriesFor tokenId =
      view.entriesFor tokenId ++ claimsAbout (admitted options) tokenId [entry] := by
  grind [record, claimsAbout_singleton, admitted, entriesFor_push]

/-- The view is the log of the claims recorded. -/
theorem entriesFor_recordAll {entries : List RevocationEntry} {tokenId : Bytes} :
    (recordAll options view entries).entriesFor tokenId =
      view.entriesFor tokenId ++ claimsAbout (admitted options) tokenId entries := by
  induction entries generalizing view with
  | nil => simp [recordAll]
  | cons entry entries ih =>
    rw [recordAll, List.foldl_cons, ← recordAll, ih, entriesFor_record, List.append_assoc,
      ← claimsAbout_append, List.singleton_append]

end RevocationView

/-- The verifier with a revocation view. -/
def VerifyOptions.consulting (options : VerifyOptions) (view : RevocationView) : VerifyOptions :=
  { options with entriesFor := view.entriesFor }

@[simp]
theorem VerifyOptions.consulting_entriesFor {options : VerifyOptions} {view : RevocationView}
    {tokenId : Bytes} :
    (options.consulting view).entriesFor tokenId = view.entriesFor tokenId := rfl

/-- The options of a verification that knows the given claims. -/
def VerifyRevocationEntryOptions.sample (claims : List RevocationClaims) :
    VerifyRevocationEntryOptions where
  claims := decodeAmong RevocationClaims.encode claims
  identity := .sample 4

theorem verifyRevocationEntry_sample {known : List RevocationClaims} {n : UInt8}
    {claims : RevocationClaims} (hne : known.Pairwise fun a b => a.encode ≠ b.encode)
    (h : claims ∈ known) (hby : claims.IsBy n) :
    verifyRevocationEntry (.sample known) (.sample n claims) = .ok (.ok claims) :=
  verifyRevocationEntry_eq_ok_iff.2 (Identity.sample_attests hby (decodeAmong_eq hne h))

/-- A view that recorded the entries of a sample device. -/
def RevocationView.sample (n : UInt8) (claims : List RevocationClaims) : RevocationView :=
  .recordAll (.sample claims) .createRevocationView (claims.map (.sample n))

theorem RevocationView.sample_entriesFor {n : UInt8} {claims : List RevocationClaims}
    (hne : claims.Pairwise fun a b => a.encode ≠ b.encode) (hby : ∀ c ∈ claims, c.IsBy n)
    {tokenId : Bytes} :
    (RevocationView.sample n claims).entriesFor tokenId =
      claims.filter fun c => c.tokenId = tokenId := by
  rw [RevocationView.sample, entriesFor_recordAll]
  exact claimsAbout_map_of_admitted fun c hc => admitted_eq_some_iff.2
    (verifyRevocationEntry_eq_ok_iff.1 (verifyRevocationEntry_sample hne hc (hby c hc)))

end WireMesh.TypeScript
