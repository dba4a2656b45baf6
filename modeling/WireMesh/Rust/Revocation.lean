import WireMesh.Buckets
import WireMesh.Revocation
import WireMesh.Rust.Tokens

/-!
# The Rust revocation view

The view admits every entry that verifies, under its token-id. An entry takes
the place of an earlier one of the same issuer unless that one is more recent
(`admitLatest`), so that the view keeps the latest entry of each issuer:
`RevocationView.latestOf_entriesFor`.
-/

namespace WireMesh.Rust

inductive RevocationError
  | malformed (message : String)
  | badSignature
  | issuerMismatch
deriving DecidableEq

/-- What an entry is verified with: the decoder of its claims and the primitives. -/
structure EntryVerifier where
  claims : Bytes → Except String RevocationClaims
  identity : Identity

def EntryVerifier.decode (verifier : EntryVerifier) (bytes : Bytes) : Option RevocationClaims :=
  (verifier.claims bytes).toOption

section Verify

variable (verifier : EntryVerifier)

/-- The claims of an entry. -/
def decodeEntryClaims (entry : RevocationEntry) : Except String RevocationClaims :=
  match entry.payload with
  | none => .error "constraint violated: revocation-entry payload is nil"
  | some payload => verifier.claims payload

/-- The checks an entry has to pass to be admitted. -/
def verifyEntry (entry : RevocationEntry) : Except RevocationError RevocationClaims :=
  match decodeEntryClaims verifier entry with
  | .error message => .error (.malformed message)
  | .ok claims => match entry.payload with
    | none => .error (.malformed "revocation-entry payload is nil")
    | some payload =>
      match verifier.identity.verify claims.issuerKey
        (sig1ToBeSigned entry.protectedHeader payload) entry.signature with
      | .error message => .error (.malformed message)
      | .ok false => .error .badSignature
      | .ok true =>
        if verifier.identity.deriveDeviceId claims.issuerKey.publicKey ≠ claims.issuer then
          .error .issuerMismatch
        else
          .ok claims

variable {verifier}

theorem EntryVerifier.decode_eq_some_iff {bytes : Bytes} {claims : RevocationClaims} :
    verifier.decode bytes = some claims ↔ verifier.claims bytes = .ok claims := by
  rw [EntryVerifier.decode]
  cases verifier.claims bytes <;> simp [Except.toOption]

theorem verifyEntry_eq_ok_iff {entry : RevocationEntry} {claims : RevocationClaims} :
    verifyEntry verifier entry = .ok claims ↔
      verifier.identity.Attests verifier.decode entry claims := by
  constructor
  · intro h
    rw [verifyEntry] at h
    split at h
    next => cases h
    next c hclaims =>
      split at h
      next => cases h
      next payload hpayload =>
        rw [decodeEntryClaims, hpayload] at hclaims
        split at h
        next => cases h
        next => cases h
        next hsigned =>
          split_ifs at h with hissuer
          cases h
          exact ⟨payload, hpayload, EntryVerifier.decode_eq_some_iff.2 hclaims, hsigned,
            not_not.1 hissuer⟩
  · rintro ⟨payload, hpayload, hclaims, hsigned, hissuer⟩
    grind [EntryVerifier.decode_eq_some_iff, verifyEntry, decodeEntryClaims]

end Verify

/-! ## The view -/

/-- The admitted entries, under their token-ids. -/
structure RevocationView where
  entries : Buckets Bytes RevocationClaims

namespace RevocationView

def new : RevocationView where
  entries := ∅

def entriesFor (view : RevocationView) (tokenId : Bytes) : List RevocationClaims :=
  view.entries.bucket tokenId

/-- The view with the claims of a verified entry. -/
def insert (view : RevocationView) (claims : RevocationClaims) : RevocationView where
  entries := view.entries.modify claims.tokenId fun bucket =>
    admitLatest RevocationClaims.issuer RevocationClaims.revokedAt bucket claims

/-- An entry that verifies is admitted, and any other one refused. -/
def verifyAndInsert (verifier : EntryVerifier) (view : RevocationView)
    (entry : RevocationEntry) : RevocationView × Except RevocationError Unit :=
  match verifyEntry verifier entry with
  | .ok claims => (view.insert claims, .ok ())
  | .error e => (view, .error e)

/-- The view after a sequence of admissions. -/
def insertAll (verifier : EntryVerifier) (view : RevocationView)
    (entries : List RevocationEntry) : RevocationView :=
  entries.foldl (fun view entry => (verifyAndInsert verifier view entry).1) view

variable {verifier : EntryVerifier} {view : RevocationView}

theorem entriesFor_insert {claims : RevocationClaims} {tokenId : Bytes} :
    (view.insert claims).entriesFor tokenId =
      ([claims].filter fun c => c.tokenId = tokenId).foldl
        (admitLatest RevocationClaims.issuer RevocationClaims.revokedAt)
        (view.entriesFor tokenId) := by grind [entriesFor, insert, Buckets.bucket_modify]

/-- The claims of an entry that verifies. -/
def admitted (verifier : EntryVerifier) (entry : RevocationEntry) : Option RevocationClaims :=
  (verifyEntry verifier entry).toOption

theorem admitted_eq_some_iff {entry : RevocationEntry} {claims : RevocationClaims} :
    admitted verifier entry = some claims ↔
      verifier.identity.Attests verifier.decode entry claims := by
  rw [← verifyEntry_eq_ok_iff, admitted]
  cases verifyEntry verifier entry <;> simp [Except.toOption]

/-- An admission is one of the claims of the entry, if it verifies. -/
theorem entriesFor_verifyAndInsert {entry : RevocationEntry} {tokenId : Bytes} :
    (verifyAndInsert verifier view entry).1.entriesFor tokenId =
      (claimsAbout (admitted verifier) tokenId [entry]).foldl
        (admitLatest RevocationClaims.issuer RevocationClaims.revokedAt)
        (view.entriesFor tokenId) := by
  rw [verifyAndInsert, claimsAbout_singleton, admitted]
  cases verifyEntry verifier entry with
  | error => rfl
  | ok claims => exact entriesFor_insert

/-- The view is what the admissions make of the log. -/
theorem entriesFor_insertAll {entries : List RevocationEntry} {tokenId : Bytes} :
    (insertAll verifier view entries).entriesFor tokenId =
      (claimsAbout (admitted verifier) tokenId entries).foldl
        (admitLatest RevocationClaims.issuer RevocationClaims.revokedAt)
        (view.entriesFor tokenId) := by
  induction entries generalizing view with
  | nil => rfl
  | cons entry entries ih =>
    rw [insertAll, List.foldl_cons, ← insertAll, ih, entriesFor_verifyAndInsert,
      ← List.foldl_append, ← claimsAbout_append, List.singleton_append]

/-- The view keeps the latest claims of each issuer. -/
theorem latestOf_entriesFor {entries : List RevocationEntry} {tokenId : Bytes} :
    LatestOf RevocationClaims.issuer RevocationClaims.revokedAt
      (claimsAbout (admitted verifier) tokenId entries)
      ((insertAll verifier new entries).entriesFor tokenId) := by
  rw [entriesFor_insertAll]
  exact LatestOf.nil.foldl _

end RevocationView

/-- The verifier with a revocation view. -/
def Verifier.consulting (verifier : Verifier) (view : RevocationView) : Verifier :=
  { verifier with entriesFor := view.entriesFor }

@[simp]
theorem Verifier.consulting_entriesFor {verifier : Verifier} {view : RevocationView}
    {tokenId : Bytes} :
    (verifier.consulting view).entriesFor tokenId = view.entriesFor tokenId := rfl

/-- A verifier that knows the given claims. -/
def EntryVerifier.sample (claims : List RevocationClaims) : EntryVerifier where
  claims bytes :=
    (decodeAmong RevocationClaims.encode claims bytes).elim (.error "unknown") .ok
  identity := .sample 4

theorem verifyEntry_sample {known : List RevocationClaims} {n : UInt8}
    {claims : RevocationClaims} (hne : known.Pairwise fun a b => a.encode ≠ b.encode)
    (h : claims ∈ known) (hby : claims.IsBy n) :
    verifyEntry (.sample known) (.sample n claims) = .ok claims := by
  refine verifyEntry_eq_ok_iff.2 (Identity.sample_attests hby
    (EntryVerifier.decode_eq_some_iff.2 ?_))
  simp only [EntryVerifier.sample, decodeAmong_eq hne h, Option.elim_some]

/-- Entries of a sample device, to a verifier that knows their claims. -/
theorem RevocationView.entriesFor_insertAll_sample {n : UInt8}
    {known claims : List RevocationClaims}
    (hne : known.Pairwise fun a b => a.encode ≠ b.encode) (hknown : ∀ c ∈ claims, c ∈ known)
    (hby : ∀ c ∈ claims, c.IsBy n) {tokenId : Bytes} :
    (insertAll (.sample known) new (claims.map (.sample n))).entriesFor tokenId =
      (claims.filter fun c => c.tokenId = tokenId).foldl
        (admitLatest RevocationClaims.issuer RevocationClaims.revokedAt) [] := by
  rw [entriesFor_insertAll, claimsAbout_map_of_admitted]
  · rfl
  · intro c hc
    exact admitted_eq_some_iff.2 (verifyEntry_eq_ok_iff.1
      (verifyEntry_sample hne (hknown c hc) (hby c hc)))

/-- A view that admitted the entries of a sample device. -/
def RevocationView.sample (n : UInt8) (claims : List RevocationClaims) : RevocationView :=
  .insertAll (.sample claims) .new (claims.map (.sample n))

theorem RevocationView.sample_entriesFor {n : UInt8} {claims : List RevocationClaims}
    (hne : claims.Pairwise fun a b => a.encode ≠ b.encode) (hby : ∀ c ∈ claims, c.IsBy n)
    {tokenId : Bytes} :
    (RevocationView.sample n claims).entriesFor tokenId =
      (claims.filter fun c => c.tokenId = tokenId).foldl
        (admitLatest RevocationClaims.issuer RevocationClaims.revokedAt) [] :=
  entriesFor_insertAll_sample hne (fun _ => id) hby

end WireMesh.Rust
