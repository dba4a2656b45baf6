import Mathlib.Algebra.Field.Defs
import WireMesh.Feldman
import WireMesh.OrderedMap
import WireMesh.Token

/-!
# Resharing (Rust)

The shares of a group are dealt anew by some of its participants, the survivors: each splits its
share, weighted by a Lagrange coefficient (`lagrange.rs`), broadcasts a commitment, and sends a part
to each new participant. A new participant sums the commitments up to the public keys of the group,
and the parts to its own share (`reshare.rs`), and confirms what it has seen with the others
(`join_threshold_reshare` in `keygen_network.rs`).

The scalars are a field, and the points a module over it. The FROST library is a parameter, with
what is documented of its functions (`Curve`). A map that is ordered by identifiers is kept in the
order of its insertions.
-/

namespace WireMesh.Rust.Reshare

/-! ## The FROST library -/

inductive FrostError
  | invalidIdentityElement
  | malformed (message : String)
  | invalidSecretShare
  | incorrectCommitment
  | unknownIdentifier
  | malformedSigningKey
  | invalidMinSigners
  | invalidMaxSigners
  | incorrectNumberOfIdentifiers
  | duplicatedIdentifier
deriving DecidableEq

/-- A share with the commitment of its dealer. -/
structure SecretShare (F E : Type) where
  identifier : F
  signingShare : F
  commitment : List E
deriving DecidableEq

structure PublicKeyPackage (F E : Type) where
  verifyingShares : OrderedMap F E
  verifyingKey : E

structure KeyPackage (F E : Type) where
  identifier : F
  signingShare : F
  verifyingShare : E
  verifyingKey : E
  minSigners : ℕ

def evaluatePolynomial {F : Type} [Field F] (identifier : F) (coefficients : List F) : F :=
  coefficients.foldr (fun coefficient value => coefficient + identifier * value) 0

/-- The group with its encodings, in which the identity is no valid point, and the functions of the
    library. -/
structure Curve (F E : Type) [Field F] [AddCommGroup E] [Module F E] [DecidableEq E] where
  generator : E
  generator_ne_zero : generator ≠ 0
  compress : E → Bytes
  deserialize : Bytes → Except FrostError E
  deserialize_compress : ∀ p : E, deserialize (compress p) =
    if p = 0 then .error .invalidIdentityElement else .ok p
  deserializeShare : Bytes → Except FrostError (SecretShare F E)
  /-- The identifier that is derived from a device-id, which must not be zero. -/
  derive : DeviceId → Option F
  /-- The hash of the commitments by identifier, and of the group key. -/
  digest : (F → Option (List E)) → E → Bytes
  signingKey : F → Except FrostError F
  /-- A scalar other than zero is a key. -/
  exists_signingKey : ∀ scalar ≠ 0, ∃ key, signingKey scalar = .ok key
  signingKey_eq_ok : ∀ scalar key, signingKey scalar = .ok key → key = scalar
  verify : SecretShare F E → Except FrostError (E × E)
  /-- A share is checked against the commitment that comes with it. -/
  exists_verify_iff : ∀ share, (∃ keys, verify share = .ok keys) ↔ share.commitment ≠ [] ∧
    share.signingShare • generator = Feldman.evaluate share.commitment share.identifier
  fromCommitment : List F → List E → Except FrostError (PublicKeyPackage F E)
  /-- The verifying shares are the values of the commitment. -/
  mem_verifyingShares_iff : ∀ identifiers commitment package,
    fromCommitment identifiers commitment = .ok package → ∀ identifier share,
      (identifier, share) ∈ package.verifyingShares.entries ↔
        identifier ∈ identifiers ∧ share = Feldman.evaluate commitment identifier
  /-- A secret is shared, with the random scalars that are drawn. -/
  split : F → ℕ → ℕ → List F → (ℕ → F) → Except FrostError (OrderedMap F (SecretShare F E))
  /-- The shares are the values of a polynomial whose other coefficients are random. -/
  exists_split : ∀ (key : F) (minSigners : ℕ) (identifiers : List F) (random : ℕ → F),
    2 ≤ minSigners → minSigners ≤ identifiers.length → identifiers.Nodup →
    ∃ shares, split key identifiers.length minSigners identifiers random = .ok shares ∧
      ∀ identifier share, (identifier, share) ∈ shares.entries ↔ identifier ∈ identifiers ∧
        share = {
          identifier
          signingShare := evaluatePolynomial identifier
            (key :: (List.range (minSigners - 1)).map random)
          commitment := (key :: (List.range (minSigners - 1)).map random).map (· • generator) }

section Library

variable {F E : Type} [Field F] [DecidableEq F] [AddCommGroup E] [Module F E] [DecidableEq E]
  (c : Curve F E)

def Curve.serialize (p : E) : Except FrostError Bytes :=
  if p = 0 then .error .invalidIdentityElement else .ok (c.compress p)

def Curve.serializeCommitment (commitment : List E) : Except FrostError (List Bytes) :=
  commitment.mapM c.serialize

def Curve.deserializeCommitment (parts : List Bytes) : Except FrostError (List E) :=
  parts.mapM c.deserialize

/-! ## Lagrange coefficients -/

inductive LagrangeError
  | emptyIdentifierSet
  | notAMember
  | duplicatedIdentifier
deriving DecidableEq

/-- The state of the loop over the identifiers. -/
structure Interpolation (F : Type) where
  num : F
  den : F
  found : Bool

def Interpolation.next (xi : F) (s : Interpolation F) (xj : F) : Interpolation F :=
  if xj = xi then { s with found := true }
  else { s with num := s.num * xj, den := s.den * (xj - xi) }

def lagrangeCoefficientAtZero (xSet : List F) (xi : F) : Except LagrangeError F := do
  if xSet = [] then throw .emptyIdentifierSet
  let s := xSet.foldl (Interpolation.next xi) { num := 1, den := 1, found := false }
  if !s.found then throw .notAMember
  return s.num * s.den⁻¹

/-! ## Resharing -/

inductive ReshareError
  | frost (error : FrostError)
  | lagrange (error : LagrangeError)
  | commitmentLengthMismatch
  | emptyCommitment
deriving DecidableEq

/-- What a survivor broadcasts, and the parts of its share. The number of the new participants is
    kept in 16 bits. -/
def round1Reshare (myId myOldShare : F) (oldSurvivorIds newParticipantIds : List F)
    (newMinSigners : ℕ) (random : ℕ → F) :
    Except ReshareError (List E × OrderedMap F (SecretShare F E)) := do
  let lambda ← (lagrangeCoefficientAtZero oldSurvivorIds myId).mapError ReshareError.lagrange
  let weightedKey ← (c.signingKey (lambda * myOldShare)).mapError ReshareError.frost
  let shares ← (c.split weightedKey (newParticipantIds.length % 2 ^ 16) newMinSigners
    newParticipantIds random).mapError ReshareError.frost
  match shares.values.head? with
  | none => throw .emptyCommitment
  | some share => return (share.commitment, shares)

def combineCommitmentParts (parts : List Bytes) : Except ReshareError (List E) :=
  (c.deserializeCommitment parts).mapError .frost

/-- The sum of the commitments of the survivors, coefficient by coefficient. -/
def combineSurvivorCommitments (commitments : List (List E)) : Except ReshareError (List E) := do
  let perCommitment ← commitments.mapM fun commitment => do
    let parts ← (c.serializeCommitment commitment).mapError ReshareError.frost
    (c.deserializeCommitment parts).mapError ReshareError.frost
  let degree ← match perCommitment.head? with
    | none => throw .emptyCommitment
    | some first => pure first.length
  if degree = 0 then throw .emptyCommitment
  if perCommitment.any (·.length ≠ degree) then throw .commitmentLengthMismatch
  let summed ← (List.range degree).mapM fun i =>
    let point := perCommitment.foldl (fun point coefficients => point + coefficients.getD i 0) 0
    (c.deserialize (c.compress point)).mapError ReshareError.frost
  let parts ← (c.serializeCommitment summed).mapError ReshareError.frost
  (c.deserializeCommitment parts).mapError ReshareError.frost

def derivePublicKeyPackage (combinedCommitment : List E) (newParticipantIds : List F) :
    Except ReshareError (PublicKeyPackage F E) :=
  (c.fromCommitment newParticipantIds combinedCommitment).mapError .frost

/-- The shares are checked and summed up. -/
def combineReceivedShares (myId : F) (received : List (SecretShare F E))
    (publicKeyPackage : PublicKeyPackage F E) (newMinSigners : ℕ) :
    Except ReshareError (KeyPackage F E) := do
  let combined ← received.foldlM
    (fun combined share => do
      let _ ← (c.verify share).mapError ReshareError.frost
      return combined + share.signingShare) (0 : F)
  match publicKeyPackage.verifyingShares.get myId with
  | none => throw (.frost .unknownIdentifier)
  | some myVerifyingShare => return {
      identifier := myId
      signingShare := combined
      verifyingShare := myVerifyingShare
      verifyingKey := publicKeyPackage.verifyingKey
      minSigners := newMinSigners }

/-! ## Joining -/

inductive DkgError
  | frost (error : FrostError)
  | transcriptMismatch
deriving DecidableEq

inductive DkgNetworkError
  | dkg (error : DkgError)
  | reshare (error : ReshareError)
  | identifier (device : DeviceId)
  | frost (error : FrostError)
  | transport (message : String)
  | unexpectedOutcome (peer : DeviceId) (code : String)
  | missingProofOfKnowledge (peer : DeviceId)
  | transcriptMismatch (peer : DeviceId)
  | takeoverRejected
  | aborted (reason : String)
deriving DecidableEq

structure ConfirmPayload where
  transcriptDigest : Bytes
  groupKey : Bytes

/-- What comes of the waits and the sends of a new participant, in their order. Whatever a peer may
    send is here. -/
structure Peers where
  round1 : ℕ → Except String (List Bytes)
  round2 : ℕ → Except String Bytes
  send : ℕ → Except DkgNetworkError Unit
  confirm : ℕ → Except String ConfirmPayload

/-- What a survivor that stays has dealt to itself. -/
structure ReshareOwnContribution (F E : Type) where
  commitment : List E
  shareToSelf : SecretShare F E

structure JoinThresholdReshare (F E : Type) where
  ownDeviceId : DeviceId
  otherSurvivors : List DeviceId
  ownContribution : Option (ReshareOwnContribution F E)
  newParticipants : List DeviceId
  newThreshold : ℕ
  existingGroupKey : Bytes

def identifierForDevice (device : DeviceId) : Except DkgNetworkError F :=
  match c.derive device with
  | none => .error (.identifier device)
  | some identifier => .ok identifier

variable (o : JoinThresholdReshare F E) (peers : Peers)

/-- The commitments that the survivors have broadcast, this device's own one included. -/
def broadcastCommitments (ownIdentifier : F) : Except DkgNetworkError (List (F × List E)) := do
  let received ← o.otherSurvivors.zipIdx.mapM fun (peer, i) => do
    let parts ← (peers.round1 i).mapError DkgNetworkError.aborted
    let commitment ← (combineCommitmentParts c parts).mapError DkgNetworkError.reshare
    let identifier ← identifierForDevice c peer
    return (identifier, commitment)
  return received ++ o.ownContribution.toList.map fun own => (ownIdentifier, own.commitment)

/-- The shares that the survivors have sent. -/
def receivedShares : Except DkgNetworkError (List (SecretShare F E)) := do
  let received ← o.otherSurvivors.zipIdx.mapM fun (_, i) => do
    let bytes ← (peers.round2 i).mapError DkgNetworkError.aborted
    (c.deserializeShare bytes).mapError DkgNetworkError.frost
  return received ++ o.ownContribution.toList.map (·.shareToSelf)

/-- What has been seen is confirmed with the other new participants. -/
def confirmTranscript (ownDigest groupKey : Bytes) : Except DkgNetworkError Unit := do
  let others := o.newParticipants.filter (· ≠ o.ownDeviceId)
  others.zipIdx.forM fun (_, i) => peers.send i
  others.zipIdx.forM fun (peer, i) => do
    let confirm ← (peers.confirm i).mapError DkgNetworkError.aborted
    unless ownDigest = confirm.transcriptDigest ∧ groupKey = confirm.groupKey do
      throw (.transcriptMismatch peer)

/-- The commitments by the identifiers of the survivors. A later one replaces an earlier one. -/
def survivorCommitments (entries : List (F × List E)) : OrderedMap F (List E) :=
  entries.foldl (fun map entry => map.set entry.1 entry.2) .empty

def joinThresholdReshare :
    Except DkgNetworkError (KeyPackage F E × PublicKeyPackage F E) := do
  let ownIdentifier ← identifierForDevice c o.ownDeviceId
  let entries ← broadcastCommitments c o peers ownIdentifier
  let combined ← (combineSurvivorCommitments c (survivorCommitments entries).values).mapError
    DkgNetworkError.reshare
  let newIds ← o.newParticipants.mapM (identifierForDevice c)
  let publicKeyPackage ← (derivePublicKeyPackage c combined newIds).mapError
    DkgNetworkError.reshare
  let derivedGroupKey ← (c.serialize publicKeyPackage.verifyingKey).mapError DkgNetworkError.frost
  if derivedGroupKey ≠ o.existingGroupKey then throw .takeoverRejected
  let shares ← receivedShares c o peers
  let keyPackage ← (combineReceivedShares c ownIdentifier shares publicKeyPackage
    o.newThreshold).mapError DkgNetworkError.reshare
  let ownDigest := c.digest (survivorCommitments entries).get publicKeyPackage.verifyingKey
  confirmTranscript o peers ownDigest derivedGroupKey
  return (keyPackage, publicKeyPackage)

end Library

end WireMesh.Rust.Reshare
