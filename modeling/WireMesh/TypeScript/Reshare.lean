import WireMesh.Rust.Reshare

/-!
# Joining a reshared group

The new participant's side of a resharing (`joinThresholdReshare` in `threshold-dkg.ts`). What it
computes it has from the Rust library, by way of WebAssembly (`threshold-wasm.ts`); packages and
commitments that have crossed that boundary are represented by what they encode.
-/

namespace WireMesh.TypeScript.Reshare

open Rust.Reshare (Curve FrostError ReshareError PublicKeyPackage KeyPackage SecretShare
  ConfirmPayload combineCommitmentParts combineSurvivorCommitments derivePublicKeyPackage
  combineReceivedShares)

/-! ## WebAssembly -/

inductive WasmError
  | identifier (device : DeviceId)
  | frost (error : FrostError)
  | reshare (error : ReshareError)
deriving DecidableEq

section Wasm

variable {F E : Type} [Field F] [DecidableEq F] [AddCommGroup E] [Module F E] [DecidableEq E]
  (c : Curve F E)

def identifierFromDeviceId (device : DeviceId) : Except WasmError F :=
  match c.derive device with
  | none => .error (.identifier device)
  | some identifier => .ok identifier

def reshareCombineCommitmentParts (parts : List Bytes) : Except WasmError (List E) :=
  (combineCommitmentParts c parts).mapError .reshare

def reshareCombineCommitments (commitments : List (List E)) : Except WasmError (List E) :=
  (combineSurvivorCommitments c commitments).mapError .reshare

structure DerivedPublicKeyPackage (F E : Type) where
  publicKeyPackage : PublicKeyPackage F E
  groupVerifyingKey : Bytes

def reshareDerivePublicKeyPackage (combinedCommitment : List E) (newParticipants : List DeviceId) :
    Except WasmError (DerivedPublicKeyPackage F E) := do
  let ids ← newParticipants.mapM (identifierFromDeviceId c)
  let publicKeyPackage ← (derivePublicKeyPackage c combinedCommitment ids).mapError
    WasmError.reshare
  let groupVerifyingKey ← (c.serialize publicKeyPackage.verifyingKey).mapError WasmError.frost
  return { publicKeyPackage, groupVerifyingKey }

def reshareCombineReceivedShares (ownDeviceId : DeviceId) (received : List Bytes)
    (publicKeyPackage : PublicKeyPackage F E) (newMinSigners : ℕ) :
    Except WasmError (KeyPackage F E) := do
  let ownId ← identifierFromDeviceId c ownDeviceId
  let shares ← received.mapM fun bytes => (c.deserializeShare bytes).mapError WasmError.frost
  (combineReceivedShares c ownId shares publicKeyPackage newMinSigners).mapError WasmError.reshare

def reshareTranscriptDigest (survivorCommitments : List (DeviceId × List E))
    (groupVerifyingKey : Bytes) : Except WasmError Bytes := do
  let commitments ← survivorCommitments.mapM fun entry => do
    return (← identifierFromDeviceId c entry.1, entry.2)
  let groupKey ← (c.deserialize groupVerifyingKey).mapError WasmError.frost
  return c.digest (Rust.Reshare.survivorCommitments commitments).get groupKey

/-! ## Joining -/

/-- What comes of the waits and the sends of a new participant, in their order. Whatever a peer may
    send is here. -/
structure Peers where
  round1 : ℕ → Except String (List Bytes)
  round2 : ℕ → Except String Bytes
  send : ℕ → Except String Unit
  confirm : ℕ → Except String ConfirmPayload

structure ReshareOwnContribution (E : Type) where
  commitment : List E
  shareToSelf : Bytes

structure JoinThresholdReshareOptions (E : Type) where
  ownDeviceId : DeviceId
  otherSurvivors : List DeviceId
  ownContribution : Option (ReshareOwnContribution E)
  newParticipants : List DeviceId
  newThreshold : ℕ
  existingGroupKey : Bytes

inductive JoinError
  | wasm (error : WasmError)
  | error (message : String)
deriving DecidableEq

structure ThresholdDkgResult (F E : Type) where
  keyPackage : KeyPackage F E
  publicKeyPackage : PublicKeyPackage F E
  groupVerifyingKey : Bytes

variable (o : JoinThresholdReshareOptions E) (peers : Peers)

/-- The commitments that the survivors have broadcast, this device's own one first. -/
def survivorEntries : Except JoinError (List (DeviceId × List E)) := do
  let otherSurvivorEntries ← o.otherSurvivors.zipIdx.mapM fun (peer, i) => do
    let parts ← (peers.round1 i).mapError JoinError.error
    let value ← (reshareCombineCommitmentParts c parts).mapError JoinError.wasm
    return (peer, value)
  return (o.ownContribution.toList.map fun own => (o.ownDeviceId, own.commitment)) ++
    otherSurvivorEntries

/-- The shares that the survivors have sent, this device's own one last. -/
def receivedShares : Except JoinError (List Bytes) := do
  let received ← o.otherSurvivors.zipIdx.mapM fun (_, i) =>
    (peers.round2 i).mapError JoinError.error
  return received ++ o.ownContribution.toList.map (·.shareToSelf)

def confirmTranscript (ownDigest groupVerifyingKey : Bytes) : Except JoinError Unit := do
  let others := o.newParticipants.filter (· ≠ o.ownDeviceId)
  others.zipIdx.forM fun (_, i) => (peers.send i).mapError JoinError.error
  others.zipIdx.forM fun (peer, i) => do
    let confirm ← (peers.confirm i).mapError JoinError.error
    unless ownDigest = confirm.transcriptDigest ∧ groupVerifyingKey = confirm.groupKey do
      throw (.error ("reshare echo-broadcast transcript mismatch with " ++ deviceIdToHex peer ++
        " -- aborting"))

def joinThresholdReshare : Except JoinError (ThresholdDkgResult F E) := do
  let entries ← survivorEntries c o peers
  let combined ← (reshareCombineCommitments c (entries.map Prod.snd)).mapError JoinError.wasm
  let derived ← (reshareDerivePublicKeyPackage c combined o.newParticipants).mapError
    JoinError.wasm
  if derived.groupVerifyingKey ≠ o.existingGroupKey then
    throw (.error ("reshare's own derived group key does not match existing-group-key -- " ++
      "refusing to adopt a takeover"))
  let shares ← receivedShares o peers
  let keyPackage ← (reshareCombineReceivedShares c o.ownDeviceId shares derived.publicKeyPackage
    o.newThreshold).mapError JoinError.wasm
  let ownDigest ← (reshareTranscriptDigest c entries derived.groupVerifyingKey).mapError
    JoinError.wasm
  confirmTranscript o peers ownDigest derived.groupVerifyingKey
  return {
    keyPackage
    publicKeyPackage := derived.publicKeyPackage
    groupVerifyingKey := derived.groupVerifyingKey }

end Wasm

end WireMesh.TypeScript.Reshare
