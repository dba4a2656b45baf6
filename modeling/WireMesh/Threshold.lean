import WireMesh.Token

/-!
# Threshold signatures

What the participants of a signing session exchange (`threshold.cddl`): what is to be signed, the
requests of the two rounds, and the envelope of a signature share. A participant decides on the
subject in the first round, and signs in the second.
-/

namespace WireMesh

open Cbor

/-- The verb of the capability that signing needs. -/
def thresholdSignVerb : String := "exadev.io/threshold:sign"

structure ThresholdSubject where
  kind : String
  protectedHeader : Bytes
  payload : Bytes
deriving DecidableEq

def knownKinds : List String :=
  ["capability-token", "revocation-entry", "handle-record", "room-notice"]

inductive SubjectDecision
  | authorise
  | refuse (reason : String)
deriving DecidableEq

/-- A kind that is not known is refused. The reason quotes it. -/
def refuseUnrecognisedKind (quote : String → String) (subject : ThresholdSubject) :
    Option SubjectDecision :=
  if subject.kind ∈ knownKinds then none
  else some (.refuse ("unrecognised threshold-subject.kind " ++ quote subject.kind ++
    " -- refusing to sign"))

def toBeSigned (subject : ThresholdSubject) : Bytes :=
  sig1ToBeSigned subject.protectedHeader subject.payload

/-! ## Requests -/

structure ThresholdCommit where
  sessionId : ℕ
  group : DeviceId
  subject : ThresholdSubject
  deadline : ℕ
deriving DecidableEq

structure ThresholdCommitment where
  participant : DeviceId
  hidingPoint : Bytes
  bindingPoint : Bytes
deriving DecidableEq

structure ThresholdSign where
  sessionId : ℕ
  commitments : List ThresholdCommitment
deriving DecidableEq

/-! ## Share envelopes -/

structure ThresholdShareClaims where
  sessionId : ℕ
  group : DeviceId
  share : Bytes
  issuer : DeviceId
  issuerKey : IdentityKey

def ThresholdShareClaims.encode (claims : ThresholdShareClaims) : Bytes :=
  object [("session-id", some (uint claims.sessionId)),
    ("group", some (bytes claims.group.bytes)),
    ("share", some (bytes claims.share)),
    ("issuer", some (bytes claims.issuer.bytes)),
    ("issuer-key", some claims.issuerKey.encode)]

/-- A share is signed with the participant's own key. -/
def mintShareEnvelope (personalIdentity : Identity) (sessionId : ℕ) (group : DeviceId)
    (share : Bytes) : CoseSign1 :=
  personalIdentity.seal (ThresholdShareClaims.encode
    { sessionId, group, share
      issuer := personalIdentity.deviceId
      issuerKey := personalIdentity.identityKey })

end WireMesh
