import Mathlib.Data.List.AList
import WireMesh.OrderedMap
import WireMesh.Threshold

/-!
# Participants of a threshold group (Rust)

The handlers of a participant (`network.rs`, `signing.rs`), with the nonces in memory
(`nonce_store.rs`). They are called by a runtime, which keeps what a commitment returns until the
signature: any number of calls share the nonce store, in any order, and a signature is passed the
state of any earlier commitment.

The values of the FROST library are represented by their encodings. Each handler has one access
to the nonce store, which is guarded by a lock; a signature awaits the personal identity after it.
-/

namespace WireMesh.Rust.Threshold

/-! ## The library -/

structure Frost where
  /-- The nonces and the commitments for a key package. What is drawn at random depends on the
      number of the call. -/
  commit : Bytes → ℕ → Bytes × Bytes
  splitCommitments : Bytes → Except String (Bytes × Bytes)
  combineCommitments : Bytes → Bytes → Except String Bytes
  identifierForDevice : DeviceId → Except String Bytes
  /-- The package, from the commitments by identifier and the message. -/
  signingPackage : (AList fun _ : Bytes => Bytes) → Bytes → Bytes
  /-- The share, from the package, the nonces and the key package. -/
  sign : Bytes → Bytes → Bytes → Except String Bytes

/-- A nonce pair, with the number of the call that generated it. -/
structure Nonces where
  generation : ℕ
  bytes : Bytes
deriving DecidableEq

/-! ## The nonce store -/

inductive NonceStoreError
  | alreadyPersisted (sessionId : ℕ)
  | notFound (sessionId : ℕ)
deriving DecidableEq

def NonceStoreError.display : NonceStoreError → String
  | alreadyPersisted id => "session-id " ++ toString id ++ " already has a persisted nonce pair"
  | notFound id => "no persisted, unused nonce pair for session-id " ++ toString id

abbrev NonceStore := OrderedMap ℕ Nonces

namespace NonceStore

def persist (store : NonceStore) (sessionId : ℕ) (nonces : Nonces) :
    NonceStore × Except NonceStoreError Unit :=
  match store.get sessionId with
  | some _ => (store, .error (.alreadyPersisted sessionId))
  | none => (store.set sessionId nonces, .ok ())

def take (store : NonceStore) (sessionId : ℕ) : NonceStore × Except NonceStoreError Nonces :=
  match store.get sessionId with
  | none => (store, .error (.notFound sessionId))
  | some nonces => (store.delete sessionId, .ok nonces)

def discard (store : NonceStore) (sessionId : ℕ) : NonceStore := store.delete sessionId

end NonceStore

/-! ## Handlers -/

inductive ParticipantError
  | deadlinePassed
  | unknownGroup
  | refused (reason : String)
  | noSuchSession
  | nonceUnavailable
  | crypto (error : String)
deriving DecidableEq

structure CommitResponse where
  participant : DeviceId
  hidingPoint : Bytes
  bindingPoint : Bytes
deriving DecidableEq

structure SigningSessionState where
  message : Bytes
deriving DecidableEq

/-- What a call of `handleThresholdCommit` is given besides the request. -/
structure CommitContext where
  ownDeviceId : DeviceId
  keyPackageOfGroup : DeviceId → Option Bytes
  authorise : ThresholdSubject → Option SubjectDecision

/-- What a call of `handleThresholdSign` is given besides the request and the state. -/
structure SignContext where
  keyPackage : Bytes
  personalIdentity : Identity
  group : DeviceId

/-- What the calls share, and the number of nonce pairs that have been generated. -/
structure World where
  store : NonceStore
  generated : ℕ
  now : ℕ

variable (frost : Frost) (quote : String → String)

def round1Commit (w : World) (sessionId : ℕ) (keyPackage : Bytes) :
    World × Except NonceStoreError Bytes :=
  let drawn := frost.commit keyPackage w.generated
  let persisted := w.store.persist sessionId { generation := w.generated, bytes := drawn.1 }
  ({ w with store := persisted.1, generated := w.generated + 1 },
    persisted.2.map fun _ => drawn.2)

def decide (c : CommitContext) (subject : ThresholdSubject) : SubjectDecision :=
  (refuseUnrecognisedKind quote subject).getD ((c.authorise subject).getD .authorise)

def handleThresholdCommit (w : World) (c : CommitContext) (params : ThresholdCommit) :
    World × Except ParticipantError (CommitResponse × SigningSessionState) :=
  if params.deadline ≤ w.now then (w, .error .deadlinePassed)
  else match c.keyPackageOfGroup params.group with
    | none => (w, .error .unknownGroup)
    | some keyPackage => match decide quote c params.subject with
      | .refuse reason => (w, .error (.refused reason))
      | .authorise =>
        let committed := round1Commit frost w params.sessionId keyPackage
        match committed.2 with
        | .error e => (committed.1, .error (.crypto ("nonce store error: " ++ e.display)))
        | .ok commitments => match frost.splitCommitments commitments with
          | .error e => (committed.1, .error (.crypto ("FROST signing error: " ++ e)))
          | .ok (hidingPoint, bindingPoint) => (committed.1, .ok
              ({ participant := c.ownDeviceId, hidingPoint, bindingPoint },
                { message := toBeSigned params.subject }))

/-- The commitments by identifier. A later one for the same identifier replaces an earlier one. -/
def commitmentsMap (commitments : List ThresholdCommitment) :
    Except ParticipantError (AList fun _ : Bytes => Bytes) :=
  commitments.foldlM
    (fun map entry => do
      let identifier ← (frost.identifierForDevice entry.participant).mapError .crypto
      let combined ← (frost.combineCommitments entry.hidingPoint entry.bindingPoint).mapError
        fun e => .crypto ("FROST signing error: " ++ e)
      return map.insert identifier combined) ∅

/-- A call of `round2::sign`. -/
structure Signing where
  sessionId : ℕ
  nonces : Nonces
  message : Bytes
deriving DecidableEq

/-- `handleThresholdSign` up to the signature of the envelope: the share, and the call of the
    library, if there is one. -/
def handleThresholdSign (w : World) (params : ThresholdSign) (state : SigningSessionState)
    (keyPackage : Bytes) : World × Option Signing × Except ParticipantError Bytes :=
  match commitmentsMap frost params.commitments with
  | .error e => (w, none, .error e)
  | .ok map =>
    let package := frost.signingPackage map state.message
    let taken := w.store.take params.sessionId
    let w := { w with store := taken.1 }
    match taken.2 with
    | .error _ => (w, none, .error .nonceUnavailable)
    | .ok nonces =>
      let signing := { sessionId := params.sessionId, nonces, message := state.message }
      match frost.sign package nonces.bytes keyPackage with
      | .error _ => (w, some signing, .error .nonceUnavailable)
      | .ok share => (w, some signing, .ok share)

def handleThresholdAbort (w : World) (sessionId : ℕ) : World :=
  { w with store := w.store.discard sessionId }

/-! ## Calls -/

/-- A call of `handleThresholdSign` that awaits the signature of its envelope. -/
structure Minting where
  sessionId : ℕ
  context : SignContext
  share : Bytes

/-- An envelope that has been returned, and when. -/
structure Release where
  sessionId : ℕ
  time : ℕ
  envelope : CoseSign1

structure State where
  world : World
  /-- What commitments have returned. -/
  states : List SigningSessionState
  signings : List Signing
  minting : List Minting
  releases : List Release

inductive Event
  | commit (context : CommitContext) (params : ThresholdCommit)
  /-- A signature, with the state of an earlier commitment. -/
  | sign (context : SignContext) (params : ThresholdSign) (state : ℕ)
  | abort (sessionId : ℕ)
  /-- The envelope of a call is signed. -/
  | mint (call : ℕ)
  | clock (now : ℕ)

def next (x : State) : Event → State
  | .commit context params =>
    let result := handleThresholdCommit frost quote x.world context params
    match result.2 with
    | .error _ => { x with world := result.1 }
    | .ok (_, state) => { x with world := result.1, states := x.states ++ [state] }
  | .sign context params i => match x.states[i]? with
    | none => x
    | some state =>
      let result := handleThresholdSign frost x.world params state context.keyPackage
      let signed :=
        { x with world := result.1, signings := x.signings ++ result.2.1.toList }
      match result.2.2 with
      | .error _ => signed
      | .ok share =>
        { signed with
          minting := x.minting ++ [{ sessionId := params.sessionId, context, share }] }
  | .abort sessionId => { x with world := handleThresholdAbort x.world sessionId }
  | .mint call => match x.minting[call]? with
    | none => x
    | some { sessionId, context, share } =>
      { x with
        minting := x.minting.eraseIdx call
        releases := x.releases ++
          [{ sessionId
             time := x.world.now
             envelope := mintShareEnvelope context.personalIdentity sessionId context.group
               share }] }
  | .clock now => { x with world := { x.world with now } }

def init (now : ℕ) : State where
  world := { store := .empty, generated := 0, now }
  states := []
  signings := []
  minting := []
  releases := []

end WireMesh.Rust.Threshold
