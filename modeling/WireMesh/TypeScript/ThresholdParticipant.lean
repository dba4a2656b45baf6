import WireMesh.OrderedMap
import WireMesh.Threshold

/-!
# Participants of a threshold group

The loop that answers the requests of a signing session (`threshold-participant.ts`), with the
nonces in memory (`memory-nonce-store.ts`). A loop handles one request after another, but any
number of loops may share a nonce store, and take turns wherever one of them awaits something.
What a loop awaits is its `Stage`.

An exception in a handler is not caught: the loop ends (`Stage.ended`).
-/

namespace WireMesh.TypeScript.Threshold

/-! ## The library -/

/-- The functions of the FROST library, any of which may throw. -/
structure Frost where
  /-- The nonces and the commitments for a key package. What is drawn at random depends on the
      number of the call. -/
  signingRound1Commit : Bytes → ℕ → Except String (Bytes × Bytes)
  /-- The hiding and the binding point. -/
  splitCommitments : Bytes → Except String (Bytes × Bytes)
  combineCommitments : Bytes → Bytes → Except String Bytes
  signingBuildPackage : List (DeviceId × Bytes) → Bytes → Except String Bytes
  /-- The share, from the nonces, the signing package and the key package. -/
  signingRound2Sign : Bytes → Bytes → Bytes → Except String Bytes

/-- A nonce pair, with the number of the call that generated it. -/
structure Nonces where
  generation : ℕ
  bytes : Bytes
deriving DecidableEq

/-! ## The nonce store -/

abbrev NonceStore := OrderedMap ℕ Nonces

namespace NonceStore

def persist (store : NonceStore) (sessionId : ℕ) (value : Nonces) : Except String NonceStore :=
  match store.get sessionId with
  | some _ =>
    .error ("session-id " ++ toString sessionId ++ " already has a persisted nonce pair")
  | none => .ok (store.set sessionId value)

def take (store : NonceStore) (sessionId : ℕ) : NonceStore × Except String Nonces :=
  match store.get sessionId with
  | none => (store,
      .error ("no persisted, unused nonce pair for session-id " ++ toString sessionId))
  | some value => (store.delete sessionId, .ok value)

def discard (store : NonceStore) (sessionId : ℕ) : NonceStore := store.delete sessionId

end NonceStore

/-! ## Requests and responses -/

inductive Params
  | commit (params : ThresholdCommit)
  | sign (params : ThresholdSign)
  | abort (sessionId : ℕ)
  /-- One of the three by its verb, with fields of other types on which its handler throws. -/
  | illTyped
  | other
deriving DecidableEq

structure Request where
  verb : String
  token : Option CapabilityToken
  params : Params
deriving DecidableEq

inductive Response
  | error (code : String) (message : Option String)
  | committed (participant : DeviceId) (hidingPoint bindingPoint : Bytes)
  | signed (share : Bytes)
  | ok
deriving DecidableEq

structure Options where
  personalIdentity : Identity
  /-- By the hexadecimal text of the group. -/
  keyPackagesByGroup : String → Option Bytes
  authorise : ThresholdSubject → Option SubjectDecision
  stringify : String → String
  frost : Frost

/-- The token is valid for signing, by the claims that its verification gives. The verification
    may throw. -/
def authorizeIncomingRequest (request : Request) (verified : Except String (Option TokenClaims)) :
    Except String Bool :=
  match request.token with
  | none => .ok false
  | some _ => verified.map fun claims => claims.any fun claims =>
      claims.capability = thresholdSignVerb && claims.scope.kind = "group"

/-! ## The loop -/

structure SigningSessionState where
  message : Bytes
  keyPackage : Bytes
  group : DeviceId
deriving DecidableEq

/-- What a loop awaits. -/
inductive Stage
  /-- The next request. -/
  | waiting
  /-- The verification of the token. -/
  | authorising (request : Request)
  /-- `persist` has been called, and may have failed. -/
  | persisting (sessionId : ℕ) (state : SigningSessionState) (commitments : Bytes)
      (result : Except String Unit)
  /-- `discard` has been called, before the response is sent. -/
  | discarding (response : Response)
  /-- `take` has been called, and may have failed. -/
  | taking (params : ThresholdSign) (state : SigningSessionState) (result : Except String Nonces)
  /-- The signature of the envelope. -/
  | minting (sessionId : ℕ) (state : SigningSessionState) (share : Bytes)
  | responding
  | ended

/-- A response to the request with a number, at a time. -/
structure Reply where
  request : ℕ
  time : ℕ
  response : Response
deriving DecidableEq

/-- A call of `signingRound2Sign`. -/
structure Signing where
  sessionId : ℕ
  nonces : Nonces
  message : Bytes
deriving DecidableEq

/-- A share that has been sent, and when. -/
structure Release where
  sessionId : ℕ
  time : ℕ
  envelope : CoseSign1

structure Loop where
  stage : Stage
  sessions : OrderedMap ℕ SigningSessionState
  /-- The requests that have been taken from the stream, the responses to them, the signing
      operations, and the shares in the responses. -/
  received : List Request
  replies : List Reply
  signings : List Signing
  releases : List Release

/-- What the loops share, and the number of nonce pairs that have been generated. -/
structure World where
  store : NonceStore
  generated : ℕ
  now : ℕ

namespace Loop

def init : Loop where
  stage := .waiting
  sessions := .empty
  received := []
  replies := []
  signings := []
  releases := []

/-- The response to the request that is being handled. -/
def respond (l : Loop) (now : ℕ) (response : Response) : Loop :=
  { l with
    stage := .responding
    replies := l.replies ++ [{ request := l.received.length - 1, time := now, response }] }

variable (o : Options)

def decide (subject : ThresholdSubject) : SubjectDecision :=
  (refuseUnrecognisedKind o.stringify subject).getD ((o.authorise subject).getD .authorise)

/-- `handleCommit` up to the call of `persist`. -/
def handleCommit (w : World) (l : Loop) (params : ThresholdCommit) : World × Loop :=
  if params.deadline ≤ w.now then (w, l.respond w.now (.error "deadline-passed" none))
  else match o.keyPackagesByGroup (deviceIdToHex params.group) with
    | none => (w, l.respond w.now (.error "unknown-group" none))
    | some keyPackage => match decide o params.subject with
      | .refuse reason => (w, l.respond w.now (.error "refused" (some reason)))
      | .authorise => match o.frost.signingRound1Commit keyPackage w.generated with
        | .error _ => (w, { l with stage := .ended })
        | .ok (nonces, commitments) =>
          let state : SigningSessionState :=
            { message := toBeSigned params.subject, keyPackage, group := params.group }
          let value : Nonces := { generation := w.generated, bytes := nonces }
          match w.store.persist params.sessionId value with
          | .error message =>
            ({ w with generated := w.generated + 1 },
              { l with stage := .persisting params.sessionId state commitments (.error message) })
          | .ok store =>
            ({ w with generated := w.generated + 1, store },
              { l with stage := .persisting params.sessionId state commitments (.ok ()) })

/-- `handleSign` up to the call of `take` or `discard`. -/
def handleSign (w : World) (l : Loop) (params : ThresholdSign) : World × Loop :=
  match l.sessions.get params.sessionId with
  | none =>
    ({ w with store := w.store.discard params.sessionId },
      { l with
        stage := .discarding (.error "no-such-session"
          (some "threshold.sign for a session-id with no prior threshold.commit")) })
  | some state =>
    let taken := w.store.take params.sessionId
    ({ w with store := taken.1 }, { l with stage := .taking params state taken.2 })

def handleAbort (w : World) (l : Loop) (sessionId : ℕ) : World × Loop :=
  ({ w with store := w.store.discard sessionId },
    { l with stage := .discarding .ok, sessions := l.sessions.delete sessionId })

/-- The signing package for a session, with the commitments of all participants. -/
def signingPackage (params : ThresholdSign) (message : Bytes) : Except String Bytes := do
  let commitmentEntries ← params.commitments.mapM fun c => do
    return (c.participant, ← o.frost.combineCommitments c.hidingPoint c.bindingPoint)
  o.frost.signingBuildPackage commitmentEntries message

/-- `handleSign` after the nonces have been taken. -/
def sign (l : Loop) (params : ThresholdSign) (state : SigningSessionState) (nonces : Nonces) :
    Loop :=
  match signingPackage o params state.message with
  | .error _ => { l with stage := .ended }
  | .ok package =>
    let signed : Loop :=
      { l with
        signings := l.signings ++
          [{ sessionId := params.sessionId, nonces, message := state.message }] }
    match o.frost.signingRound2Sign nonces.bytes package state.keyPackage with
    | .error _ => { signed with stage := .ended }
    | .ok share => { signed with stage := .minting params.sessionId state share }

/-- What the loop awaits is there. -/
def resume (w : World) (l : Loop) : Loop :=
  match l.stage with
  | .persisting _ _ _ (.error _) => { l with stage := .ended }
  | .persisting sessionId state commitments (.ok ()) =>
    let stored : Loop := { l with sessions := l.sessions.set sessionId state }
    match o.frost.splitCommitments commitments with
    | .error _ => { stored with stage := .ended }
    | .ok (hidingPoint, bindingPoint) => stored.respond w.now
        (.committed o.personalIdentity.deviceId hidingPoint bindingPoint)
  | .discarding response => l.respond w.now response
  | .taking params _ (.error _) =>
    Loop.respond { l with sessions := l.sessions.delete params.sessionId } w.now
      (.error "nonce-unavailable" (some ("no persisted, unused nonce pair for this session -- " ++
        "already released, expired, or never persisted")))
  | .taking params state (.ok nonces) => sign o l params state nonces
  | .minting sessionId state share =>
    let envelope := mintShareEnvelope o.personalIdentity sessionId state.group share
    Loop.respond
      { l with
        sessions := l.sessions.delete sessionId
        releases := l.releases ++ [{ sessionId, time := w.now, envelope }] } w.now
      (.signed envelope.encode)
  | .responding => { l with stage := .waiting }
  | _ => l

end Loop

/-- What happens to a loop. -/
inductive LoopEvent
  /-- The stream yields a request. -/
  | request (request : Request)
  /-- The token has been verified, or its verification has thrown. -/
  | verdict (verified : Except String (Option TokenClaims))
  | resume

def step (o : Options) (w : World) (l : Loop) : LoopEvent → World × Loop
  | .request request => match l.stage with
    | .waiting =>
      let taken : Loop := { l with received := l.received ++ [request] }
      if request.verb ≠ thresholdSignVerb then (w, taken)
      else (w, { taken with stage := .authorising request })
    | _ => (w, l)
  | .verdict verified => match l.stage with
    | .authorising request => match authorizeIncomingRequest request verified with
      | .error _ => (w, { l with stage := .ended })
      | .ok false => (w, l.respond w.now (.error "unauthorized" none))
      | .ok true => match request.params with
        | .commit params => l.handleCommit o w params
        | .sign params => l.handleSign w params
        | .abort sessionId => l.handleAbort w sessionId
        | .illTyped => (w, { l with stage := .ended })
        | .other => (w, { l with stage := .waiting })
    | _ => (w, l)
  | .resume => (w, l.resume o w)

/-! ## Loops that share a nonce store -/

structure State (ι : Type) where
  world : World
  loops : ι → Loop

inductive Event (ι : Type)
  | loop (i : ι) (event : LoopEvent)
  | clock (now : ℕ)

variable {ι : Type}

def next [DecidableEq ι] (options : ι → Options) (x : State ι) : Event ι → State ι
  | .loop i event =>
    let stepped := step (options i) x.world (x.loops i) event
    { world := stepped.1, loops := Function.update x.loops i stepped.2 }
  | .clock now => { x with world := { x.world with now } }

def init (now : ℕ) : State ι where
  world := { store := .empty, generated := 0, now }
  loops _ := .init

end WireMesh.TypeScript.Threshold
