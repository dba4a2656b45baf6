import WireMesh.TypeScript.SecureChannel

/-!
# The channels of a session

The secure channels that a session holds with the devices it reaches through a relay
(`relay-channels.ts`), one for each device at a time. A session is the machine `step`: the
handshakes it began, the calls of `applyHello` with the await that each is suspended at, and
the channels that were set up. Any other events may happen between two awaits of a call.

A handshake, a call and a channel are named by their numbers, in the order in which they were
begun, so that these also tell what was there before a given moment.
-/

namespace WireMesh.TypeScript.RelayChannels

open SecureChannel

/-! ## States -/

/-- Where the handshake with a device stands. -/
inductive ChannelState
  | awaiting (handshake : ℕ)
  | established (channel : ℕ)
deriving DecidableEq

/-- How far the beginning of a handshake is. -/
inductive Pending (PrivateKey : Type)
  | generating
  | ready (hello : SecureHello) (privateKey : PrivateKey)
  | failed

def Pending.isGenerating {PrivateKey : Type} : Pending PrivateKey → Bool
  | generating => true
  | _ => false

/-- A handshake that was begun, and how those who wait for its channel were answered. -/
structure Handshake (PrivateKey : Type) where
  peer : DeviceId
  pending : Pending PrivateKey := .generating
  settled : Option (Except String ℕ) := none

/-- The await that a call of `applyHello` is suspended at. -/
inductive Stage (Key : Type)
  | verifying
  | beginning (peer : DeviceId) (handshake : ℕ)
  | establishing (peer : DeviceId) (handshake : ℕ) (channel : Option (Channel Key))
  | done

def Stage.isDone {Key : Type} : Stage Key → Bool
  | done => true
  | _ => false

structure HelloCall (Key : Type) where
  hello : SecureHello
  stage : Stage Key := .verifying

/-- A channel, with the handshake and the call that it is from. -/
structure Established (Key Frame : Type) where
  handshake : ℕ
  call : ℕ
  channel : Channel Key
  sealing : Sealing Frame := { nextSendCounter := 0, waiting := [], running := none }

/-- What a call of `ensure` has got. -/
inductive Ensured
  | returned (channel : ℕ)
  | waits (handshake : ℕ)
deriving DecidableEq

structure State (PrivateKey Key Frame : Type) where
  channels : DeviceId → Option ChannelState
  handshakes : List (Handshake PrivateKey)
  calls : List (HelloCall Key)
  established : List (Established Key Frame)
  ensured : List Ensured
  /-- The encryptions that were started: the channel and the counter of each. -/
  encrypted : List (ℕ × ℕ)

inductive Event (PrivateKey Frame : Type)
  | ensure (peer : DeviceId)
  | applyHello (hello : SecureHello)
  | forget (peer : DeviceId)
  | reset (reason : String)
  /-- `beginHandshake` resolves, with the key and the nonce that it generated. -/
  | begun (handshake : ℕ) (privateKey : PrivateKey) (nonce : Bytes)
  /-- `beginHandshake` rejects. -/
  | beginFailed (handshake : ℕ) (reason : String)
  /-- The hello of a handshake cannot be sent. -/
  | sendFailed (handshake : ℕ) (reason : String)
  /-- What a call of `applyHello` awaits is there. -/
  | resume (call : ℕ)
  /-- A call of `seal` on a channel. -/
  | callSeal (channel : ℕ) (frame : Frame)
  /-- The call before has settled: `sealAt` starts its encryption. -/
  | startSeal (channel : ℕ)
  /-- The encryption ends. -/
  | finishSeal (channel : ℕ)

variable {PrivateKey Key Frame : Type}

/-- The promise of a handshake settles, if it has not yet. -/
def Handshake.settle (h : Handshake PrivateKey) (result : Except String ℕ) :
    Handshake PrivateKey :=
  { h with settled := h.settled <|> some result }

namespace State

def init : State PrivateKey Key Frame where
  channels _ := none
  handshakes := []
  calls := []
  established := []
  ensured := []
  encrypted := []

def settle (s : State PrivateKey Key Frame) (handshake : ℕ) (result : Except String ℕ) :
    State PrivateKey Key Frame :=
  { s with handshakes := s.handshakes.modify handshake fun h => h.settle result }

def setChannel (s : State PrivateKey Key Frame) (peer : DeviceId) (state : Option ChannelState) :
    State PrivateKey Key Frame :=
  { s with channels := Function.update s.channels peer state }

/-- The handshake is the one that is awaited with `peer` from now on. -/
def start (s : State PrivateKey Key Frame) (peer : DeviceId) : State PrivateKey Key Frame :=
  { s.setChannel peer (some (.awaiting s.handshakes.length)) with
    handshakes := s.handshakes ++ [{ peer }] }

/-- A handshake comes to nothing. -/
def abandon (s : State PrivateKey Key Frame) (peer : DeviceId) (handshake : ℕ) (reason : String) :
    State PrivateKey Key Frame :=
  let rejected := s.settle handshake (.error reason)
  if s.channels peer = some (.awaiting handshake) then rejected.setChannel peer none else rejected

def ensure (s : State PrivateKey Key Frame) (peer : DeviceId) : State PrivateKey Key Frame :=
  match s.channels peer with
  | some (.established channel) => { s with ensured := s.ensured ++ [.returned channel] }
  | some (.awaiting handshake) => { s with ensured := s.ensured ++ [.waits handshake] }
  | none => { s.start peer with ensured := s.ensured ++ [.waits s.handshakes.length] }

def forget (s : State PrivateKey Key Frame) (peer : DeviceId) : State PrivateKey Key Frame :=
  match s.channels peer with
  | some (.awaiting handshake) =>
    (s.settle handshake (.error "the relay pairing was lost")).setChannel peer none
  | _ => s.setChannel peer none

def reset (s : State PrivateKey Key Frame) (reason : String) : State PrivateKey Key Frame :=
  { s with
    channels := fun _ => none
    handshakes := s.handshakes.mapIdx fun n h =>
      if s.channels h.peer = some (.awaiting n) then h.settle (.error reason) else h }

/-- A call of `applyHello` gets to a further await. -/
def setStage (s : State PrivateKey Key Frame) (call : ℕ) (stage : Stage Key) :
    State PrivateKey Key Frame :=
  { s with calls := s.calls.modify call fun c => { c with stage } }

/-- The channel that a call has set up is stored, and given to those who wait for it. -/
def store (s : State PrivateKey Key Frame) (peer : DeviceId) (x : Established Key Frame) :
    State PrivateKey Key Frame :=
  { (s.setChannel peer (some (.established s.established.length))).settle x.handshake
      (.ok s.established.length) with
    established := s.established ++ [x] }

end State

/-! ## Steps -/

section Steps

variable (identity : Identity) (crypto : KeyAgreement PrivateKey Key) (codec : FrameCodec Frame)

namespace State

/-- The hello of a handshake is there, and is sent. -/
def begin (s : State PrivateKey Key Frame) (handshake : ℕ) (privateKey : PrivateKey)
    (nonce : Bytes) : State PrivateKey Key Frame × List SecureHello :=
  match s.handshakes[handshake]? with
  | some ⟨peer, .generating, _⟩ =>
    let hello := beginHandshake identity peer (crypto.publicKey privateKey) nonce
    ({ s with
      handshakes := s.handshakes.modify handshake fun h =>
        { h with pending := .ready hello privateKey } }, [hello])
  | _ => (s, [])

def failBegin (s : State PrivateKey Key Frame) (handshake : ℕ) (reason : String) :
    State PrivateKey Key Frame :=
  match s.handshakes[handshake]? with
  | some ⟨peer, .generating, _⟩ =>
    { s with
      handshakes := s.handshakes.modify handshake fun h => { h with pending := .failed }
    }.abandon peer handshake reason
  | _ => s

def failSend (s : State PrivateKey Key Frame) (handshake : ℕ) (reason : String) :
    State PrivateKey Key Frame :=
  match s.handshakes[handshake]? with
  | some ⟨peer, .ready _ _, _⟩ => s.abandon peer handshake reason
  | _ => s

/-- The hello of a call is from `peer`: it completes the handshake that is awaited, or it is
    answered. -/
def answer (s : State PrivateKey Key Frame) (call : ℕ) (peer : DeviceId) :
    State PrivateKey Key Frame :=
  match s.channels peer with
  | some (.awaiting handshake) => s.setStage call (.beginning peer handshake)
  | _ => (s.start peer).setStage call (.beginning peer s.handshakes.length)

/-- The handshake of a call has been begun, unless that has failed. -/
def establish (s : State PrivateKey Key Frame) (call : ℕ) (hello : SecureHello)
    (peer : DeviceId) (handshake : ℕ) : State PrivateKey Key Frame :=
  match s.handshakes[handshake]?.map Handshake.pending with
  | some (.ready own privateKey) =>
    s.setStage call (.establishing peer handshake (establishChannel crypto identity.deviceId
      ⟨own.toSecureHelloFrame, privateKey⟩ hello.toSecureHelloFrame peer))
  | some .failed => s.setStage call .done
  | _ => s

/-- The channel of a call is there, unless the key of the peer is of no use. -/
def complete (s : State PrivateKey Key Frame) (call : ℕ) (peer : DeviceId) (handshake : ℕ)
    (channel : Option (Channel Key)) : State PrivateKey Key Frame :=
  match channel with
  | none =>
    (s.abandon peer handshake "the peer sent an unusable ephemeral key").setStage call .done
  | some channel => (s.store peer { handshake, call, channel }).setStage call .done

def resume (s : State PrivateKey Key Frame) (call : ℕ) : State PrivateKey Key Frame :=
  match s.calls[call]? with
  | none => s
  | some ⟨hello, .verifying⟩ => match verifyHello identity hello with
    | .error _ => s.setStage call .done
    | .ok peer => s.answer call peer.deviceId
  | some ⟨hello, .beginning peer handshake⟩ => s.establish identity crypto call hello peer handshake
  | some ⟨_, .establishing peer handshake channel⟩ => s.complete call peer handshake channel
  | some ⟨_, .done⟩ => s

def setSealing (s : State PrivateKey Key Frame) (channel : ℕ) (f : Sealing Frame → Sealing Frame) :
    State PrivateKey Key Frame :=
  { s with established := s.established.modify channel fun x => { x with sealing := f x.sealing } }

/-- The counter of the encryption that starts. -/
def startedCounter (q : Sealing Frame) : Option ℕ :=
  if q.running.isSome then none else (q.start codec).running.map fun y => y.2.1

def startSeal (s : State PrivateKey Key Frame) (channel : ℕ) : State PrivateKey Key Frame :=
  { s.setSealing channel (Sealing.start codec) with
    encrypted := s.encrypted ++ (s.established[channel]?.bind fun x =>
      (startedCounter codec x.sealing).map fun counter => (channel, counter)).toList }

end State

/-- The state after an event, and the hellos that are sent. -/
def step (s : State PrivateKey Key Frame) :
    Event PrivateKey Frame → State PrivateKey Key Frame × List SecureHello
  | .ensure peer => (s.ensure peer, [])
  | .applyHello hello => ({ s with calls := s.calls ++ [{ hello }] }, [])
  | .forget peer => (s.forget peer, [])
  | .reset reason => (s.reset reason, [])
  | .begun handshake privateKey nonce => s.begin identity crypto handshake privateKey nonce
  | .beginFailed handshake reason => (s.failBegin handshake reason, [])
  | .sendFailed handshake reason => (s.failSend handshake reason, [])
  | .resume call => (s.resume identity crypto call, [])
  | .callSeal channel frame => (s.setSealing channel fun q => q.call frame, [])
  | .startSeal channel => (s.startSeal codec channel, [])
  | .finishSeal channel => (s.setSealing channel fun q => { q with running := none }, [])

def next (s : State PrivateKey Key Frame) (e : Event PrivateKey Frame) :
    State PrivateKey Key Frame :=
  (step identity crypto codec s e).1

end Steps

/-! ## Sessions to evaluate -/

/-- The device with the given number, which signs with its public key. -/
def sampleIdentity (n : UInt8) : Identity where
  deviceId := .pad [n]
  identityKey := { alg := -8, publicKey := [n] }
  sign _ := [n]
  verify key _ signature := .ok (signature = key.publicKey)
  deriveDeviceId := .pad

/-- A private key is a number, and its public key the byte of it. -/
def sampleCrypto : KeyAgreement UInt8 (Bytes × Bytes × Bytes) where
  publicKey key := [key]
  deriveBits key publicKey := publicKey.head?.map fun byte => [key + byte]
  hkdf secret salt info := (secret, salt, info)
  deriveBits_comm k k' := by simp [UInt8.add_comm]

/-- The frames are bytes. -/
def sampleCodec : FrameCodec Bytes := .bytes

/-- A hello of a device to another one, with the given key and nonce. -/
def sampleHello (sender recipient key nonce : UInt8) : SecureHello :=
  beginHandshake (sampleIdentity sender) (sampleIdentity recipient).deviceId
    (sampleCrypto.publicKey key) (List.replicate nonceByteLength nonce)

/-- The first device begins a handshake with the second one, and is given a hello of it, from
    which the channel is being derived. -/
def sampleDerivation : List (Event UInt8 Bytes) :=
  [.ensure (sampleIdentity 2).deviceId, .begun 0 5 (List.replicate nonceByteLength 1),
    .applyHello (sampleHello 2 1 7 2), .resume 0, .resume 0]

/-- The channel is stored. -/
def sampleSetUp : List (Event UInt8 Bytes) := sampleDerivation ++ [.resume 0]

end WireMesh.TypeScript.RelayChannels
