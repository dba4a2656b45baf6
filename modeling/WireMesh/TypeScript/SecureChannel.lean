import WireMesh.Cbor.Read
import WireMesh.Machine
import WireMesh.Token

/-!
# The secure channel

The channel of `secure-channel.ts`: the keys that the two ends derive from a handshake, and
their sealing and opening of frames. The calls of an end are chained, so that at most one
encryption and one decryption of it are under way; any other events may happen in between.

AES-GCM is ideal: what an end decrypts is looked up among the encryptions so far, under
the key, the vector and the associated data it names. The ciphertexts are arbitrary, and so
are the frames that are given to an end to open.
-/

namespace WireMesh.TypeScript.SecureChannel

open Cbor

/-! ## Bytes -/

def channelContext : Bytes := utf8 "wire-mesh/secure-channel/v1\x00"

def dataContext : Bytes := utf8 "wire-mesh/secure-data/v1\x00"

def labelLowToHigh : Bytes := utf8 "lo-to-hi"

def labelHighToLow : Bytes := utf8 "hi-to-lo"

/-- The first difference of the bytes, or the difference of the lengths. -/
def compareBytes : Bytes → Bytes → ℤ
  | x :: a, y :: b => if x = y then compareBytes a b else x.toNat - y.toNat
  | a, b => a.length - b.length

/-- Of two that differ, one is the lower. -/
theorem compareBytes_neg_iff {a b : Bytes} (h : a ≠ b) :
    compareBytes b a < 0 ↔ ¬compareBytes a b < 0 := by
  fun_induction compareBytes a b with
  | case1 x a b ih => grind [compareBytes]
  | case2 x a y b hne =>
    have hbyte : x.toNat ≠ y.toNat := fun h => hne (UInt8.toNat_inj.1 h)
    grind [compareBytes]
  | case3 a b hshort => cases a <;> cases b <;> grind [compareBytes]

def counterBytes (counter : ℕ) : Bytes := bigEndian 8 counter

def ivFor (counter : ℕ) : Bytes := List.replicate 4 0 ++ counterBytes counter

def associatedData (sender recipient : DeviceId) (counter : ℕ) : Bytes :=
  dataContext ++ sender.bytes ++ recipient.bytes ++ counterBytes counter

/-- The associated data name both devices and the counter. -/
theorem associatedData_injective {sender sender' recipient recipient' : DeviceId}
    {counter counter' : ℕ} (hcounter : counter < 2 ^ 64) (hcounter' : counter' < 2 ^ 64)
    (h : associatedData sender recipient counter = associatedData sender' recipient' counter') :
    sender = sender' ∧ recipient = recipient' ∧ counter = counter' := by
  grind [associatedData, List.append_inj, DeviceId.size, DeviceId.bytes_injective, counterBytes,
    ofBigEndian_bigEndian]

/-! ## Keys -/

/-- Elliptic-curve Diffie-Hellman and the derivation of keys, of Web Crypto. -/
structure KeyAgreement (PrivateKey Key : Type) where
  publicKey : PrivateKey → Bytes
  /-- The shared bits, unless the public key is not a point. -/
  deriveBits : PrivateKey → Bytes → Option Bytes
  hkdf : (secret salt info : Bytes) → Key
  deriveBits_comm : ∀ k k', deriveBits k (publicKey k') = deriveBits k' (publicKey k)

/-- What the keys are derived from in a hello. -/
structure SecureHelloFrame where
  ephemeralKey : Bytes
  nonce : Bytes

structure PendingHandshake (PrivateKey : Type) where
  hello : SecureHelloFrame
  privateKey : PrivateKey

/-- An end of a channel, with the keys of the two directions. -/
structure Channel (Key : Type) where
  deviceId : DeviceId
  peer : DeviceId
  sendKey : Key
  receiveKey : Key

section Keys

variable {PrivateKey Key : Type} (crypto : KeyAgreement PrivateKey Key)

def deriveDirectionKey (secret salt : Bytes) (low high : DeviceId) (label : Bytes) : Key :=
  crypto.hkdf secret salt (channelContext ++ low.bytes ++ high.bytes ++ label)

def establishChannel (deviceId : DeviceId) (pending : PendingHandshake PrivateKey)
    (remote : SecureHelloFrame) (peer : DeviceId) : Option (Channel Key) := do
  let secret ← crypto.deriveBits pending.privateKey remote.ephemeralKey
  let localIsLow := compareBytes deviceId.bytes peer.bytes < 0
  let low := if localIsLow then deviceId else peer
  let high := if localIsLow then peer else deviceId
  let lowNonce := if localIsLow then pending.hello.nonce else remote.nonce
  let highNonce := if localIsLow then remote.nonce else pending.hello.nonce
  let salt := lowNonce ++ highNonce
  let lowToHigh := deriveDirectionKey crypto secret salt low high labelLowToHigh
  let highToLow := deriveDirectionKey crypto secret salt low high labelHighToLow
  return {
    deviceId, peer
    sendKey := if localIsLow then lowToHigh else highToLow
    receiveKey := if localIsLow then highToLow else lowToHigh }

variable {crypto} in
/-- The ends of a channel between two devices have the keys of each other. -/
theorem sendKey_eq_receiveKey {a b : DeviceId} (hne : a ≠ b) {own remote : SecureHelloFrame}
    {k k' : PrivateKey} (hown : own.ephemeralKey = crypto.publicKey k)
    (hremote : remote.ephemeralKey = crypto.publicKey k') {c c' : Channel Key}
    (h : establishChannel crypto a ⟨own, k⟩ remote b = some c)
    (h' : establishChannel crypto b ⟨remote, k'⟩ own a = some c') : c.sendKey = c'.receiveKey := by
  have hlow := compareBytes_neg_iff (DeviceId.bytes_injective.ne hne)
  rw [establishChannel, hremote, crypto.deriveBits_comm] at h
  rw [establishChannel, hown] at h'
  obtain ⟨secret, hsecret, h⟩ := Option.bind_eq_some_iff.1 h
  obtain ⟨secret', hsecret', h'⟩ := Option.bind_eq_some_iff.1 h'
  obtain rfl := Option.some.inj (hsecret.symm.trans hsecret')
  obtain rfl := Option.some.inj h
  obtain rfl := Option.some.inj h'
  by_cases hlt : compareBytes a.bytes b.bytes < 0
  · simp [hlow, hlt]
  · simp [hlow, hlt]

end Keys

/-! ## Hellos -/

def helloContext : Bytes := utf8 "wire-mesh/secure-hello/v1\x00"

def nonceByteLength : ℕ := 16

/-- A hello as it is sent: the device that it is for, and what it is checked with. -/
structure SecureHello extends SecureHelloFrame where
  identityKey : IdentityKey
  toDevice : DeviceId
  signature : Bytes

/-- The device on the other end of a channel, as its own hello proved it to be. -/
structure SecureChannelPeer where
  deviceId : DeviceId
  identityKey : IdentityKey

inductive HelloRefusal
  | identityMismatch
  | wrongRecipient
  | badSignature
deriving DecidableEq

def helloSigningInput (ephemeralKey nonce : Bytes) (sender recipient : DeviceId) : Bytes :=
  helloContext ++ ephemeralKey ++ nonce ++ sender.bytes ++ recipient.bytes

/-- The hello for `peer`, with the ephemeral key and the nonce that were generated. -/
def beginHandshake (identity : Identity) (peer : DeviceId) (ephemeralKey nonce : Bytes) :
    SecureHello where
  ephemeralKey := ephemeralKey
  nonce := nonce
  identityKey := identity.identityKey
  toDevice := peer
  signature := identity.sign (helloSigningInput ephemeralKey nonce identity.deviceId peer)

def verifyHello (identity : Identity) (hello : SecureHello) :
    Except HelloRefusal SecureChannelPeer :=
  let key := hello.identityKey
  let sender := identity.deriveDeviceId key.publicKey
  if hello.toDevice ≠ identity.deviceId then .error .wrongRecipient
  else match identity.verify key
      (helloSigningInput hello.ephemeralKey hello.nonce sender identity.deviceId)
      hello.signature with
    | .ok true => .ok { deviceId := sender, identityKey := key }
    | .ok false => .error .badSignature
    | .error _ => .error .identityMismatch

/-- The two ends. -/
inductive Side
  | left
  | right
deriving DecidableEq

def Side.other : Side → Side
  | .left => .right
  | .right => .left

/-- The ends are at two devices, each has the other as its peer, and what one seals with the
    other opens with. -/
@[grind cases]
structure Matching {Key : Type} (ends : Side → Channel Key) : Prop where
  distinct : (ends .left).deviceId ≠ (ends .right).deviceId
  peer : ∀ side : Side, (ends side).peer = (ends side.other).deviceId
  key : ∀ side : Side, (ends side).receiveKey = (ends side.other).sendKey

/-! ## Frames -/

/-- The encoding of frames, which may fail, and their decoding. -/
structure FrameCodec (Frame : Type) where
  messageFromFrame : Frame → Option Bytes
  tryDecodeFrame : Bytes → Option Frame
  decode_encode : ∀ {frame message}, messageFromFrame frame = some message →
    tryDecodeFrame message = some frame

/-- Frames that are their own messages. -/
def FrameCodec.bytes : FrameCodec Bytes where
  messageFromFrame := some
  tryDecodeFrame := some
  decode_encode h := h.symm

/-- A frame that the schema accepts: its counter is a safe integer. -/
structure SecureDataFrame where
  counter : ℕ
  ciphertext : Bytes
  counter_lt : counter < 2 ^ 53

/-- The next number: from 2⁵³ on, adding one to a number does not change it. -/
def increment (n : ℕ) : ℕ := min (n + 1) (2 ^ 53)

/-- An encryption that was made. -/
structure Encryption (Key : Type) where
  key : Key
  iv : Bytes
  additionalData : Bytes
  plaintext : Bytes
  ciphertext : Bytes

/-- A ciphertext opens under the key, the vector and the data it was encrypted with. -/
def decrypt {Key : Type} [DecidableEq Key] (log : List (Encryption Key)) (key : Key)
    (iv additionalData ciphertext : Bytes) : Option Bytes :=
  (log.find? fun e => e.key = key ∧ e.iv = iv ∧ e.additionalData = additionalData ∧
    e.ciphertext = ciphertext).map Encryption.plaintext

/-- What an end has sealed: the frame, and the counter and the ciphertext it became. -/
structure Sealed (Frame : Type) where
  frame : Frame
  counter : ℕ
  ciphertext : Bytes

/-! ## Calls -/

/-- The sealing of an end: the calls that wait for the one before them, and the encryption
    that is under way. -/
structure Sealing (Frame : Type) where
  nextSendCounter : ℕ
  waiting : List (Frame × ℕ)
  running : Option (Frame × ℕ × Bytes)

/-- The opening of an end: the frames that wait for the one before them, and the decryption
    that is under way, with what it will give. -/
structure Opening where
  highestReceived : ℤ
  waiting : List SecureDataFrame
  running : Option (SecureDataFrame × Option Bytes)

/-- Both ends, with what they have encrypted, sealed, been given to open and opened. -/
structure State (Key Frame : Type) where
  sealing : Side → Sealing Frame
  opening : Side → Opening
  log : List (Encryption Key)
  sealed : Side → List (Sealed Frame)
  delivered : Side → List SecureDataFrame
  opened : Side → List Frame

def State.init (Key Frame : Type) : State Key Frame where
  sealing _ := { nextSendCounter := 0, waiting := [], running := none }
  opening _ := { highestReceived := -1, waiting := [], running := none }
  log := []
  sealed _ := []
  delivered _ := []
  opened _ := []

inductive Event (Frame : Type)
  /-- A call of `seal`. -/
  | callSeal (side : Side) (frame : Frame)
  /-- The call before has settled: `sealAt` starts its encryption. -/
  | startSeal (side : Side)
  /-- The encryption ends, with any ciphertext. -/
  | finishSeal (side : Side) (ciphertext : Bytes)
  /-- A call of `open` on any frame. -/
  | callOpen (side : Side) (data : SecureDataFrame)
  /-- The call before has settled: `openOne` checks the counter and starts its decryption. -/
  | startOpen (side : Side)
  /-- The decryption ends. -/
  | finishOpen (side : Side)

section Step

variable {Key Frame : Type} [DecidableEq Key] (codec : FrameCodec Frame)
  (ends : Side → Channel Key)

def Sealing.call (q : Sealing Frame) (frame : Frame) : Sealing Frame :=
  { q with
    nextSendCounter := increment q.nextSendCounter
    waiting := q.waiting ++ [(frame, q.nextSendCounter)] }

/-- A frame that cannot be encoded is not sealed. -/
def Sealing.start (q : Sealing Frame) : Sealing Frame :=
  match q.running, q.waiting with
  | none, (frame, counter) :: waiting =>
    { q with
      waiting
      running := (codec.messageFromFrame frame).map fun message => (frame, counter, message) }
  | _, _ => q

def Opening.call (q : Opening) (data : SecureDataFrame) : Opening :=
  { q with waiting := q.waiting ++ [data] }

/-- A counter that has been passed is refused without decrypting. -/
def Opening.start (q : Opening) (decryption : SecureDataFrame → Option Bytes) : Opening :=
  match q.running, q.waiting with
  | none, data :: waiting =>
    if data.counter ≤ q.highestReceived then { q with waiting }
    else { q with waiting, running := some (data, decryption data) }
  | _, _ => q

/-- The counter advances if the frame has authenticated. -/
def Opening.finish (q : Opening) : Opening :=
  match q.running with
  | some (_, none) => { q with running := none }
  | some (data, some _) =>
    { q with running := none, highestReceived := max q.highestReceived data.counter }
  | none => q

/-- The frame that an end opens. -/
def Opening.result (q : Opening) : Option Frame :=
  match q.running with
  | some (_, some plaintext) => codec.tryDecodeFrame plaintext
  | _ => none

/-- The encryption that an end makes. -/
def encryption (side : Side) (counter : ℕ) (plaintext ciphertext : Bytes) : Encryption Key where
  key := (ends side).sendKey
  iv := ivFor counter
  additionalData := associatedData (ends side).deviceId (ends side).peer counter
  plaintext := plaintext
  ciphertext := ciphertext

/-- The decryption that an end makes. -/
def decryption (log : List (Encryption Key)) (side : Side) (data : SecureDataFrame) :
    Option Bytes :=
  decrypt log (ends side).receiveKey (ivFor data.counter)
    (associatedData (ends side).peer (ends side).deviceId data.counter) data.ciphertext

/-- The end of an encryption. -/
def State.addSealed (s : State Key Frame) (side : Side) (x : Sealed Frame) (message : Bytes) :
    State Key Frame :=
  { s with
    sealing := Function.update s.sealing side { s.sealing side with running := none }
    log := s.log ++ [encryption ends side x.counter message x.ciphertext]
    sealed := Function.update s.sealed side (s.sealed side ++ [x]) }

def step (s : State Key Frame) : Event Frame → State Key Frame
  | .callSeal side frame =>
    { s with sealing := Function.update s.sealing side ((s.sealing side).call frame) }
  | .startSeal side =>
    { s with sealing := Function.update s.sealing side ((s.sealing side).start codec) }
  | .finishSeal side ciphertext =>
    match (s.sealing side).running with
    | some (frame, counter, message) =>
      s.addSealed ends side { frame, counter, ciphertext } message
    | none => s
  | .callOpen side data =>
    { s with
      opening := Function.update s.opening side ((s.opening side).call data)
      delivered := Function.update s.delivered side (s.delivered side ++ [data]) }
  | .startOpen side =>
    { s with
      opening := Function.update s.opening side
        ((s.opening side).start (decryption ends s.log side)) }
  | .finishOpen side =>
    { s with
      opening := Function.update s.opening side (s.opening side).finish
      opened := Function.update s.opened side
        (s.opened side ++ ((s.opening side).result codec).toList) }

end Step

end WireMesh.TypeScript.SecureChannel
