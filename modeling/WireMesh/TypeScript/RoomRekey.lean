import WireMesh.Cbor.Read
import WireMesh.TypeScript.Numbers
import WireMesh.TypeScript.Room

/-!
# Keys of rooms

A room's content keys are wrapped for each of its members, by a key that is derived from the secret
that the member shares with the owner of the room, for one room and one epoch (`group-key.ts`). The
member unwraps what it is sent, and stores it (`room-rekey.ts`). A request has one wrapped key, for
its epoch, or several, for consecutive epochs that end with it.

* `hkdfInfo_injective`: what a key is derived for tells the room, and the epoch up to a multiple
  of 2⁶⁴.
* `accepts_unwrapRekey`: when the keys of a request are given to the application.
-/

namespace WireMesh.TypeScript

open Async Cbor

/-! ## Wrapping -/

def hkdfInfoPrefix : Bytes := utf8 "wire-mesh/room-rekey/v1\x00"

/-- The room and the epoch, which is written as an unsigned number of 64 bits. -/
def hkdfInfo (room : String) (keyEpoch : ℤ) : Bytes :=
  hkdfInfoPrefix ++ bigEndian 4 (utf8 room).length ++ utf8 room ++
    bigEndian 8 (keyEpoch % 2 ^ 64).toNat

theorem utf8_injective {s s' : String} (h : utf8 s = utf8 s') : s = s' :=
  Option.some.inj ((ofUtf8_eq_some_iff.2 rfl).symm.trans (ofUtf8_eq_some_iff.2 h.symm))

theorem hkdfInfo_injective {room room' : String} {keyEpoch keyEpoch' : ℤ}
    (h : hkdfInfo room keyEpoch = hkdfInfo room' keyEpoch') :
    room = room' ∧ keyEpoch % 2 ^ 64 = keyEpoch' % 2 ^ 64 := by
  obtain ⟨h, hepoch⟩ := List.append_inj' h (by simp)
  simp only [List.append_assoc] at h
  obtain ⟨-, hroom⟩ := List.append_inj (List.append_cancel_left h) (by simp)
  grind [ofBigEndian_bigEndian, utf8_injective]

/-- The symmetric half of Web Crypto. -/
structure SymmetricCrypto (Key : Type) where
  /-- HKDF without a salt: the secret and the info. -/
  deriveKey : Bytes → Bytes → Key
  /-- AES-GCM: the key, the vector and the plaintext, or the ciphertext. -/
  decrypt : Key → Bytes → Bytes → Option Bytes

def gcmIvByteLength : ℕ := 12

section Crypto

variable {Key : Type} (crypto : SymmetricCrypto Key)

def deriveWrappingKey (sharedSecret : Bytes) (room : String) (keyEpoch : ℤ) : Key :=
  crypto.deriveKey sharedSecret (hkdfInfo room keyEpoch)

def unwrapContentKey (wrappingKey : Key) (wrapped : Bytes) : Except String Bytes :=
  if wrapped.length < gcmIvByteLength then
    .error "ciphertext shorter than the AES-GCM IV it must carry"
  else
    match crypto.decrypt wrappingKey (wrapped.take gcmIvByteLength)
      (wrapped.drop gcmIvByteLength) with
    | none => .error "OperationError"
    | some contentKey => .ok contentKey

end Crypto

/-! ## Requests -/

inductive WrappedKey
  | single (wrapped : Bytes)
  | array (wrapped : List Bytes)
deriving DecidableEq

/-- The parameters of a command. A field that is missing, or of another type, is `none`. -/
structure RoomRekeyParams where
  verb : Option String
  keyEpoch : Option JsNumber
  wrappedKey : Option WrappedKey
deriving DecidableEq

structure RoomRekey where
  keyEpoch : ℕ
  wrappedKey : WrappedKey
deriving DecidableEq

def roomRekeySchema (params : RoomRekeyParams) : Option RoomRekey := do
  guard (params.verb = some "room.rekey")
  let keyEpoch ← (← params.keyEpoch).parseNonnegative
  let wrappedKey ← params.wrappedKey
  return { keyEpoch, wrappedKey }

structure IncomingManageRequest where
  verb : String
  params : RoomRekeyParams
  scope : CapabilityScope
deriving DecidableEq

def RoomRekey.wrappedKeys (parsed : RoomRekey) : List Bytes :=
  match parsed.wrappedKey with
  | .single wrapped => [wrapped]
  | .array wrapped => wrapped

/-- The epoch of the first key, as if the others ended with the epoch of the request. -/
def RoomRekey.firstEpoch (parsed : RoomRekey) : ℤ :=
  parsed.keyEpoch - parsed.wrappedKeys.length + 1

/-! ## The handler -/

structure RoomRekeyEvent where
  room : String
  keyEpoch : ℕ
  contentKeys : List Bytes
deriving DecidableEq

/-- The keys with the epochs that they are stored under. -/
def RoomRekeyEvent.delivered (event : RoomRekeyEvent) : List (ℤ × Bytes) :=
  event.contentKeys.zipIdx.map fun (key, i) =>
    (event.keyEpoch - event.contentKeys.length + 1 + i, key)

structure CreateRoomRekeyHandlerOptions (Key : Type) extends VerifyOptions where
  /-- Some identities cannot derive secrets. -/
  deriveSharedSecret : Option (IdentityKey → Except String Bytes)
  ownRoomMemberToken : CapabilityToken
  /-- Storing the keys may fail. -/
  onRekey : RoomRekeyEvent → Except String Unit
  crypto : SymmetricCrypto Key

/-- Why a request is refused before its keys are given to the application. -/
inductive RekeyRefusal
  | malformed
  | scopeMismatch
  | token (reason : RoomTokenVerdictReason)
  | ecdhUnsupported
  | unwrapFailed
deriving DecidableEq

def TokenVerdictReason.code : TokenVerdictReason → String
  | malformed => "malformed"
  | badSignature => "bad_signature"
  | wrongIssuer => "wrong_issuer"
  | bearerMismatch => "bearer_mismatch"
  | expired => "expired"
  | notYetValid => "not_yet_valid"
  | contentExpired => "content_expired"
  | revoked => "revoked"
  | delegationExceedsParent => "delegation_exceeds_parent"
  | parentInvalid => "parent_invalid"
  | authorisationInvalid => "authorisation_invalid"
  | chainTooDeep => "chain_too_deep"
  | chainCycle => "chain_cycle"
  | conditionsInvalid => "conditions_invalid"
  | conditionsNotSatisfied => "conditions_not_satisfied"

def RoomTokenVerdictReason.code : RoomTokenVerdictReason → String
  | token reason => reason.code
  | wrongScopeKind => "wrong_scope_kind"
  | wrongScopePath => "wrong_scope_path"
  | wrongChainRoot => "wrong_chain_root"

def RekeyRefusal.code : RekeyRefusal → String
  | malformed => "malformed"
  | scopeMismatch => "scope_mismatch"
  | token reason => reason.code
  | ecdhUnsupported => "ecdh_unsupported"
  | unwrapFailed => "unwrap_failed"

def rekeyStoreFailed : String := "store_failed"

section Handler

variable {Key : Type} (options : CreateRoomRekeyHandlerOptions Key)

/-- What the own token is verified with, for a room. -/
def CreateRoomRekeyHandlerOptions.roomToken (roomPath : String) : VerifyRoomTokenOptions where
  toVerifyOptions := options.toVerifyOptions
  expectedBearer := options.identity.deviceId
  roomPath := roomPath
  dmRootPolicy := some .eitherParticipant

def unwrapKeys (roomPath : String) (parsed : RoomRekey) (sharedSecret : Bytes) :
    Except String (List Bytes) :=
  parsed.wrappedKeys.zipIdx.mapM fun (wrapped, i) =>
    unwrapContentKey options.crypto
      (deriveWrappingKey options.crypto sharedSecret roomPath (parsed.firstEpoch + i)) wrapped

/-- What is given to the application, unless the request is refused. -/
def unwrapRekey (incoming : IncomingManageRequest) :
    ExceptT RekeyRefusal (Async Query TokenVerdict String) RoomRekeyEvent := do
  ensure (incoming.verb = roomMemberCapability) .malformed
  let parsed ← orRefuse (roomRekeySchema incoming.params) .malformed
  ensure (incoming.scope.kind = "room") .scopeMismatch
  let roomPath ← orRefuse incoming.scope.path .scopeMismatch
  let verdict ←
    (verifyRoomToken (options.roomToken roomPath) options.ownRoomMemberToken).adapt .token
  let deriveSharedSecret ← orRefuse options.deriveSharedSecret .ecdhUnsupported
  let contentKeys ← orRefuseWith (deriveSharedSecret verdict.rootIssuerKey >>=
    unwrapKeys options roomPath parsed) fun _ => .unwrapFailed
  return { room := roomPath, keyEpoch := parsed.keyEpoch, contentKeys }

inductive ManageOutcome
  | ok
  | error (code : String)
deriving DecidableEq

/-- What the handler does, in order, and what it rejects with, if it does. -/
inductive RekeyAction
  | respond (outcome : ManageOutcome)
  | onRekey (event : RoomRekeyEvent)
deriving DecidableEq

structure RekeyHandled where
  actions : List RekeyAction
  rejected : Option String
deriving DecidableEq

/-- The application stores the keys before the sender is answered. -/
def storeRekey (event : RoomRekeyEvent) : RekeyHandled :=
  match options.onRekey event with
  | .error e => ⟨[.onRekey event, .respond (.error rekeyStoreFailed)], some e⟩
  | .ok () => ⟨[.onRekey event, .respond .ok], none⟩

def handleRoomRekey (incoming : IncomingManageRequest) :
    Async Query TokenVerdict String RekeyHandled := do
  match ← (unwrapRekey options incoming).run with
  | .error refusal => return ⟨[.respond (.error refusal.code)], none⟩
  | .ok event => return storeRekey options event

/-- The handler ends with what it has done. The verifier of tokens may call itself. -/
def CreateRoomRekeyHandlerOptions.Handles (incoming : IncomingManageRequest)
    (handled : RekeyHandled) : Prop :=
  Settles (Async.Returns (verifyCapabilityToken options.toVerifyOptions.ofRoom))
    (handleRoomRekey options incoming) (.ok handled)

variable {options} {incoming : IncomingManageRequest} {event : RoomRekeyEvent}

theorem accepts_unwrapRekey :
    Accepts (Async.Returns (verifyCapabilityToken options.toVerifyOptions.ofRoom))
        (unwrapRekey options incoming) event ↔
      incoming.verb = roomMemberCapability ∧
      ∃ parsed, roomRekeySchema incoming.params = some parsed ∧
      incoming.scope.kind = "room" ∧ ∃ roomPath, incoming.scope.path = some roomPath ∧
      ∃ verdict, (options.roomToken roomPath).Accepts options.ownRoomMemberToken verdict ∧
      ∃ deriveSharedSecret, options.deriveSharedSecret = some deriveSharedSecret ∧
      ∃ contentKeys, (deriveSharedSecret verdict.rootIssuerKey >>=
        unwrapKeys options roomPath parsed) = .ok contentKeys ∧
      event = { room := roomPath, keyEpoch := parsed.keyEpoch, contentKeys } := by
  rw [unwrapRekey]
  simp only [accepts_bind, accepts_ensure, accepts_orRefuse, accepts_adapt, accepts_orRefuseWith,
    accepts_pure, exists_const]
  exact Iff.rfl

theorem handles_of_accepts
    (h : Accepts (Async.Returns (verifyCapabilityToken options.toVerifyOptions.ofRoom))
      (unwrapRekey options incoming) event) :
    options.Handles incoming (storeRekey options event) :=
  settles_bind_ok.2 ⟨_, h, settles_pure.2 rfl⟩

/-- The application is given what has been unwrapped, and the sender is told of success only after
    that. -/
theorem accepts_of_handles {handled : RekeyHandled} (h : options.Handles incoming handled) :
    (∀ event, .onRekey event ∈ handled.actions →
      Accepts (Async.Returns (verifyCapabilityToken options.toVerifyOptions.ofRoom))
        (unwrapRekey options incoming) event) ∧
      (.respond .ok ∈ handled.actions → ∃ event, .onRekey event ∈ handled.actions) := by
  obtain ⟨unwrapped, hunwrapped, h⟩ := settles_bind_ok.1 h
  rcases unwrapped with refusal | event
  · obtain rfl := Except.ok.inj (settles_pure.1 h)
    simp
  · obtain rfl := Except.ok.inj (settles_pure.1 h)
    rw [storeRekey]
    refine ⟨fun event' hmem => ?_, fun _ => ⟨event, ?_⟩⟩
    · obtain rfl : event' = event := by
        split at hmem <;> simpa using hmem
      exact hunwrapped
    · split <;> simp

end Handler

end WireMesh.TypeScript
