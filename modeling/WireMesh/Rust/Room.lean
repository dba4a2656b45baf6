import WireMesh.Room
import WireMesh.Rust.Tokens

/-!
# The Rust verifiers of rooms

`verifyRoomToken` and `verifyRoomNotice`, as in TypeScript; for a direct
message the only root is the verifier itself.

* `verifyRoomToken_accepts`: what is accepted is `Placed` in the room. Nothing
  is asked of its capability.
* `verifyRoomNotice_accepts`: a notice is accepted iff it is signed by its
  poster, is showable and embeds a token of the poster that is.
-/

namespace WireMesh.Rust

open Async

/-- The shape of a path, if it has one. -/
def parseRoomPath (path : String) : Option ParsedRoomPath := ParsedRoomPath.parse path

/-! ## Tokens -/

inductive RoomTokenRejection
  | token (rejection : TokenRejection)
  | wrongScopeKind
  | wrongScopePath
  | malformedRoomPath
  | wrongChainRoot
deriving DecidableEq

structure RoomTokenValid where
  claims : TokenClaims
  rootIssuerKey : IdentityKey
deriving DecidableEq

/-- The text of the device-id that the root of the chain has to have. -/
def expectedRootHex (verifier : Verifier) : ParsedRoomPath → String
  | .ownerNamed owner _ => owner
  | .dm _ _ => deviceIdToHex verifier.identity.deviceId

def verifyRoomToken (verifier : Verifier) (token : CapabilityToken) (expectedBearer : DeviceId)
    (roomPath : String) :
    ExceptT RoomTokenRejection (Async Query TokenVerdict Empty) RoomTokenValid := do
  let verdict ← await (ask { token, expectedBearer := some expectedBearer })
  let valid ← orRefuseWith verdict .token
  ensure (valid.claims.scope.kind = "room") .wrongScopeKind
  ensure (valid.claims.scope.path = some roomPath) .wrongScopePath
  let parsed ← orRefuse (parseRoomPath roomPath) .malformedRoomPath
  ensure (deviceIdToHex valid.rootIssuer = expectedRootHex verifier parsed) .wrongChainRoot
  return { claims := valid.claims, rootIssuerKey := valid.rootIssuerKey }

theorem eq_expectedRootHex_iff {verifier : Verifier} {root : DeviceId} {parsed : ParsedRoomPath} :
    deviceIdToHex root = expectedRootHex verifier parsed ↔
      parsed.Roots .self verifier.identity.deviceId root := by
  rcases parsed with ⟨owner, localName⟩ | ⟨first, second⟩
  · simp [expectedRootHex, ParsedRoomPath.Roots]
  · simp [expectedRootHex, ParsedRoomPath.Roots]

/-- The token is accepted in the end. -/
def Verifier.AcceptsRoomToken (verifier : Verifier) (token : CapabilityToken)
    (expectedBearer : DeviceId) (roomPath : String) (v : RoomTokenValid) : Prop :=
  Async.Accepts (Async.Returns (verifyCapabilityToken verifier))
    (verifyRoomToken verifier token expectedBearer roomPath) v

section Token

variable {verifier : Verifier} {token : CapabilityToken} {expectedBearer : DeviceId}
  {roomPath : String} {v : RoomTokenValid}

/-- A token is accepted iff its verifier does and it is over the room, and rooted right. -/
theorem acceptsRoomToken_iff :
    verifier.AcceptsRoomToken token expectedBearer roomPath v ↔
      ∃ valid, verifier.Returns { token, expectedBearer := some expectedBearer } (.ok valid) ∧
        valid.claims.scope.kind = "room" ∧ valid.claims.scope.path = some roomPath ∧
        (∃ parsed, ParsedRoomPath.parse roomPath = some parsed ∧
          parsed.Roots .self verifier.identity.deviceId valid.rootIssuer) ∧
        v = { claims := valid.claims, rootIssuerKey := valid.rootIssuerKey } := by
  rw [Verifier.AcceptsRoomToken, verifyRoomToken]
  simp only [accepts_bind, accepts_await, settles_ask, accepts_orRefuseWith, accepts_ensure,
    accepts_orRefuse, parseRoomPath, eq_expectedRootHex_iff, accepts_pure]
  constructor
  · rintro ⟨_, hverdict, valid, rfl, -, hkind, -, hpath, parsed, hparsed, -, hroots, rfl⟩
    exact ⟨valid, hverdict, hkind, hpath, ⟨parsed, hparsed, hroots⟩, rfl⟩
  · rintro ⟨valid, hverdict, hkind, hpath, ⟨parsed, hparsed, hroots⟩, rfl⟩
    exact ⟨_, hverdict, valid, rfl, (), hkind, (), hpath, parsed, hparsed, (), hroots, rfl⟩

/-- What is accepted is placed in the room. -/
theorem verifyRoomToken_accepts
    (h : verifier.AcceptsRoomToken token expectedBearer roomPath v) :
    ∃ leaf above, ChainOf verifier.codec.toDecoder token (leaf :: above) ∧
      Accepted verifier.rule none (leaf :: above) ∧
      Placed .self verifier.identity.deviceId roomPath expectedBearer
        leaf.claims ((leaf :: above).getLast (List.cons_ne_nil _ _)).claims ∧
      v.claims = leaf.claims := by
  obtain ⟨valid, hverdict, hkind, hpath, hroots, rfl⟩ := acceptsRoomToken_iff.1 h
  obtain ⟨leaf, above, hchain, hacc, -, -, hbearer, rfl⟩ := returns_valid_iff.1 hverdict
  exact ⟨leaf, above, hchain, hacc, ⟨hkind, hpath, hbearer _ rfl, hroots⟩, rfl⟩

end Token

/-! ## Notices -/

inductive RoomNoticeRejection
  | malformed
  | wrongRoom
  | badSignature
  | wrongPoster
  | contentExpired
  | keyEpochMismatch
  | token (rejection : RoomTokenRejection)
deriving DecidableEq

/-- The decoder of the claims of notices. -/
abbrev NoticeDecoder := Bytes → Except String RoomNoticeClaims

def verifyRoomNotice (verifier : Verifier) (decode : NoticeDecoder) (notice : RoomNotice)
    (expectedRoom : Option String) :
    ExceptT RoomNoticeRejection (Async Query TokenVerdict Empty) RoomNoticeClaims := do
  let payload ← orRefuse notice.payload .malformed
  let claims ← orRefuseWith (decode payload) fun _ => .malformed
  ensure (∀ room ∈ expectedRoom, claims.room = room) .wrongRoom
  -- A signature whose check fails is as bad as one that does not verify.
  ensure (verifier.identity.verify claims.posterKey
    (sig1ToBeSigned notice.protectedHeader payload) notice.signature = .ok true) .badSignature
  ensure (verifier.identity.deriveDeviceId claims.posterKey.publicKey = claims.poster)
    .wrongPoster
  ensure (¬∃ t ∈ claims.validUntil, t ≤ verifier.now) .contentExpired
  ensure (isEncryptedContentType claims.contentType = claims.keyEpoch.isSome) .keyEpochMismatch
  let _ ← (verifyRoomToken verifier claims.token claims.poster claims.room).adapt .token
  return claims

/-- The notice is accepted in the end. -/
def Verifier.AcceptsRoomNotice (verifier : Verifier) (decode : NoticeDecoder)
    (notice : RoomNotice) (expectedRoom : Option String) (claims : RoomNoticeClaims) : Prop :=
  Async.Accepts (Async.Returns (verifyCapabilityToken verifier))
    (verifyRoomNotice verifier decode notice expectedRoom) claims

/-- A notice is accepted iff it is what it should be and embeds a token of its poster that
    is accepted. -/
theorem verifyRoomNotice_accepts {verifier : Verifier} {decode : NoticeDecoder}
    {notice : RoomNotice} {expectedRoom : Option String} {claims : RoomNoticeClaims} :
    verifier.AcceptsRoomNotice decode notice expectedRoom claims ↔
      (∃ payload, notice.payload = some payload ∧ decode payload = .ok claims ∧
        verifier.identity.Posts notice payload claims) ∧
      (∀ room ∈ expectedRoom, claims.room = room) ∧ claims.Showable verifier.now ∧
      ∃ v, verifier.AcceptsRoomToken claims.token claims.poster claims.room v := by
  rw [Verifier.AcceptsRoomNotice, verifyRoomNotice]
  simp only [accepts_bind, accepts_orRefuse, accepts_orRefuseWith, accepts_ensure, accepts_adapt,
    accepts_pure, not_exists, not_and, not_le]
  constructor
  · rintro ⟨payload, hpayload, c, hclaims, -, hroom, -, hsigned, -, hposter, -, huntil, -, hkeyed,
      v, hv, rfl⟩
    exact ⟨⟨payload, hpayload, hclaims, hsigned, hposter⟩, hroom, ⟨huntil, hkeyed⟩, v, hv⟩
  · rintro ⟨⟨payload, hpayload, hclaims, hsigned, hposter⟩, hroom, ⟨huntil, hkeyed⟩, v, hv⟩
    exact ⟨payload, hpayload, claims, hclaims, (), hroom, (), hsigned, (), hposter, (), huntil, (),
      hkeyed, v, hv, rfl⟩

end WireMesh.Rust
