import WireMesh.Room
import WireMesh.TypeScript.Tokens

/-!
# The TypeScript verifiers of rooms

`verifyRoomToken` verifies the token, then checks that it is over the room and
that its chain is rooted as the path of the room wants it. `verifyRoomNotice`
verifies a notice and the token embedded in it, borne by the poster.

* `verifyRoomToken_accepts`: what is accepted is `Placed` in the room. Nothing
  is asked of its capability.
* `verifyRoomNotice_accepts`: a notice is accepted iff it is signed by its
  poster, is showable and embeds a token of the poster that is.
-/

namespace WireMesh.TypeScript

open Async

/-! ## Paths -/

/-- A character of a JSON string. -/
def jsonChar (c : Char) : List Char :=
  match c.toNat with
  | 0x22 => ['\\', c]
  | 0x5c => ['\\', c]
  | 0x08 => ['\\', 'b']
  | 0x09 => ['\\', 't']
  | 0x0a => ['\\', 'n']
  | 0x0c => ['\\', 'f']
  | 0x0d => ['\\', 'r']
  | n => if n < 0x20 then ['\\', 'u', '0', '0'] ++ hexDigits (.ofNat n) else [c]

/-- `JSON.stringify` of a text. -/
def jsonStringify (s : String) : String :=
  .ofList (Char.ofNat 0x22 :: s.toList.flatMap jsonChar ++ [Char.ofNat 0x22])

/-- The shape of a path; there is no third one. -/
def parseRoomPath (path : String) : Except String ParsedRoomPath :=
  match ParsedRoomPath.parse path with
  | some parsed => .ok parsed
  | none => .error (jsonStringify path ++ " is not a valid room-path")

theorem parseRoomPath_eq_ok_iff {path : String} {parsed : ParsedRoomPath} :
    parseRoomPath path = .ok parsed ↔ ParsedRoomPath.parse path = some parsed := by
  grind [parseRoomPath]

/-! ## Tokens -/

inductive RoomTokenVerdictReason
  | token (reason : TokenVerdictReason)
  | wrongScopeKind
  | wrongScopePath
  | wrongChainRoot
deriving DecidableEq

structure RoomTokenAccepted where
  claims : TokenClaims
  rootIssuerKey : IdentityKey
deriving DecidableEq

structure VerifyRoomTokenOptions extends VerifyOptions where
  /-- The device authenticated on the connection. -/
  expectedBearer : DeviceId
  /-- The room that the request is about. -/
  roomPath : String
  dmRootPolicy : Option DmRootPolicy := none

/-- What the token is verified with: the handlers of an application are not passed on. -/
def VerifyOptions.ofRoom (options : VerifyOptions) : VerifyOptions :=
  { options with extraPredicateResolvers := fun _ => none }

/-- Whether the root of the chain is the one that the shape of the path wants. -/
def chainRootMatches (options : VerifyRoomTokenOptions) (rootHex : String) :
    ParsedRoomPath → Bool
  | .ownerNamed owner _ => rootHex = owner
  | .dm first second =>
    if options.dmRootPolicy = some .eitherParticipant then rootHex = first || rootHex = second
    -- By default the verifier itself, and neither of the participants as such.
    else rootHex = deviceIdToHex options.identity.deviceId

def verifyRoomToken (options : VerifyRoomTokenOptions) (token : CapabilityToken) :
    ExceptT RoomTokenVerdictReason (Async Query TokenVerdict String) RoomTokenAccepted := do
  let verdict ← await (ask { token, expectedBearer := some options.expectedBearer })
  let accepted ← orRefuseWith verdict .token
  ensure (accepted.claims.scope.kind = "room") .wrongScopeKind
  ensure (accepted.claims.scope.path = some options.roomPath) .wrongScopePath
  -- A path of neither shape is not refused: the parser throws.
  let parsed ← await (ofExcept (parseRoomPath options.roomPath))
  ensure (chainRootMatches options (deviceIdToHex accepted.rootIssuer) parsed = true)
    .wrongChainRoot
  return { claims := accepted.claims, rootIssuerKey := accepted.rootIssuerKey }

/-- The policy in force: that of the verifier itself, unless another one is chosen. -/
def VerifyRoomTokenOptions.policy (options : VerifyRoomTokenOptions) : DmRootPolicy :=
  options.dmRootPolicy.getD .self

theorem chainRootMatches_iff {options : VerifyRoomTokenOptions} {root : DeviceId}
    {parsed : ParsedRoomPath} :
    chainRootMatches options (deviceIdToHex root) parsed = true ↔
      parsed.Roots options.policy options.identity.deviceId root := by
  rcases parsed with ⟨owner, localName⟩ | ⟨first, second⟩
  · simp [chainRootMatches, ParsedRoomPath.Roots]
  · rw [chainRootMatches, VerifyRoomTokenOptions.policy]
    rcases options.dmRootPolicy with _ | _ | _ <;> simp [ParsedRoomPath.Roots]

/-- The token is accepted in the end. -/
def VerifyRoomTokenOptions.Accepts (options : VerifyRoomTokenOptions) (token : CapabilityToken)
    (v : RoomTokenAccepted) : Prop :=
  Async.Accepts (Async.Returns (verifyCapabilityToken options.ofRoom))
    (verifyRoomToken options token) v

section Token

variable {options : VerifyRoomTokenOptions} {token : CapabilityToken} {v : RoomTokenAccepted}

/-- A token is accepted iff its verifier does and it is over the room, and rooted right. -/
theorem accepts_iff :
    options.Accepts token v ↔
      ∃ accepted, options.ofRoom.Returns { token, expectedBearer := some options.expectedBearer }
          (.ok accepted) ∧
        accepted.claims.scope.kind = "room" ∧
        accepted.claims.scope.path = some options.roomPath ∧
        (∃ parsed, ParsedRoomPath.parse options.roomPath = some parsed ∧
          parsed.Roots options.policy options.identity.deviceId accepted.rootIssuer) ∧
        v = { claims := accepted.claims, rootIssuerKey := accepted.rootIssuerKey } := by
  rw [VerifyRoomTokenOptions.Accepts, verifyRoomToken]
  simp only [accepts_bind, accepts_await, settles_ask, accepts_orRefuseWith, accepts_ensure,
    settles_ofExcept, parseRoomPath_eq_ok_iff, chainRootMatches_iff, accepts_pure]
  constructor
  · rintro ⟨_, hverdict, accepted, rfl, -, hkind, -, hpath, parsed, hparsed, -, hroots, rfl⟩
    exact ⟨accepted, hverdict, hkind, hpath, ⟨parsed, hparsed, hroots⟩, rfl⟩
  · rintro ⟨accepted, hverdict, hkind, hpath, ⟨parsed, hparsed, hroots⟩, rfl⟩
    exact ⟨_, hverdict, accepted, rfl, (), hkind, (), hpath, parsed, hparsed, (), hroots, rfl⟩

/-- What is accepted is placed in the room. -/
theorem verifyRoomToken_accepts (ht : options.trilean.Kleene) (h : options.Accepts token v) :
    ∃ leaf above, ChainOf options.codec.toDecoder token (leaf :: above) ∧
      Accepted options.ofRoom.rule none (leaf :: above) ∧
      Placed options.policy options.identity.deviceId options.roomPath options.expectedBearer
        leaf.claims ((leaf :: above).getLast (List.cons_ne_nil _ _)).claims ∧
      v.claims = leaf.claims := by
  obtain ⟨accepted, hverdict, hkind, hpath, hroots, rfl⟩ := accepts_iff.1 h
  have ht' : options.ofRoom.trilean.Kleene := ht
  obtain ⟨leaf, above, hchain, hacc, -, -, hbearer, rfl⟩ := (returns_ok_iff ht').1 hverdict
  exact ⟨leaf, above, hchain, hacc, ⟨hkind, hpath, hbearer _ rfl, hroots⟩, rfl⟩

end Token

/-! ## Notices -/

inductive RoomNoticeVerdictReason
  | malformed
  | wrongRoom
  | badSignature
  | wrongPoster
  | contentExpired
  | keyEpochMismatch
  | roomToken (reason : RoomTokenVerdictReason)
deriving DecidableEq

structure VerifyRoomNoticeOptions extends VerifyOptions where
  /-- What a payload decodes to, when it decodes and fits the schema. -/
  noticeClaims : Bytes → Option RoomNoticeClaims
  expectedRoom : Option String := none
  dmRootPolicy : Option DmRootPolicy := none

/-- What the embedded token is verified with: its bearer is to be the poster. -/
def VerifyRoomNoticeOptions.tokenOptions (options : VerifyRoomNoticeOptions)
    (claims : RoomNoticeClaims) : VerifyRoomTokenOptions where
  toVerifyOptions := options.toVerifyOptions
  expectedBearer := claims.poster
  roomPath := claims.room
  dmRootPolicy := options.dmRootPolicy

def verifyRoomNotice (options : VerifyRoomNoticeOptions) (notice : RoomNotice) :
    ExceptT RoomNoticeVerdictReason (Async Query TokenVerdict String) RoomNoticeClaims := do
  let payload ← orRefuse notice.payload .malformed
  let claims ← orRefuse (options.noticeClaims payload) .malformed
  ensure (∀ room ∈ options.expectedRoom, claims.room = room) .wrongRoom
  let signatureOk ← await (ofExcept (options.identity.verify claims.posterKey
    (sig1ToBeSigned notice.protectedHeader payload) notice.signature))
  ensure (signatureOk = true) .badSignature
  ensure (options.identity.deriveDeviceId claims.posterKey.publicKey = claims.poster) .wrongPoster
  ensure (¬∃ t ∈ claims.validUntil, t ≤ options.now) .contentExpired
  ensure (isEncryptedContentType claims.contentType = claims.keyEpoch.isSome) .keyEpochMismatch
  let _ ← (verifyRoomToken (options.tokenOptions claims) claims.token).adapt .roomToken
  return claims

/-- The notice is accepted in the end. -/
def VerifyRoomNoticeOptions.Accepts (options : VerifyRoomNoticeOptions) (notice : RoomNotice)
    (claims : RoomNoticeClaims) : Prop :=
  Async.Accepts (Async.Returns (verifyCapabilityToken options.ofRoom))
    (verifyRoomNotice options notice) claims

/-- A notice is accepted iff it is what it should be and embeds a token of its poster that
    is accepted. -/
theorem verifyRoomNotice_accepts {options : VerifyRoomNoticeOptions} {notice : RoomNotice}
    {claims : RoomNoticeClaims} :
    options.Accepts notice claims ↔
      (∃ payload, notice.payload = some payload ∧ options.noticeClaims payload = some claims ∧
        options.identity.Posts notice payload claims) ∧
      (∀ room ∈ options.expectedRoom, claims.room = room) ∧ claims.Showable options.now ∧
      ∃ v, (options.tokenOptions claims).Accepts claims.token v := by
  rw [VerifyRoomNoticeOptions.Accepts, verifyRoomNotice]
  simp only [accepts_bind, accepts_orRefuse, accepts_await, accepts_ensure, settles_ofExcept,
    accepts_adapt, accepts_pure, not_exists, not_and, not_le]
  constructor
  · rintro ⟨payload, hpayload, c, hclaims, -, hroom, _, hsigned, -, rfl, -, hposter, -, huntil, -,
      hkeyed, v, hv, rfl⟩
    exact ⟨⟨payload, hpayload, hclaims, hsigned, hposter⟩, hroom, ⟨huntil, hkeyed⟩, v, hv⟩
  · rintro ⟨⟨payload, hpayload, hclaims, hsigned, hposter⟩, hroom, ⟨huntil, hkeyed⟩, v, hv⟩
    exact ⟨payload, hpayload, claims, hclaims, (), hroom, true, hsigned, (), rfl, (), hposter, (),
      huntil, (), hkeyed, v, hv, rfl⟩

end WireMesh.TypeScript
