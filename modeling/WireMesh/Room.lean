import WireMesh.Chain

/-!
# Rooms

The data of rooms: their paths and the notices posted to them. A path names the
devices whose consent makes a token over the room count:

* an owner-named room `<owner-hex>/<local-name>` is rooted at its owner;
* a direct message `<hex>+<hex>` is rooted at the verifier itself, or, where a
  caller chooses so, at either of its participants (`ParsedRoomPath.Roots`).

What it takes to be a member is `Member`; a token that has all of it but the
capability is only `Placed` in the room.
-/

namespace WireMesh

/-- The verb of membership in a room. -/
def roomMemberCapability : String := "room:member"

/-! ## Paths -/

inductive ParsedRoomPath
  | ownerNamed (owner localName : String)
  | dm (first second : String)
deriving DecidableEq

/-- The text before and after the first occurrence of a character. -/
def splitFirst (c : Char) (s : String) : Option (String × String) :=
  if c ∈ s.toList then
    some (.ofList (s.toList.takeWhile (· ≠ c)), .ofList (s.toList.dropWhile (· ≠ c)).tail)
  else none

/-- 64 lowercase hexadecimal digits. -/
def isDeviceIdHex (s : String) : Bool :=
  s.toList.length = 64 && s.toList.all fun c => c.isDigit || ('a' ≤ c && c ≤ 'f')

/-- At least one of the characters of local names, and nothing else. -/
def isLocalName (s : String) : Bool :=
  s.toList ≠ [] && s.toList.all fun c => c.isAlphanum || c = '_' || c = '-'

namespace ParsedRoomPath

def parseOwnerNamed (path : String) : Option ParsedRoomPath := do
  let (owner, localName) ← splitFirst '/' path
  if isDeviceIdHex owner && isLocalName localName then some (ownerNamed owner localName) else none

def parseDm (path : String) : Option ParsedRoomPath := do
  let (first, second) ← splitFirst '+' path
  if isDeviceIdHex first && isDeviceIdHex second && first ≠ second then some (dm first second)
  else none

/-- The shape of a path, if it has one. -/
def parse (path : String) : Option ParsedRoomPath := parseOwnerNamed path <|> parseDm path

end ParsedRoomPath

/-- Whose root the chain of a token over a direct message may have. -/
inductive DmRootPolicy
  | self
  | eitherParticipant
deriving DecidableEq

/-- The device may be the root of a token over a room of this shape, to the verifier `self`. -/
def ParsedRoomPath.Roots (policy : DmRootPolicy) (self root : DeviceId) : ParsedRoomPath → Prop
  | ownerNamed owner _ => deviceIdToHex root = owner
  | dm first second => match policy with
    | .self => root = self
    | .eitherParticipant => deviceIdToHex root = first ∨ deviceIdToHex root = second

/-! ## Membership -/

/-- The token is over the room, borne by the device and rooted as the path wants it. -/
@[grind cases]
structure Placed (policy : DmRootPolicy) (self : DeviceId) (path : String) (bearer : DeviceId)
    (leaf root : TokenClaims) : Prop where
  scope_kind : leaf.scope.kind = "room"
  scope_path : leaf.scope.path = some path
  bearer_eq : leaf.bearer = bearer
  rooted : ∃ parsed, ParsedRoomPath.parse path = some parsed ∧ parsed.Roots policy self root.issuer

/-- The token makes the device a member of the room. -/
structure Member (policy : DmRootPolicy) (self : DeviceId) (path : String) (bearer : DeviceId)
    (leaf root : TokenClaims) : Prop extends Placed policy self path bearer leaf root where
  capability : leaf.capability = roomMemberCapability

/-- In its place, a token lacks nothing but the capability for membership. -/
theorem Placed.member_iff {policy : DmRootPolicy} {self bearer : DeviceId} {path : String}
    {leaf root : TokenClaims} (h : Placed policy self path bearer leaf root) :
    Member policy self path bearer leaf root ↔ leaf.capability = roomMemberCapability :=
  ⟨Member.capability, fun hcapability => { h with capability := hcapability }⟩

/-! ## Notices -/

/-- A reference to an earlier message. -/
structure MessageRef where
  id : Bytes
  relation : String
deriving DecidableEq

/-- The claims of a notice, in which the poster embeds the token that lets it post. -/
structure RoomNoticeClaims where
  room : String
  poster : DeviceId
  posterKey : IdentityKey
  token : CapabilityToken
  noticeId : Bytes
  postedAt : ℕ
  contentType : String
  content : Bytes
  refs : Option (List MessageRef) := none
  validUntil : Option ℕ := none
  keyEpoch : Option ℕ := none
deriving DecidableEq

abbrev RoomNotice := CoseSign1

/-- The ending of the types of encrypted contents. -/
def encryptedContentTypeSuffix : String := "+aes256gcm"

def isEncryptedContentType (contentType : String) : Bool :=
  encryptedContentTypeSuffix.toList.isSuffixOf contentType.toList

/-- The notice is signed with the key of its poster. -/
@[grind cases]
structure Identity.Posts (identity : Identity) (notice : RoomNotice) (payload : Bytes)
    (claims : RoomNoticeClaims) : Prop where
  signed : identity.verify claims.posterKey (sig1ToBeSigned notice.protectedHeader payload)
    notice.signature = .ok true
  poster : identity.deriveDeviceId claims.posterKey.publicKey = claims.poster

/-- The content may be shown, and says whether and how it is encrypted. -/
@[grind cases]
structure RoomNoticeClaims.Showable (claims : RoomNoticeClaims) (now : ℕ) : Prop where
  current : ∀ t ∈ claims.validUntil, now < t
  keyed : isEncryptedContentType claims.contentType = claims.keyEpoch.isSome

end WireMesh
