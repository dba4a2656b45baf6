import WireMesh.Cbor

/-!
# Capability tokens

The data both implementations exchange: device identities, capability tokens
and revocation entries. A token is a COSE_Sign1 envelope whose payload encodes
its claims. It is signed with the key its claims carry, the hash of which is
the issuer's device-id, so that a verifier needs nothing but the token.

A token delegates a `parent`, whose authority it narrows, or is minted under a
grant-capability, by which it is `authorised-by`; it embeds the bytes of the
token it is linked to (`TokenClaims.upward`).

The encodings are those of the deterministic encoders; what a verifier reads
from bytes is up to its decoders (`Decoder`).
-/

namespace WireMesh

/-! ## Identities -/

/-- A device-id: the 32 bytes of the hash of a public key. -/
structure DeviceId where
  bytes : Bytes
  size : bytes.length = 32
deriving DecidableEq

theorem DeviceId.bytes_injective : Function.Injective DeviceId.bytes := by
  rintro ⟨a, ha⟩ ⟨b, hb⟩ rfl
  rfl

/-- The hexadecimal text of a device-id. -/
def deviceIdToHex (device : DeviceId) : String := bytesToHex device.bytes

@[simp]
theorem deviceIdToHex_inj {a b : DeviceId} : deviceIdToHex a = deviceIdToHex b ↔ a = b :=
  (bytesToHex_injective.comp DeviceId.bytes_injective).eq_iff

/-- A public key, with the COSE number of its algorithm. -/
structure IdentityKey where
  alg : ℤ
  publicKey : Bytes
deriving DecidableEq

/-- A device's identity, and the signature scheme and hash it computes with. The check of
    a signature fails on a key it cannot handle. -/
structure Identity where
  deviceId : DeviceId
  identityKey : IdentityKey
  sign : Bytes → Bytes
  /-- The key, the message and the signature. -/
  verify : IdentityKey → Bytes → Bytes → Except String Bool
  deriveDeviceId : Bytes → DeviceId

/-! ## Tokens -/

/-- What a capability is over: a kind of resource, or a subtree of it. -/
structure CapabilityScope where
  kind : String
  path : Option String
deriving DecidableEq

/-- The claims of a capability token. -/
structure TokenClaims where
  tokenId : Bytes
  issuer : DeviceId
  issuerKey : IdentityKey
  bearer : DeviceId
  capability : String
  scope : CapabilityScope
  expires : ℕ
  notBefore : Option ℕ := none
  validUntil : Option ℕ := none
  parent : Option Bytes := none
  authorisedBy : Option Bytes := none
  delegationsRemaining : Option ℕ := none
  conditions : Option Bytes := none
  grantsCapability : Option String := none
  requestsCapability : Option String := none
deriving DecidableEq

/-- A COSE_Sign1 envelope. No verifier reads the unprotected header, kept as its encoding. -/
structure CoseSign1 where
  protectedHeader : Bytes
  unprotectedHeader : Bytes
  payload : Option Bytes
  signature : Bytes
deriving DecidableEq

abbrev CapabilityToken := CoseSign1

/-- The claims of a revocation entry: `issuer` declares the token revoked, on its own
    authority or on that of an encoded `authorization` token. -/
structure RevocationClaims where
  tokenId : Bytes
  issuer : DeviceId
  issuerKey : IdentityKey
  revokedAt : ℕ
  authorization : Option Bytes := none
deriving DecidableEq

abbrev RevocationEntry := CoseSign1

/-- The verb of a grant-capability: authority to mint other tokens. -/
def manageGrant : String := "manage:grant"

/-- The verb of a delegated authority to revoke. -/
def manageRevoke : String := "manage:revoke"

/-- How a token is linked to the one above it: it narrows it, or is minted under it. -/
inductive LinkKind
  | parent
  | authorisation
deriving DecidableEq

/-- The link of a token to the one above it, with its encoding. -/
def TokenClaims.upward (claims : TokenClaims) : Option (LinkKind × Bytes) :=
  match claims.parent, claims.authorisedBy with
  | some bytes, _ => some (.parent, bytes)
  | none, some bytes => some (.authorisation, bytes)
  | none, none => none

/-- The token is in force: it is not expired, and both its optional windows are open. -/
def TokenClaims.CurrentAt (claims : TokenClaims) (now : ℕ) : Prop :=
  now < claims.expires ∧ (∀ t ∈ claims.notBefore, t ≤ now) ∧ ∀ t ∈ claims.validUntil, now < t

instance (claims : TokenClaims) (now : ℕ) : Decidable (claims.CurrentAt now) :=
  inferInstanceAs (Decidable (now < claims.expires ∧ (∀ t ∈ claims.notBefore, t ≤ now) ∧
    ∀ t ∈ claims.validUntil, now < t))

theorem TokenClaims.currentAt_iff {claims : TokenClaims} {now : ℕ} :
    claims.CurrentAt now ↔ ¬claims.expires ≤ now ∧ (¬∃ t ∈ claims.notBefore, now < t) ∧
      ¬∃ t ∈ claims.validUntil, t ≤ now := by
  simp only [TokenClaims.CurrentAt, not_exists, not_and, not_le, not_lt]

/-- The bound on re-delegation is consumed: a bounded upper token has a strictly less
    bounded token below it. -/
def Consumes (upper lower : Option ℕ) : Prop := ∀ n ∈ upper, ∃ m ∈ lower, m < n

instance (upper lower : Option ℕ) : Decidable (Consumes upper lower) :=
  inferInstanceAs (Decidable (∀ n ∈ upper, ∃ m ∈ lower, m < n))

@[simp]
theorem consumes_none {lower : Option ℕ} : Consumes none lower := nofun

@[simp]
theorem consumes_some {n : ℕ} {lower : Option ℕ} :
    Consumes (some n) lower ↔ ∃ m, lower = some m ∧ m < n := by
  simp [Consumes]

/-! ## Encodings -/

open Cbor

/-- The `Sig_structure` a COSE_Sign1 signature is over, with no external data. -/
def sig1ToBeSigned (protectedHeader payload : Bytes) : Bytes :=
  array [text "Signature1", bytes protectedHeader, bytes [], bytes payload]

/-- The protected header of a signed envelope: the algorithm and the key's device-id. -/
def protectedHeaderFor (identity : Identity) : Bytes :=
  object [("1", some (int identity.identityKey.alg)),
    ("4", some (bytes identity.deviceId.bytes))]

def IdentityKey.encode (key : IdentityKey) : Bytes :=
  object [("alg", some (int key.alg)), ("public-key", some (bytes key.publicKey))]

def CapabilityScope.encode (scope : CapabilityScope) : Bytes :=
  object [("kind", some (text scope.kind)), ("path", scope.path.map text)]

def TokenClaims.encode (claims : TokenClaims) : Bytes :=
  object [("token-id", some (bytes claims.tokenId)),
    ("issuer", some (bytes claims.issuer.bytes)),
    ("issuer-key", some claims.issuerKey.encode),
    ("bearer", some (bytes claims.bearer.bytes)),
    ("capability", some (text claims.capability)),
    ("scope", some claims.scope.encode),
    ("expires", some (uint claims.expires)),
    ("not-before", claims.notBefore.map uint),
    ("valid-until", claims.validUntil.map uint),
    ("parent", claims.parent.map bytes),
    ("authorised-by", claims.authorisedBy.map bytes),
    ("delegations-remaining", claims.delegationsRemaining.map uint),
    ("conditions", claims.conditions.map bytes),
    ("grants-capability", claims.grantsCapability.map text),
    ("requests-capability", claims.requestsCapability.map text)]

def CoseSign1.encode (token : CoseSign1) : Bytes :=
  array [bytes token.protectedHeader, token.unprotectedHeader,
    (token.payload.map bytes).getD null, bytes token.signature]

def RevocationClaims.encode (claims : RevocationClaims) : Bytes :=
  object [("token-id", some (bytes claims.tokenId)),
    ("issuer", some (bytes claims.issuer.bytes)),
    ("issuer-key", some claims.issuerKey.encode),
    ("revoked-at", some (uint claims.revokedAt)),
    ("authorization", claims.authorization.map bytes)]

/-- The envelope an identity signs a payload in, with an empty unprotected header. -/
def Identity.seal (identity : Identity) (payload : Bytes) : CoseSign1 where
  protectedHeader := protectedHeaderFor identity
  unprotectedHeader := object []
  payload := some payload
  signature := identity.sign (sig1ToBeSigned (protectedHeaderFor identity) payload)

/-! ## Decoders -/

/-- What a verifier reads from bytes: the claims of a payload, and an embedded token. -/
structure Decoder where
  claims : Bytes → Option TokenClaims
  token : Bytes → Option CapabilityToken

/-- The decoder that knows the encodings of the given values. -/
def decodeAmong {α : Type} (encode : α → Bytes) (known : List α) (bytes : Bytes) : Option α :=
  known.find? fun a => encode a = bytes

/-- What is known by an encoding of its own is decoded. -/
theorem decodeAmong_eq {α : Type} {encode : α → Bytes} {known : List α}
    (hne : known.Pairwise fun a b => encode a ≠ encode b) {a : α} (ha : a ∈ known) :
    decodeAmong encode known (encode a) = some a := by
  induction known with
  | nil => cases ha
  | cons b known ih => grind [List.pairwise_cons, decodeAmong]

/-! ## Sample identities -/

/-- A checksum of a message. -/
def checksum (message : Bytes) : Bytes :=
  bigEndian 4 (message.foldl (fun h b => (31 * h + b.toNat) % 2 ^ 32) 7)

/-- The device-id with the given bytes, filled up with zeros. -/
def DeviceId.pad (bytes : Bytes) : DeviceId where
  bytes := (bytes ++ .replicate 32 0).take 32
  size := by simp

/-- The `n`th sample identity. Its public key is a single byte, its signatures are that
    byte with a checksum of the message, and its device-id is the key filled up. -/
def Identity.sample (n : UInt8) : Identity where
  deviceId := .pad [n]
  identityKey := { alg := -8, publicKey := [n] }
  sign message := n :: checksum message
  verify key message signature := .ok (signature = key.publicKey ++ checksum message)
  deriveDeviceId := .pad

/-- The claims of a token for files from a sample device to another one, in force until
    2000. -/
def TokenClaims.sample (tokenId : Bytes) (issuer bearer : UInt8) (capability : String) :
    TokenClaims where
  tokenId := tokenId
  issuer := (Identity.sample issuer).deviceId
  issuerKey := (Identity.sample issuer).identityKey
  bearer := (Identity.sample bearer).deviceId
  capability := capability
  scope := { kind := "fs", path := none }
  expires := 2000

end WireMesh
