import WireMesh.Token

/-!
# Revocation entries

An entry is a COSE_Sign1 envelope over the claims that revoke a token. It is
self-certifying as a token is: it is signed with the key its claims carry, the
hash of which is its issuer's device-id (`Identity.Attests`). Whether the
issuer may revoke the token is not a matter of the entry but of the verifier.

A revocation view keeps the claims of genuine entries, token by token; its log
is `claimsAbout`.
-/

namespace WireMesh

/-- The entry is genuine and makes the claims. -/
def Identity.Attests (identity : Identity) (decode : Bytes → Option RevocationClaims)
    (entry : RevocationEntry) (claims : RevocationClaims) : Prop :=
  ∃ payload, entry.payload = some payload ∧ decode payload = some claims ∧
    identity.verify claims.issuerKey (sig1ToBeSigned entry.protectedHeader payload)
      entry.signature = .ok true ∧
    identity.deriveDeviceId claims.issuerKey.publicKey = claims.issuer

/-! ## The log -/

section Log

variable {admitted : RevocationEntry → Option RevocationClaims} {entries : List RevocationEntry}
  {tokenId : Bytes}

/-- The claims about a token that a sequence of entries makes, those that are admitted. -/
def claimsAbout (admitted : RevocationEntry → Option RevocationClaims) (tokenId : Bytes)
    (entries : List RevocationEntry) : List RevocationClaims :=
  (entries.filterMap admitted).filter fun claims => claims.tokenId = tokenId

@[simp]
theorem claimsAbout_nil : claimsAbout admitted tokenId [] = [] := rfl

theorem claimsAbout_singleton {entry : RevocationEntry} :
    claimsAbout admitted tokenId [entry] =
      (admitted entry).toList.filter fun claims => claims.tokenId = tokenId := by
  grind [claimsAbout]

theorem claimsAbout_of_admitted {entry : RevocationEntry} {claims : RevocationClaims}
    (h : admitted entry = some claims) :
    claimsAbout admitted claims.tokenId [entry] = [claims] := by
  rw [claimsAbout_singleton, h]
  simp

theorem claimsAbout_map_of_admitted {entryOf : RevocationClaims → RevocationEntry}
    {claims : List RevocationClaims} (h : ∀ c ∈ claims, admitted (entryOf c) = some c) :
    claimsAbout admitted tokenId (claims.map entryOf) =
      claims.filter fun c => c.tokenId = tokenId := by
  rw [claimsAbout, List.filterMap_map]
  congr 1
  exact (List.filterMap_congr h).trans List.filterMap_some

theorem claimsAbout_append {more : List RevocationEntry} :
    claimsAbout admitted tokenId (entries ++ more) =
      claimsAbout admitted tokenId entries ++ claimsAbout admitted tokenId more := by
  rw [claimsAbout, List.filterMap_append, List.filter_append, claimsAbout, claimsAbout]

theorem mem_claimsAbout {claims : RevocationClaims} :
    claims ∈ claimsAbout admitted tokenId entries ↔
      claims.tokenId = tokenId ∧ ∃ entry ∈ entries, admitted entry = some claims := by
  rw [claimsAbout, List.mem_filter, List.mem_filterMap, decide_eq_true_eq, and_comm]

end Log

/-! ## The authority of entries -/

/-- For every entry in the first list there is one in the second by the same issuer, on the
    same authorization. Of an entry, a verifier looks at nothing else. -/
def Covered (entries entries' : List RevocationClaims) : Prop :=
  ∀ e ∈ entries, ∃ e' ∈ entries', e'.issuer = e.issuer ∧ e'.authorization = e.authorization

/-- The entries revoke on the same authority. -/
def SameAuthority (entries entries' : List RevocationClaims) : Prop :=
  Covered entries entries' ∧ Covered entries' entries

/-! ## Sample entries -/

/-- The claims by which a sample device revokes a token. -/
def RevocationClaims.sample (tokenId : Bytes) (issuer : UInt8) (revokedAt : ℕ)
    (authorization : Option Bytes) : RevocationClaims where
  tokenId := tokenId
  issuer := (Identity.sample issuer).deviceId
  issuerKey := (Identity.sample issuer).identityKey
  revokedAt := revokedAt
  authorization := authorization

/-- The entry in which a sample device makes the claims. -/
def RevocationEntry.sample (n : UInt8) (claims : RevocationClaims) : RevocationEntry :=
  (Identity.sample n).seal claims.encode

/-- The claims are made by a sample device. -/
def RevocationClaims.IsBy (n : UInt8) (claims : RevocationClaims) : Prop :=
  claims.issuerKey = (Identity.sample n).identityKey ∧
    claims.issuer = (Identity.sample n).deviceId

theorem Identity.sample_attests {m n : UInt8} {decode : Bytes → Option RevocationClaims}
    {claims : RevocationClaims} (hby : claims.IsBy n)
    (h : decode claims.encode = some claims) :
    (Identity.sample m).Attests decode (.sample n claims) claims := by
  refine ⟨claims.encode, rfl, h, ?_, ?_⟩
  · rw [hby.1]
    exact congrArg Except.ok (decide_eq_true rfl)
  · rw [hby.1, hby.2]
    rfl

end WireMesh
