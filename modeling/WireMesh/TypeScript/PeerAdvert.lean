import WireMesh.Cbor.Read
import WireMesh.Token

/-!
# Peer adverts

The adverts that devices gossip (`peer-advert.ts`): a device names itself and its addresses,
with the key that its device-id is the hash of, and signs all of it. Anyone can check an
advert, wherever it comes from; a hub may refuse one for what its open tail holds
(`advert-extension-policy.ts`).

* `eq_of_peerAdvertSigningInput_eq`: what is signed tells the device and the key, so that two
  adverts with the same signature and signed bytes pass the check together
  (`checkPeerAdvert_congr`).
-/

namespace WireMesh.TypeScript

open Cbor

def peerAdvertSignatureKey : String := "signature"

def peerAdvertIdentityKeyKey : String := "identity-key"

/-- The keys of the fields that every advert has. -/
def reservedPeerAdvertKeys : List String :=
  ["device", "addresses", "snapshot-seconds", peerAdvertIdentityKeyKey, peerAdvertSignatureKey]

/-- An advert: its own fields, and the entries of its open tail, with values in `Value`. The
    sizes are those that an encoding can state. -/
structure PeerAdvert (Value : Type) where
  device : DeviceId
  addresses : List String
  snapshotSeconds : ℤ
  identityKey : IdentityKey
  signature : Bytes
  extensions : List (String × Value)
  keys_nodup : (reservedPeerAdvertKeys ++ extensions.map Prod.fst).Nodup := by decide
  keys_lt : ∀ key ∈ extensions.map Prod.fst, (utf8 key).length < 2 ^ 64 := by decide
  extensions_lt : extensions.length + 4 < 2 ^ 64 := by decide
  addresses_lt : addresses.length < 2 ^ 64 := by decide
  address_lt : ∀ address ∈ addresses, (utf8 address).length < 2 ^ 64 := by decide
  snapshotSeconds_lt : snapshotSeconds.natAbs < 2 ^ 64 := by decide
  alg_lt : identityKey.alg.natAbs < 2 ^ 64 := by decide
  publicKey_lt : identityKey.publicKey.length < 2 ^ 64 := by decide
deriving DecidableEq

/-! ## What is signed -/

/-- The encoding of the values in the tail of an advert, which fails on what is no data. -/
structure TailEncoding (Value : Type) where
  encode : Value → Option Bytes
  delimited : Delimited fun b => ∃ value, encode value = some b

def peerAdvertSigningContext : Bytes := utf8 "wire-mesh/peer-advert/v1\x00"

section Signing

variable {Value : Type} (encoding : TailEncoding Value)

/-- The entries of the tail that are signed. Setting a key by the name of `__proto__` sets the
    prototype of the object that is encoded, and no entry of it. -/
def signedTail : List (String × Value) → Option (List (String × Bytes))
  | [] => some []
  | (key, value) :: tail =>
    if key = "__proto__" then signedTail tail
    else do return (key, ← encoding.encode value) :: (← signedTail tail)

/-- All the entries but the signature. -/
def signedEntries (advert : PeerAdvert Value) : Option (List (String × Bytes)) := do
  let tail ← signedTail encoding advert.extensions
  return ("device", bytes advert.device.bytes) ::
    ("addresses", array (advert.addresses.map text)) ::
    ("snapshot-seconds", int advert.snapshotSeconds) ::
    (peerAdvertIdentityKeyKey, advert.identityKey.encode) :: tail

/-- The bytes that an advert's signature is over. -/
def peerAdvertSigningInput (advert : PeerAdvert Value) : Option Bytes := do
  let entries ← signedEntries encoding advert
  return peerAdvertSigningContext ++ object (entries.map fun e => (e.1, some e.2))

end Signing

/-! ## The checks -/

/-- The primitives that adverts are verified with. -/
structure PeerAdvertVerifier where
  /-- The key, the message and the signature. -/
  verify : IdentityKey → Bytes → Bytes → Except String Bool
  deriveDeviceId : Bytes → DeviceId

/-- The verdict on an advert, if the check of its signature gives one. -/
def checkPeerAdvert {Value : Type} (identity : PeerAdvertVerifier) (advert : PeerAdvert Value)
    (signedBytes : Bytes) : Option Bool :=
  if identity.deriveDeviceId advert.identityKey.publicKey ≠ advert.device then some false
  else (identity.verify advert.identityKey signedBytes advert.signature).toOption

def topologyPeersGossipKey : String := "topology/peers"

def coreVersionGossipKey : String := "wire-mesh/version"

/-- The extensions that every device writes, which a policy need not list. -/
def coreExtensionKeys : List String := [topologyPeersGossipKey, coreVersionGossipKey]

/-- The extensions that a hub carries, with the check of their values. -/
structure AdvertExtensionPolicy (Value : Type) where
  allowed : String → Option (Value → Bool)

/-- The key of the first entry that a policy does not allow. The fields of an advert are
    passed over. -/
def checkAdvertExtensions {Value : Type} (advert : PeerAdvert Value)
    (policy : AdvertExtensionPolicy Value) : Except String Unit :=
  match advert.extensions.find? fun e =>
    e.1 ∉ coreExtensionKeys && !((policy.allowed e.1).any fun validator => validator e.2) with
  | some e => .error e.1
  | none => .ok ()

/-! ## What is signed tells the device -/

section Injective

variable {Value : Type} {encoding : TailEncoding Value} {advert advert' : PeerAdvert Value}

theorem mem_signedTail {tail : List (String × Value)} {entries : List (String × Bytes)}
    (h : signedTail encoding tail = some entries) {e : String × Bytes} (he : e ∈ entries) :
    ∃ value, (e.1, value) ∈ tail ∧ encoding.encode value = some e.2 := by
  induction tail generalizing entries with
  | nil =>
    cases h
    cases he
  | cons x tail ih =>
    obtain ⟨key, value⟩ := x
    rw [signedTail] at h
    split at h
    · grind
    · simp only [bind, Option.bind_eq_some_iff, pure, Option.some.injEq] at h
      grind

theorem length_signedTail_le {tail : List (String × Value)} {entries : List (String × Bytes)}
    (h : signedTail encoding tail = some entries) : entries.length ≤ tail.length := by
  induction tail generalizing entries with
  | nil =>
    cases h
    rfl
  | cons x tail ih => grind [signedTail, Option.bind_eq_some_iff]

/-- The encoding of a key, with its entries in order. -/
theorem identityKey_encode (key : IdentityKey) :
    key.encode = rawMap [(text "alg", int key.alg), (text "public-key", bytes key.publicKey)] := by
  have hle : text "alg" ≤ text "public-key" := by decide
  simp [IdentityKey.encode, object, map, rawMap, hle]

theorem item_identityKey {key : IdentityKey} (halg : key.alg.natAbs < 2 ^ 64)
    (hpublic : key.publicKey.length < 2 ^ 64) : Item key.encode := by
  rw [identityKey_encode]
  refine .map (by simp) ?_ ?_
  · have halg : Item (text "alg") := .text (by decide)
    have hpublic : Item (text "public-key") := .text (by decide)
    simp [halg, hpublic]
  · have halg := item_int halg
    have hpublic : Item (bytes key.publicKey) := .bytes hpublic
    simp [halg, hpublic]

theorem identityKey_encode_injective {key key' : IdentityKey} (halg : key.alg.natAbs < 2 ^ 64)
    (hpublic : key.publicKey.length < 2 ^ 64) (halg' : key'.alg.natAbs < 2 ^ 64)
    (hpublic' : key'.publicKey.length < 2 ^ 64) (h : key.encode = key'.encode) : key = key' := by
  rw [identityKey_encode, identityKey_encode] at h
  simp only [rawMap, List.length_cons, List.length_nil, List.flatMap_cons, List.flatMap_nil,
    List.append_nil, List.append_assoc] at h
  replace h := List.append_cancel_left (List.append_cancel_left h)
  obtain ⟨hint, h⟩ := (item_int halg).append_inj (item_int halg') h
  have hbytes := bytes_injective hpublic hpublic' (List.append_cancel_left h)
  cases key
  cases key'
  grind [int_injective]

/-- The entries of the tail have other keys than the fields. -/
theorem notMem_reserved_of_mem {key : String} {value : Value}
    (h : (key, value) ∈ advert.extensions) : key ∉ reservedPeerAdvertKeys := fun hreserved =>
  (List.nodup_append.1 advert.keys_nodup).2.2 key hreserved key
    (List.mem_map_of_mem (f := Prod.fst) h) rfl

/-- An encoded value that can be under an encoded key: that of a field, or one of the tail. -/
def SignedValue (encoding : TailEncoding Value) (key value : Bytes) : Prop :=
  ∃ name, key = text name ∧ (utf8 name).length < 2 ^ 64 ∧
    (name ∈ reservedPeerAdvertKeys ∧ Item value ∨
      name ∉ reservedPeerAdvertKeys ∧ ∃ v, encoding.encode v = some value)

theorem delimited_signedValue (key : Bytes) : Delimited (SignedValue encoding key) := by
  rintro b b' ⟨name, rfl, hname, hb⟩ ⟨name', hkey, hname', hb'⟩ rest rest' h
  obtain rfl := text_injective hname hname' hkey
  rcases hb with ⟨hreserved, hb⟩ | ⟨hreserved, hb⟩
  · rcases hb' with ⟨-, hb'⟩ | ⟨hreserved', -⟩
    · exact delimited_item b b' hb hb' rest rest' h
    · exact absurd hreserved hreserved'
  · rcases hb' with ⟨hreserved', -⟩ | ⟨-, hb'⟩
    · exact absurd hreserved' hreserved
    · exact encoding.delimited b b' hb hb' rest rest' h

/-- What is signed: the entry of a field, or one of the tail. -/
theorem signedEntry_cases {entries : List (String × Bytes)}
    (h : signedEntries encoding advert = some entries) {e : String × Bytes} (he : e ∈ entries) :
    e = ("device", bytes advert.device.bytes) ∨
      e = ("addresses", array (advert.addresses.map text)) ∨
      e = ("snapshot-seconds", int advert.snapshotSeconds) ∨
      e = (peerAdvertIdentityKeyKey, advert.identityKey.encode) ∨
      ∃ value, (e.1, value) ∈ advert.extensions ∧ encoding.encode value = some e.2 := by
  simp only [signedEntries, bind, Option.bind_eq_some_iff, pure, Option.some.injEq] at h
  obtain ⟨tail, htail, rfl⟩ := h
  simp only [List.mem_cons] at he
  rcases he with he | he | he | he | he
  · exact .inl he
  · exact .inr (.inl he)
  · exact .inr (.inr (.inl he))
  · exact .inr (.inr (.inr (.inl he)))
  · exact .inr (.inr (.inr (.inr (mem_signedTail htail he))))

theorem utf8_reserved_lt : ∀ name ∈ reservedPeerAdvertKeys, (utf8 name).length < 2 ^ 64 := by
  decide

theorem signedValue_field {name : String} (hname : name ∈ reservedPeerAdvertKeys) {value : Bytes}
    (h : Item value) : (utf8 name).length < 2 ^ 64 ∧ SignedValue encoding (text name) value :=
  have hlt := utf8_reserved_lt name hname
  ⟨hlt, name, rfl, hlt, .inl ⟨hname, h⟩⟩

theorem signedValue_of_mem {entries : List (String × Bytes)}
    (h : signedEntries encoding advert = some entries) {e : String × Bytes} (he : e ∈ entries) :
    (utf8 e.1).length < 2 ^ 64 ∧ SignedValue encoding (text e.1) e.2 := by
  rcases signedEntry_cases h he with rfl | rfl | rfl | rfl | ⟨value, hmem, hvalue⟩
  · exact signedValue_field (by simp [reservedPeerAdvertKeys])
      (.bytes (by rw [advert.device.size]; decide))
  · refine signedValue_field (by simp [reservedPeerAdvertKeys])
      (.array (by rw [List.length_map]; exact advert.addresses_lt) ?_)
    rintro b hb
    obtain ⟨address, haddress, rfl⟩ := List.mem_map.1 hb
    exact .text (advert.address_lt address haddress)
  · exact signedValue_field (by simp [reservedPeerAdvertKeys]) (item_int advert.snapshotSeconds_lt)
  · exact signedValue_field (by simp [reservedPeerAdvertKeys])
      (item_identityKey advert.alg_lt advert.publicKey_lt)
  · have hlt := advert.keys_lt e.1 (List.mem_map_of_mem (f := Prod.fst) hmem)
    exact ⟨hlt, _, rfl, hlt, .inr ⟨notMem_reserved_of_mem hmem, value, hvalue⟩⟩

theorem length_signedEntries_lt {entries : List (String × Bytes)}
    (h : signedEntries encoding advert = some entries) : entries.length < 2 ^ 64 := by
  simp only [signedEntries, bind, Option.bind_eq_some_iff, pure, Option.some.injEq] at h
  obtain ⟨tail, htail, rfl⟩ := h
  have hle := length_signedTail_le htail
  grind [PeerAdvert.extensions_lt]

/-- The value that is signed under the key of a field is that of the field. -/
theorem signedEntry_field {entries : List (String × Bytes)}
    (h : signedEntries encoding advert = some entries) {e : String × Bytes} (he : e ∈ entries)
    (hreserved : e.1 ∈ reservedPeerAdvertKeys) :
    (e.1 = "device" → e.2 = bytes advert.device.bytes) ∧
      (e.1 = peerAdvertIdentityKeyKey → e.2 = advert.identityKey.encode) := by
  grind [signedEntry_cases, peerAdvertIdentityKeyKey, notMem_reserved_of_mem]

/-- The encoded entries that the signature is over. -/
def encodedEntries (entries : List (String × Bytes)) : List (Bytes × Bytes) :=
  entries.map fun e => (text e.1, e.2)

theorem object_eq_map (entries : List (String × Bytes)) :
    object (entries.map fun e => (e.1, some e.2)) = map (encodedEntries entries) := by
  simp [object, encodedEntries, List.filterMap_map]

/-- The entries that are signed are told from the bytes that are. -/
theorem mem_signedEntries_of_eq {input : Bytes}
    (h : peerAdvertSigningInput encoding advert = some input)
    (h' : peerAdvertSigningInput encoding advert' = some input) :
    ∃ entries entries', signedEntries encoding advert = some entries ∧
      signedEntries encoding advert' = some entries' ∧ ∀ e ∈ entries, e ∈ entries' := by
  simp only [peerAdvertSigningInput, bind, Option.bind_eq_some_iff, pure, Option.some.injEq,
    object_eq_map] at h h'
  obtain ⟨entries, hentries, rfl⟩ := h
  obtain ⟨entries', hentries', heq⟩ := h'
  refine ⟨entries, entries', hentries, hentries', ?_⟩
  have hsigned {advert : PeerAdvert Value} {entries : List (String × Bytes)}
      (h : signedEntries encoding advert = some entries) :
      ∀ e ∈ encodedEntries entries, Item e.1 ∧ SignedValue encoding e.1 e.2 := by
    rintro e he
    obtain ⟨e', he', rfl⟩ := List.mem_map.1 he
    obtain ⟨hlt, hvalue⟩ := signedValue_of_mem h he'
    exact ⟨.text hlt, hvalue⟩
  have hperm := perm_of_map_eq delimited_item delimited_signedValue (hsigned hentries)
    (hsigned hentries') (by simpa [encodedEntries] using length_signedEntries_lt hentries)
    (by simpa [encodedEntries] using length_signedEntries_lt hentries')
    (List.append_cancel_left heq.symm)
  rintro ⟨name, value⟩ he
  have hmem := hperm.subset (List.mem_map_of_mem (f := fun e => (text e.1, e.2)) he)
  obtain ⟨⟨name', value'⟩, he', heq⟩ := List.mem_map.1 hmem
  obtain ⟨hname, rfl⟩ := Prod.mk.inj heq
  obtain rfl := text_injective (signedValue_of_mem hentries' he').1
    (signedValue_of_mem hentries he).1 hname
  exact he'

/-- What is signed tells the device and its key. -/
theorem eq_of_peerAdvertSigningInput_eq {input : Bytes}
    (h : peerAdvertSigningInput encoding advert = some input)
    (h' : peerAdvertSigningInput encoding advert' = some input) :
    advert.device = advert'.device ∧ advert.identityKey = advert'.identityKey := by
  obtain ⟨entries, entries', hentries, hentries', hsub⟩ := mem_signedEntries_of_eq h h'
  have hfields : ("device", bytes advert.device.bytes) ∈ entries ∧
      (peerAdvertIdentityKeyKey, advert.identityKey.encode) ∈ entries := by
    simp only [signedEntries, bind, Option.bind_eq_some_iff, pure, Option.some.injEq] at hentries
    obtain ⟨tail, -, rfl⟩ := hentries
    simp
  constructor
  · have hdevice := (signedEntry_field hentries' (hsub _ hfields.1)
      (by simp [reservedPeerAdvertKeys])).1 rfl
    grind [DeviceId.bytes_injective, bytes_injective, DeviceId.size]
  · have hkey := (signedEntry_field hentries' (hsub _ hfields.2)
      (by simp [reservedPeerAdvertKeys])).2 rfl
    grind [identityKey_encode_injective, PeerAdvert.alg_lt, PeerAdvert.publicKey_lt]

theorem checkPeerAdvert_congr {identity : PeerAdvertVerifier} {input : Bytes}
    (h : peerAdvertSigningInput encoding advert = some input)
    (h' : peerAdvertSigningInput encoding advert' = some input)
    (hsignature : advert.signature = advert'.signature) :
    checkPeerAdvert identity advert input = checkPeerAdvert identity advert' input := by
  grind [eq_of_peerAdvertSigningInput_eq, checkPeerAdvert]

end Injective

end WireMesh.TypeScript
