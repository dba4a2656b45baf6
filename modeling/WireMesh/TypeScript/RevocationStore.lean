import WireMesh.TypeScript.DataSync
import WireMesh.TypeScript.RevocationView

/-!
# The revocation store of the web console

The console keeps the revocations it mints and hears of in a view, for the
verifier to consult, and in a key/value storage, from which the view is rebuilt
on a reload. The view is a log; the storage has one entry for each issuer and
token-id, the last one ingested (`storageKey_inj`).

* `RevocationStore.Reachable`: the stores that ingesting, revoking, discarding
  and reloading lead to.
* `mem_entriesFor_create`: a rebuilt view has just what is stored.
-/

namespace WireMesh.TypeScript

/-! ## Storage -/

/-- The keys that start with a text. The port lists them in no particular order. -/
def KeyValueStorage.keysFrom (storage : KeyValueStorage) (start : String) : List String :=
  storage.keys.filter fun key => start.toList.isPrefixOf key.toList

def keyPrefix : String := "revocation/"

/-- The key under which an entry with the claims is stored. -/
def storageKey (claims : RevocationClaims) : String :=
  keyPrefix ++ bytesToHex claims.issuer.bytes ++ "/" ++ bytesToHex claims.tokenId

/-- The key tells the issuer and the token-id: the texts of device-ids are all of a length. -/
theorem storageKey_inj {a b : RevocationClaims} :
    storageKey a = storageKey b ↔ a.issuer = b.issuer ∧ a.tokenId = b.tokenId := by
  constructor
  · intro h
    have h := congrArg String.toList h
    simp only [storageKey, String.toList_append, List.append_assoc] at h
    grind [bytesToHex_length, DeviceId.size, List.append_inj, DeviceId.bytes_injective,
      bytesToHex_injective, String.toList_injective]
  · grind [storageKey]

theorem isPrefixOf_storageKey {claims : RevocationClaims} :
    keyPrefix.toList.isPrefixOf (storageKey claims).toList := by
  simp [storageKey, List.append_assoc]

/-! ## The store -/

/-- Why stored bytes are not an entry. -/
inductive StoredFault
  | notCbor
  | notEntry
deriving DecidableEq

def StoredFault.reason : StoredFault → String
  | notCbor => "it is not valid CBOR"
  | notEntry => "it is not a revocation entry"

def RevocationEntryVerdictReason.name : RevocationEntryVerdictReason → String
  | malformed => "malformed"
  | badSignature => "bad_signature"
  | wrongIssuer => "wrong_issuer"

/-- What entries are verified with, and what stored bytes decode to. -/
structure RevocationStoreOptions extends VerifyRevocationEntryOptions where
  entry : Bytes → Except StoredFault RevocationEntry

/-- A stored revocation that could not be loaded. -/
structure UnreadableRevocation where
  key : String
  reason : String
deriving DecidableEq

structure RevocationStore where
  view : RevocationView
  storage : KeyValueStorage
  unreadable : List UnreadableRevocation

section Store

variable (options : RevocationStoreOptions)

/-- The view with a stored entry, or the reason why it could not be loaded. -/
def loadStored (view : RevocationView) (value : Bytes) :
    Except String (Except String RevocationView) :=
  match options.entry value with
  | .error fault => .ok (.error fault.reason)
  | .ok entry => match view.record options.toVerifyRevocationEntryOptions entry with
    | (view, .ok (.ok _)) => .ok (.ok view)
    | (_, .ok (.error reason)) => .ok (.error ("it no longer verifies (" ++ reason.name ++ ")"))
    | (_, .error message) => .error message

/-- The view with the entries under the keys, and what could not be loaded. It fails where
    the check of a signature does. -/
def loadKeys (storage : KeyValueStorage) :
    List String → RevocationView → Except String (RevocationView × List UnreadableRevocation)
  | [], view => .ok (view, [])
  | key :: keys, view => match storage.lookup key with
    | none => loadKeys storage keys view
    | some value => do
      match ← loadStored options view value with
      | .ok view => loadKeys storage keys view
      | .error reason =>
        let (view, unreadable) ← loadKeys storage keys view
        return (view, { key, reason } :: unreadable)

/-- The store over a storage. All the entries are loaded at once; `keys` are their keys in
    the order in which that ends. -/
def createRevocationStore (storage : KeyValueStorage) (keys : List String) :
    Except String RevocationStore := do
  let (view, unreadable) ← loadKeys options storage keys .createRevocationView
  return { view, storage, unreadable }

/-- The entry by which a device revokes a token it issued. -/
def mintRevocationEntry (identity : Identity) (tokenId : Bytes) (revokedAt : ℕ) :
    RevocationEntry :=
  let claims : RevocationClaims :=
    { tokenId
      issuer := identity.deviceId
      issuerKey := identity.identityKey
      revokedAt }
  identity.seal claims.encode

namespace RevocationStore

/-- An entry that verifies is recorded and stored. -/
def ingest (store : RevocationStore) (entry : RevocationEntry) :
    RevocationStore × Except String RevocationEntryVerdict :=
  match store.view.record options.toVerifyRevocationEntryOptions entry with
  | (view, .ok (.ok claims)) =>
    -- The view appends, the storage overwrites what is under the key.
    ({ store with view, storage := store.storage.insert (storageKey claims) entry.encode },
      .ok (.ok claims))
  | (view, verdict) => ({ store with view }, verdict)

def revoke (store : RevocationStore) (tokenId : Bytes) (now : ℕ) :
    RevocationStore × Except String RevocationEntry :=
  let entry := mintRevocationEntry options.identity tokenId now
  match store.ingest options entry with
  | (store, .ok (.ok _)) => (store, .ok entry)
  | (store, .ok (.error reason)) => (store,
      .error ("the revocation this device signed does not verify (" ++ reason.name ++ ")"))
  | (store, .error message) => (store, .error message)

def discardUnreadable (store : RevocationStore) (key : String) : RevocationStore :=
  { store with
    storage := store.storage.erase key
    unreadable := store.unreadable.filter fun u => u.key ≠ key }

/-- The store that the console comes to have, from none in the storage, when every entry it
    ingests or mints meets a condition in the store it comes to. -/
inductive Reachable (meets : RevocationStore → RevocationEntry → Prop) : RevocationStore → Prop
  | fresh {storage : KeyValueStorage} : storage.keysFrom keyPrefix = [] →
      Reachable meets { view := .createRevocationView, storage, unreadable := [] }
  | ingest {store : RevocationStore} {entry : RevocationEntry} : Reachable meets store →
      meets store entry → Reachable meets (store.ingest options entry).1
  | revoke {store : RevocationStore} {tokenId : Bytes} {now : ℕ} : Reachable meets store →
      meets store (mintRevocationEntry options.identity tokenId now) →
      Reachable meets (store.revoke options tokenId now).1
  | discardUnreadable {store : RevocationStore} {u : UnreadableRevocation} :
      Reachable meets store → u ∈ store.unreadable → Reachable meets (store.discardUnreadable u.key)
  | reload {store store' : RevocationStore} {keys : List String} : Reachable meets store →
      keys.Perm (store.storage.keysFrom keyPrefix) →
      createRevocationStore options store.storage keys = .ok store' → Reachable meets store'

end RevocationStore

end Store

/-! ## What is stored -/

/-- Under their key, an entry with the claims is stored. -/
def Stores (options : RevocationStoreOptions) (storage : KeyValueStorage)
    (claims : RevocationClaims) : Prop :=
  ∃ value entry, storage.lookup (storageKey claims) = some value ∧
    options.entry value = .ok entry ∧
    verifyRevocationEntry options.toVerifyRevocationEntryOptions entry = .ok (.ok claims)

section Stores

variable {options : RevocationStoreOptions} {storage : KeyValueStorage}
  {claims : RevocationClaims}

theorem Stores.unique {claims' : RevocationClaims} (h : Stores options storage claims)
    (h' : Stores options storage claims') (hkey : storageKey claims = storageKey claims') :
    claims = claims' := by
  obtain ⟨value, entry, hvalue, hentry, hverdict⟩ := h
  obtain ⟨value', entry', hvalue', hentry', hverdict'⟩ := h'
  grind

theorem Stores.mem_keysFrom (h : Stores options storage claims) :
    storageKey claims ∈ storage.keysFrom keyPrefix := by
  obtain ⟨value, -, hvalue, -⟩ := h
  refine List.mem_filter.2 ⟨?_, isPrefixOf_storageKey⟩
  exact AList.mem_keys.1 (AList.lookup_isSome.1 (hvalue ▸ rfl))

/-- Storing an entry does not touch what is under other keys. -/
theorem stores_insert_of_ne {key : String} {value : Bytes} (hne : storageKey claims ≠ key) :
    Stores options (storage.insert key value) claims ↔ Stores options storage claims := by
  simp only [Stores, AList.lookup_insert_ne hne]

theorem mem_keysFrom_insert {key key' start : String} {value : Bytes}
    (h : key' ∈ KeyValueStorage.keysFrom (storage.insert key value) start) (hne : key' ≠ key) :
    key' ∈ storage.keysFrom start := by
  obtain ⟨hmem, hstart⟩ := List.mem_filter.1 h
  refine List.mem_filter.2 ⟨?_, hstart⟩
  exact AList.mem_keys.1 (((AList.mem_insert _).1 (AList.mem_keys.2 hmem)).resolve_left hne)

/-- Where every key has the entry it is for, all of them are loaded. -/
theorem loadKeys_of_stores {keys : List String} (view : RevocationView)
    (h : ∀ key ∈ keys, ∃ claims, key = storageKey claims ∧ Stores options storage claims) :
    ∃ view', loadKeys options storage keys view = .ok (view', []) ∧
      ∀ tokenId c, c ∈ view'.entriesFor tokenId ↔ c ∈ view.entriesFor tokenId ∨
        (c.tokenId = tokenId ∧ storageKey c ∈ keys ∧ Stores options storage c) := by
  induction keys generalizing view with
  | nil => exact ⟨view, rfl, by simp⟩
  | cons key keys ih =>
    obtain ⟨⟨claims, rfl, hstores⟩, hkeys⟩ := List.forall_mem_cons.1 h
    obtain ⟨value, entry, hvalue, hentry, hverdict⟩ := id hstores
    obtain ⟨view', hload, hmem⟩ := ih (view.push claims) hkeys
    refine ⟨view', ?_, fun tokenId c => ?_⟩
    · rw [loadKeys, hvalue, ← hload]
      simp only [loadStored, hentry, RevocationView.record, hverdict]
      rfl
    · rw [hmem, RevocationView.entriesFor_push, List.mem_append, List.mem_filter,
        List.mem_singleton, decide_eq_true_eq, List.mem_cons, or_assoc]
      refine or_congr_right ?_
      -- what is stored under the key is the one entry loaded from it
      grind [Stores.unique]

/-- A store over them is created, and its view has just what is stored. -/
theorem mem_entriesFor_create {keys : List String}
    (hkeys : keys.Perm (storage.keysFrom keyPrefix))
    (h : ∀ key ∈ storage.keysFrom keyPrefix, ∃ claims, key = storageKey claims ∧
      Stores options storage claims) :
    ∃ view, createRevocationStore options storage keys =
        .ok { view, storage, unreadable := [] } ∧
      ∀ tokenId c, c ∈ view.entriesFor tokenId ↔
        c.tokenId = tokenId ∧ Stores options storage c := by
  obtain ⟨view, hload, hmem⟩ := loadKeys_of_stores .createRevocationView
    fun key hkey => h key (hkeys.mem_iff.1 hkey)
  refine ⟨view, ?_, fun tokenId c => ?_⟩
  · rw [createRevocationStore, hload]
    rfl
  · grind [RevocationView.entriesFor_create, Stores.mem_keysFrom]

end Stores

/-! ## Stores that mirror their storage -/

namespace RevocationStore

/-- All that is stored is in the view, and for all that is in the view an entry of the same
    issuer is stored, on the same authorization. -/
@[grind cases]
structure Mirrors (options : RevocationStoreOptions) (store : RevocationStore) : Prop where
  readable : store.unreadable = []
  stored : ∀ key ∈ store.storage.keysFrom keyPrefix, ∃ claims, key = storageKey claims ∧
    Stores options store.storage claims ∧ claims ∈ store.view.entriesFor claims.tokenId
  covered : ∀ tokenId, ∀ c ∈ store.view.entriesFor tokenId, ∃ c', c'.tokenId = tokenId ∧
    Stores options store.storage c' ∧ c'.issuer = c.issuer ∧ c'.authorization = c.authorization

/-- The entry reads back from its encoding, and has the authorization of those that the view
    already has of the same issuer about the same token. -/
@[grind cases]
structure Repeats (options : RevocationStoreOptions) (store : RevocationStore)
    (entry : RevocationEntry) : Prop where
  roundTrips : options.entry entry.encode = .ok entry
  authorization_eq : ∀ claims, verifyRevocationEntry options.toVerifyRevocationEntryOptions entry =
      .ok (.ok claims) →
    ∀ c ∈ store.view.entriesFor claims.tokenId, c.issuer = claims.issuer →
      c.authorization = claims.authorization

variable {options : RevocationStoreOptions} {store : RevocationStore} {entry : RevocationEntry}

theorem ingest_of_ok {claims : RevocationClaims}
    (h : verifyRevocationEntry options.toVerifyRevocationEntryOptions entry = .ok (.ok claims)) :
    (store.ingest options entry).1 =
      { store with
        view := store.view.push claims
        storage := store.storage.insert (storageKey claims) entry.encode } := by
  rw [ingest, RevocationView.record, h]

theorem ingest_of_not_ok
    (h : ∀ claims, verifyRevocationEntry options.toVerifyRevocationEntryOptions entry ≠
      .ok (.ok claims)) : (store.ingest options entry).1 = store := by
  rw [ingest, RevocationView.record]
  rcases hverdict : verifyRevocationEntry options.toVerifyRevocationEntryOptions entry with
    message | reason | claims
  · rfl
  · rfl
  · exact absurd hverdict (h claims)

theorem revoke_fst {tokenId : Bytes} {now : ℕ} :
    (store.revoke options tokenId now).1 =
      (store.ingest options (mintRevocationEntry options.identity tokenId now)).1 := by
  rw [revoke]
  split <;> simp [*]

theorem mirrors_fresh {storage : KeyValueStorage} (h : storage.keysFrom keyPrefix = []) :
    Mirrors options { view := .createRevocationView, storage, unreadable := [] } where
  readable := rfl
  stored := by simp [h]
  covered := by simp

/-- Ingesting an entry like those before keeps the mirror. -/
theorem Mirrors.ingest (h : store.Mirrors options) (hentry : store.Repeats options entry) :
    (store.ingest options entry).1.Mirrors options := by
  by_cases hok : ∃ claims, verifyRevocationEntry options.toVerifyRevocationEntryOptions entry =
      .ok (.ok claims)
  swap
  · grind [ingest_of_not_ok]
  obtain ⟨claims, hclaims⟩ := hok
  rw [ingest_of_ok hclaims]
  have hstores : Stores options (store.storage.insert (storageKey claims) entry.encode) claims :=
    ⟨_, entry, AList.lookup_insert _, hentry.roundTrips, hclaims⟩
  refine ⟨h.readable, fun key hkey => ?_, fun tokenId c hc => ?_⟩
  · by_cases hsame : key = storageKey claims
    · grind [RevocationView.entriesFor_push]
    · obtain ⟨c, rfl, hc, hmem⟩ := h.stored key (mem_keysFrom_insert hkey hsame)
      grind [stores_insert_of_ne, RevocationView.entriesFor_push]
  · rw [RevocationView.entriesFor_push] at hc
    rcases List.mem_append.1 hc with hc | hc
    · obtain ⟨c', rfl, hc', hissuer, hauthorization⟩ := h.covered tokenId c hc
      -- the entry takes the place of the one stored, which has the same authorization
      grind [storageKey_inj, stores_insert_of_ne]
    · grind

/-- A view rebuilt from the storage mirrors it, and revokes on the same authority. -/
theorem Mirrors.create (h : store.Mirrors options) {keys : List String}
    (hkeys : keys.Perm (store.storage.keysFrom keyPrefix)) :
    ∃ rebuilt, createRevocationStore options store.storage keys = .ok rebuilt ∧
      rebuilt.Mirrors options ∧
      ∀ tokenId, SameAuthority (store.view.entriesFor tokenId)
        (rebuilt.view.entriesFor tokenId) := by
  obtain ⟨view, hcreate, hmem⟩ := mem_entriesFor_create hkeys fun key hkey =>
    let ⟨claims, heq, hstores, _⟩ := h.stored key hkey
    ⟨claims, heq, hstores⟩
  refine ⟨_, hcreate, ⟨rfl, fun key hkey => ?_, fun tokenId c hc => ?_⟩,
    fun tokenId => ⟨fun c hc => ?_, fun c hc => ?_⟩⟩
  · grind
  · grind
  · grind
  · obtain ⟨rfl, hstores⟩ := (hmem _ _).1 hc
    obtain ⟨claims, heq, hclaims, hin⟩ := h.stored _ hstores.mem_keysFrom
    grind [Stores.unique]

/-- A store mirrors its storage as long as no entry comes with another authorization than
    those before it. -/
theorem Reachable.mirrors (h : Reachable options (Repeats options) store) :
    store.Mirrors options := by
  induction h with
  | fresh hkeys => exact mirrors_fresh hkeys
  | ingest _ hentry ih => exact ih.ingest hentry
  | revoke _ hentry ih =>
    rw [revoke_fst]
    exact ih.ingest hentry
  | discardUnreadable _ hu ih =>
    rw [ih.readable] at hu
    cases hu
  | reload _ hkeys hcreate ih => grind [Mirrors.create]

end RevocationStore

end WireMesh.TypeScript
