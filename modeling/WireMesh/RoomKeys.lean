import WireMesh.Fallible
import WireMesh.Membership
import WireMesh.TypeScript.RoomRekey

/-!
# Keys that a room's owner has wrapped

A member of a room takes the content keys that it can unwrap. AES-GCM is ideal: what is unwrapped
with a key has been wrapped with it. So the keys come from whoever knows the secret that the member
shares with the root of its token, and each of them for its room, and for an epoch that has the same
64 bits as the one it is stored under.

Nothing is asked of the number of the keys. An array need not begin with the first epoch, it may
begin before it, and it may be empty.

* `wrap_of_delivered`: what has been wrapped, for whatever is stored.
* `rekey_complete`: the keys are those of the epochs from the first to the one of the request, if
  and only if there are so many (or some key does not unwrap).
-/

namespace WireMesh

open TypeScript Async

/-- A content key that has been wrapped for an epoch of a room. -/
structure Wrap where
  room : String
  keyEpoch : ℕ
  contentKey : Bytes
  fits : keyEpoch < 2 ^ 64

/-- Nothing is decrypted but what has been wrapped with the same secret, and keys are derived for
    one purpose each. -/
@[grind cases]
structure Ideal {Key : Type} (crypto : SymmetricCrypto Key) (wraps : Bytes → Set Wrap) : Prop where
  deriveKey_injective : ∀ secret, Function.Injective (crypto.deriveKey secret)
  wrapped : ∀ secret info iv ciphertext contentKey,
    crypto.decrypt (crypto.deriveKey secret info) iv ciphertext = some contentKey →
    ∃ w ∈ wraps secret, deriveWrappingKey crypto secret w.room w.keyEpoch =
      crypto.deriveKey secret info ∧ w.contentKey = contentKey

def Authenticated (wraps : Bytes → Set Wrap) (secret : Bytes) (room : String) (epoch : ℤ)
    (contentKey : Bytes) : Prop :=
  ∃ w ∈ wraps secret, w.room = room ∧ w.keyEpoch = epoch ∧ w.contentKey = contentKey

section Unwrapping

variable {Key : Type} {options : CreateRoomRekeyHandlerOptions Key} {wraps : Bytes → Set Wrap}
  {secret : Bytes} {room : String}

theorem wrap_of_unwrapContentKey (hideal : Ideal options.crypto wraps) {epoch : ℤ}
    {wrapped contentKey : Bytes}
    (h : unwrapContentKey options.crypto (deriveWrappingKey options.crypto secret room epoch)
      wrapped = .ok contentKey) :
    ∃ w ∈ wraps secret, w.room = room ∧ w.keyEpoch = epoch % 2 ^ 64 ∧
      w.contentKey = contentKey := by
  rw [unwrapContentKey] at h
  split_ifs at h
  split at h
  · cases h
  · next hdecrypt =>
    obtain rfl := Except.ok.inj h
    obtain ⟨w, hw, hkey, hcontent⟩ := hideal.wrapped _ _ _ _ _ hdecrypt
    obtain ⟨hroom, hepoch⟩ := hkdfInfo_injective (hideal.deriveKey_injective secret hkey)
    grind [Wrap.fits]

variable {parsed : RoomRekey} {contentKeys : List Bytes}

theorem length_of_unwrapKeys (h : unwrapKeys options room parsed secret = .ok contentKeys) :
    contentKeys.length = parsed.wrappedKeys.length := by
  simpa using (forall₂_of_mapM h).length_eq.symm

/-- Each key has been unwrapped for the epoch that it is stored under. -/
theorem unwrap_of_delivered (h : unwrapKeys options room parsed secret = .ok contentKeys)
    {epoch : ℤ} {key : Bytes}
    (hmem : (epoch, key) ∈
      RoomRekeyEvent.delivered { room, keyEpoch := parsed.keyEpoch, contentKeys }) :
    ∃ wrapped, unwrapContentKey options.crypto
      (deriveWrappingKey options.crypto secret room epoch) wrapped = .ok key := by
  obtain ⟨⟨key', i⟩, hentry, heq⟩ := List.mem_map.1 hmem
  obtain ⟨rfl, rfl⟩ := Prod.mk.inj heq
  have hlength := length_of_unwrapKeys h
  obtain ⟨hi, hkey⟩ := List.getElem?_eq_some_iff.1 (List.mem_zipIdx_iff_getElem?.1 hentry)
  change i < contentKeys.length at hi
  have hi' : i < parsed.wrappedKeys.length := hlength ▸ hi
  have hget := (List.forall₂_iff_get.1 (forall₂_of_mapM h)).2 i (by simpa using hi') hi
  grind [RoomRekey.firstEpoch]

theorem wrap_of_delivered (hideal : Ideal options.crypto wraps)
    (h : unwrapKeys options room parsed secret = .ok contentKeys) {epoch : ℤ} {key : Bytes}
    (hmem : (epoch, key) ∈
      RoomRekeyEvent.delivered { room, keyEpoch := parsed.keyEpoch, contentKeys }) :
    ∃ w ∈ wraps secret, w.room = room ∧ w.keyEpoch = epoch % 2 ^ 64 ∧ w.contentKey = key := by
  grind [unwrap_of_delivered, wrap_of_unwrapContentKey]

end Unwrapping

/-! ## Complete keys -/

/-- The keys that the application is given are authentic, and there are as many as there should
    be. -/
@[grind cases]
structure CompleteRekey {Key : Type} (options : CreateRoomRekeyHandlerOptions Key)
    (wraps : Bytes → Set Wrap) (incoming : IncomingManageRequest) (event : RoomRekeyEvent) :
    Prop where
  room : incoming.scope.path = some event.room
  keyEpoch : incoming.params.keyEpoch = some (.integer event.keyEpoch)
  nonempty : event.contentKeys ≠ []
  authenticated : ∃ verdict deriveSharedSecret secret,
    (options.roomToken event.room).Accepts options.ownRoomMemberToken verdict ∧
    options.deriveSharedSecret = some deriveSharedSecret ∧
    deriveSharedSecret verdict.rootIssuerKey = .ok secret ∧
    ∀ epoch key, (epoch, key) ∈ event.delivered →
      Authenticated wraps secret event.room epoch key
  positive : ∀ epoch key, (epoch, key) ∈ event.delivered → 0 < epoch
  covers : ∀ wrapped, incoming.params.wrappedKey = some (.array wrapped) →
    event.delivered.map Prod.fst = (List.range event.keyEpoch).map fun i : ℕ => (i : ℤ) + 1

theorem of_roomRekeySchema {params : RoomRekeyParams} {parsed : RoomRekey}
    (h : roomRekeySchema params = some parsed) :
    params.keyEpoch = some (.integer parsed.keyEpoch) ∧ (parsed.keyEpoch : ℤ) ≤ maxSafeInteger ∧
      params.wrappedKey = some parsed.wrappedKey := by
  obtain ⟨-, -, h⟩ := Option.bind_eq_some_iff.1 h
  grind [Option.bind_eq_some_iff, JsNumber.of_parseNonnegative]

theorem mem_delivered_le {event : RoomRekeyEvent} {epoch : ℤ} {key : Bytes}
    (h : (epoch, key) ∈ event.delivered) :
    (event.keyEpoch : ℤ) - event.contentKeys.length < epoch ∧ epoch ≤ event.keyEpoch := by
  obtain ⟨⟨key', i⟩, hentry, heq⟩ := List.mem_map.1 h
  grind

/-- With as many keys as epochs, the first one is for the first epoch. -/
theorem epochs_of_length {event : RoomRekeyEvent}
    (h : event.contentKeys.length = event.keyEpoch) :
    event.delivered.map Prod.fst = (List.range event.keyEpoch).map fun i : ℕ => (i : ℤ) + 1 := by
  have hindices : event.contentKeys.zipIdx.map Prod.snd = List.range event.keyEpoch := by
    rw [List.zipIdx_map_snd, h, List.range_eq_range']
  grind [RoomRekeyEvent.delivered, List.map_congr_left]

namespace Sample

def wrapFor (keyEpoch : ℕ) (contentKey : UInt8) (fits : keyEpoch < 2 ^ 64) : Wrap where
  room := room
  keyEpoch := keyEpoch
  contentKey := [contentKey]
  fits := fits

/-- What the owner of the room has wrapped. -/
def wrapped : List Wrap :=
  [wrapFor 0 10 (by decide), wrapFor 1 11 (by decide), wrapFor 2 12 (by decide),
    wrapFor (2 ^ 64 - 1) 13 (by decide)]

def wraps (secret : Bytes) : Set Wrap := {w | secret = [9] ∧ w ∈ wrapped}

/-- A key is what it is derived from, and only what has been wrapped is decrypted. -/
def crypto : SymmetricCrypto (Bytes × Bytes) where
  deriveKey secret info := (secret, info)
  decrypt key _ ciphertext := (wrapped.find? fun w =>
    ([9], hkdfInfo w.room w.keyEpoch) = key ∧ w.contentKey = ciphertext).map Wrap.contentKey

theorem ideal_crypto : Ideal crypto wraps where
  deriveKey_injective _ _ _ h := (Prod.mk.inj h).2
  wrapped secret info iv ciphertext contentKey h := by
    obtain ⟨w, hw, rfl⟩ := Option.map_eq_some_iff.1 h
    have hfound := List.find?_some hw
    obtain ⟨hkey, -⟩ := of_decide_eq_true hfound
    obtain ⟨rfl, hinfo⟩ := Prod.mk.inj hkey
    exact ⟨w, ⟨rfl, List.mem_of_find?_eq_some hw⟩, hkey, rfl⟩

/-- Device 2, as a member of the room. -/
def rekeyOptions : CreateRoomRekeyHandlerOptions (Bytes × Bytes) where
  toVerifyOptions := { VerifyOptions.sample roomLinks [] with identity := .sample 2 }
  deriveSharedSecret := some fun _ => .ok [9]
  ownRoomMemberToken := (Link.sample 1 membership).token
  onRekey _ := .ok ()
  crypto := crypto

def rekey (keyEpoch : ℕ) (wrappedKey : WrappedKey) : IncomingManageRequest where
  verb := roomMemberCapability
  params := {
    verb := some "room.rekey"
    keyEpoch := some (.integer keyEpoch)
    wrappedKey := some wrappedKey }
  scope := { kind := "room", path := some room }

def wrappedFor (contentKey : UInt8) : Bytes := List.replicate 12 0 ++ [contentKey]

theorem rekeyOptions_accepts : (rekeyOptions.roomToken room).Accepts rekeyOptions.ownRoomMemberToken
    { claims := membership, rootIssuerKey := membership.issuerKey } := by
  have hmem : .sample 1 membership ∈ roomLinks := by simp [roomLinks]
  obtain ⟨hkind, hpath, hissuer⟩ := roomLinks_scope hmem
  refine accepts_iff.2 ⟨.ofChain (.sample 1 membership) [], ?_, hkind, hpath,
    ⟨_, room_parse, congrArg deviceIdToHex hissuer⟩, rfl⟩
  refine TypeScript.returns_of_root TypeScript.Trilean.sample_kleene (roomTokenOptions_reads hmem)
    rfl ?_ ?_ fun bearer hbearer => Option.some.inj hbearer
  · exact TypeScript.admits_sample rfl rfl rfl (by decide) rfl (by decide)
  · exact TypeScript.holds_of_no_conditions rfl

/-- The member stores what it can unwrap. -/
theorem rekeyOptions_handles (keyEpoch : ℕ) (wrappedKey : WrappedKey) (contentKeys : List Bytes)
    (hsafe : (keyEpoch : ℤ) ≤ maxSafeInteger)
    (hkeys : unwrapKeys rekeyOptions room { keyEpoch, wrappedKey } [9] = .ok contentKeys) :
    rekeyOptions.Handles (rekey keyEpoch wrappedKey)
      ⟨[.onRekey { room, keyEpoch, contentKeys }, .respond .ok], none⟩ := by
  refine handles_of_accepts (accepts_unwrapRekey.2 ⟨rfl, { keyEpoch, wrappedKey }, ?_, rfl, room,
    rfl, _, rekeyOptions_accepts, _, rfl, contentKeys, hkeys, rfl⟩)
  rw [roomRekeySchema, rekey]
  simp [JsNumber.parseNonnegative_natCast hsafe]

end Sample

/-- The request is well formed, the member's token of the room is accepted, and every key unwraps
    for the epoch that it would be stored under. -/
def Opens {Key : Type} (options : CreateRoomRekeyHandlerOptions Key)
    (incoming : IncomingManageRequest) : Prop :=
  incoming.verb = roomMemberCapability ∧
    ∃ parsed, roomRekeySchema incoming.params = some parsed ∧
    incoming.scope.kind = "room" ∧ ∃ roomPath, incoming.scope.path = some roomPath ∧
    ∃ verdict, (options.roomToken roomPath).Accepts options.ownRoomMemberToken verdict ∧
    ∃ deriveSharedSecret, options.deriveSharedSecret = some deriveSharedSecret ∧
    ∃ contentKeys, (deriveSharedSecret verdict.rootIssuerKey >>=
      unwrapKeys options roomPath parsed) = .ok contentKeys

/-- The epoch is positive, and an array has as many keys as there are epochs. -/
def RoomRekeyParams.Full (params : RoomRekeyParams) : Prop :=
  params.keyEpoch ≠ some (.integer 0) ∧
    ∀ wrapped, params.wrappedKey = some (.array wrapped) →
      params.keyEpoch = some (.integer wrapped.length)

section Complete

variable {Key : Type} {options : CreateRoomRekeyHandlerOptions Key} {wraps : Bytes → Set Wrap}
  {incoming : IncomingManageRequest} {event : RoomRekeyEvent}

theorem completeRekey_of_full (hideal : Ideal options.crypto wraps)
    (hfull : RoomRekeyParams.Full incoming.params)
    (h : Accepts (Async.Returns (verifyCapabilityToken options.toVerifyOptions.ofRoom))
      (unwrapRekey options incoming) event) : CompleteRekey options wraps incoming event := by
  obtain ⟨-, parsed, hparsed, -, roomPath, hpath, verdict, hverdict, derive, hderive, contentKeys,
    hkeys, rfl⟩ := accepts_unwrapRekey.1 h
  obtain ⟨secret, hsecret, hkeys⟩ := of_bind_eq_ok hkeys
  obtain ⟨hepoch, hsafe, hwrapped⟩ := of_roomRekeySchema hparsed
  have hne : parsed.keyEpoch ≠ 0 := by
    rintro h
    rw [h] at hepoch
    exact hfull.1 hepoch
  -- One key, or as many as there are epochs.
  have hlength : contentKeys.length ≤ parsed.keyEpoch ∧ contentKeys ≠ [] ∧
      ∀ wrapped, parsed.wrappedKey = .array wrapped → contentKeys.length = parsed.keyEpoch := by
    rw [← List.length_pos_iff_ne_nil, length_of_unwrapKeys hkeys, RoomRekey.wrappedKeys]
    rcases hkey : parsed.wrappedKey with wrapped | wrapped
    · simpa [Nat.one_le_iff_ne_zero] using hne
    · have h := (hfull.2 wrapped (hkey ▸ hwrapped)).symm.trans hepoch
      have hlength : wrapped.length = parsed.keyEpoch := by simpa using h
      simp [hlength]
      omega
  obtain ⟨hle, hnonempty, hcovers⟩ := hlength
  have hpos : ∀ epoch key, (epoch, key) ∈
      RoomRekeyEvent.delivered { room := roomPath, keyEpoch := parsed.keyEpoch, contentKeys } →
      0 < epoch := by
    intro epoch key hmem
    have h := (mem_delivered_le hmem).1
    dsimp only at h
    omega
  refine ⟨hpath, hepoch, hnonempty, ⟨verdict, derive, secret, hverdict, hderive, hsecret, ?_⟩,
    hpos, fun wrapped h => epochs_of_length (hcovers wrapped ?_)⟩
  · intro epoch key hmem
    obtain ⟨w, hw, hroom, hkeyEpoch, hkey⟩ := wrap_of_delivered hideal hkeys hmem
    have hle := (mem_delivered_le hmem).2
    have hpos := hpos epoch key hmem
    rw [maxSafeInteger] at hsafe
    dsimp only at hle
    exact ⟨w, hw, hroom, by omega, hkey⟩
  · exact Option.some.inj (hwrapped.symm.trans h)

/-- There are as many epochs as keys, and the last one is the one of the request. -/
theorem CompleteRekey.full (h : CompleteRekey options wraps incoming event)
    (hlength : ∀ wrapped, incoming.params.wrappedKey = some (.array wrapped) →
      event.contentKeys.length = wrapped.length) : RoomRekeyParams.Full incoming.params := by
  refine ⟨fun hzero => ?_, fun wrapped hwrapped => ?_⟩
  · have hepoch : event.keyEpoch = 0 := by simpa [h.keyEpoch] using hzero
    have hne : event.delivered ≠ [] := by simpa [RoomRekeyEvent.delivered] using h.nonempty
    obtain ⟨⟨epoch, key⟩, hmem⟩ := List.exists_mem_of_ne_nil _ hne
    have hle := (mem_delivered_le hmem).2
    have hpos := h.positive epoch key hmem
    omega
  · have hcount := congrArg List.length (h.covers wrapped hwrapped)
    simp only [RoomRekeyEvent.delivered, List.length_map, List.length_zipIdx,
      List.length_range] at hcount
    rw [h.keyEpoch, ← hlength wrapped hwrapped, hcount]

end Complete

/-- Whatever is stored is authentic and complete if and only if the keys do not all unwrap, or the
    epoch is positive and an array has as many keys as there are epochs. -/
theorem rekey_complete {Key : Type} (options : CreateRoomRekeyHandlerOptions Key)
    (wraps : Bytes → Set Wrap) (hideal : Ideal options.crypto wraps)
    (incoming : IncomingManageRequest) :
    (∀ handled, options.Handles incoming handled →
      (∀ event, .onRekey event ∈ handled.actions → CompleteRekey options wraps incoming event) ∧
        (.respond .ok ∈ handled.actions → ∃ event, .onRekey event ∈ handled.actions)) ↔
    (Opens options incoming → RoomRekeyParams.Full incoming.params) := by
  constructor
  · rintro h ⟨hverb, parsed, hparsed, hkind, roomPath, hpath, verdict, hverdict, derive, hderive,
      contentKeys, hkeys⟩
    have haccepts := accepts_unwrapRekey.2 ⟨hverb, parsed, hparsed, hkind, roomPath, hpath, verdict,
      hverdict, derive, hderive, contentKeys, hkeys, rfl⟩
    have hcomplete := (h _ (handles_of_accepts haccepts)).1
      { room := roomPath, keyEpoch := parsed.keyEpoch, contentKeys } (by
        rw [storeRekey]
        split <;> exact List.mem_cons_self)
    refine hcomplete.full fun wrapped hwrapped => ?_
    · obtain ⟨secret, -, hkeys⟩ := of_bind_eq_ok hkeys
      have hkey := Option.some.inj (hwrapped.symm.trans (of_roomRekeySchema hparsed).2.2)
      rw [length_of_unwrapKeys hkeys, RoomRekey.wrappedKeys, ← hkey]
  · intro h handled hhandles
    refine ⟨fun event hmem => ?_, (accepts_of_handles hhandles).2⟩
    have haccepts := (accepts_of_handles hhandles).1 event hmem
    obtain ⟨hverb, parsed, hparsed, hkind, roomPath, hpath, verdict, hverdict, derive, hderive,
      contentKeys, hkeys, -⟩ := accepts_unwrapRekey.1 haccepts
    exact completeRekey_of_full hideal (h ⟨hverb, parsed, hparsed, hkind, roomPath, hpath, verdict,
      hverdict, derive, hderive, contentKeys, hkeys⟩) haccepts

theorem rekey_complete_sample :
    ∃ handled, Sample.rekeyOptions.Handles
        (Sample.rekey 2 (.array [Sample.wrappedFor 11, Sample.wrappedFor 12])) handled ∧
      .onRekey { room := Sample.room, keyEpoch := 2, contentKeys := [[11], [12]] } ∈
        handled.actions ∧
      CompleteRekey Sample.rekeyOptions Sample.wraps
        (Sample.rekey 2 (.array [Sample.wrappedFor 11, Sample.wrappedFor 12]))
        { room := Sample.room, keyEpoch := 2, contentKeys := [[11], [12]] } := by
  have h := Sample.rekeyOptions_handles 2 (.array [Sample.wrappedFor 11, Sample.wrappedFor 12])
    [[11], [12]] (by decide) (by decide +kernel)
  refine ⟨_, h, List.mem_cons_self, ?_⟩
  refine ((rekey_complete Sample.rekeyOptions Sample.wraps Sample.ideal_crypto _).2
    (fun _ => ⟨by decide, ?_⟩) _ h).1 _ List.mem_cons_self
  intro wrapped hwrapped
  cases hwrapped
  rfl

/-- No key at all, for which no secret is needed; the key of the second epoch without the first one;
    and keys for epochs that there are not, the first of them wrapped for another one. All are
    stored, and answered as a success. -/
theorem rekey_incomplete :
    Sample.rekeyOptions.Handles (Sample.rekey 5 (.array []))
      ⟨[.onRekey { room := Sample.room, keyEpoch := 5, contentKeys := [] }, .respond .ok], none⟩ ∧
    (∃ event, Sample.rekeyOptions.Handles (Sample.rekey 2 (.array [Sample.wrappedFor 12]))
        ⟨[.onRekey event, .respond .ok], none⟩ ∧ event.delivered = [(2, [12])] ∧
      ¬CompleteRekey Sample.rekeyOptions Sample.wraps
        (Sample.rekey 2 (.array [Sample.wrappedFor 12])) event) ∧
    ∃ event, Sample.rekeyOptions.Handles
        (Sample.rekey 0 (.array [Sample.wrappedFor 13, Sample.wrappedFor 10]))
        ⟨[.onRekey event, .respond .ok], none⟩ ∧ event.delivered = [(-1, [13]), (0, [10])] ∧
      ∀ secret, ¬Authenticated Sample.wraps secret Sample.room (-1) [13] := by
  refine ⟨Sample.rekeyOptions_handles 5 (.array []) [] (by decide) rfl,
    ⟨_, Sample.rekeyOptions_handles 2 _ [[12]] (by decide) (by decide +kernel), by decide +kernel,
      fun h => ?_⟩,
    ⟨_, Sample.rekeyOptions_handles 0 _ [[13], [10]] (by decide) (by decide +kernel),
      by decide +kernel, ?_⟩⟩
  · exact absurd (h.covers _ rfl) (by decide +kernel)
  · rintro secret ⟨w, -, -, hepoch, -⟩
    omega

end WireMesh
