import WireMesh.Fallible
import WireMesh.Rust.Reshare

/-!
# What resharing computes

* `combineSurvivorCommitments_spec`: the sum of commitments of one length.
* `combineReceivedShares_spec`: the sum of shares that pass their checks.
* `joined_of_join`: what a new participant has seen and checked when its join returns.
-/

namespace WireMesh

namespace Rust.Reshare

section Commitments

variable {F E : Type} [Field F] [AddCommGroup E] [Module F E]

theorem foldl_add_getD (commitments : List (List E)) (i : ℕ) (point : E) :
    commitments.foldl (fun point coefficients => point + coefficients.getD i 0) point =
      point + (commitments.map fun commitment => commitment.getD i 0).sum := by
  induction commitments generalizing point with
  | nil => simp
  | cons commitment commitments ih =>
    rw [List.foldl_cons, ih, List.map_cons, List.sum_cons, add_assoc]

end Commitments

variable {F E : Type} [Field F] [AddCommGroup E] [Module F E] [DecidableEq E] {c : Curve F E}

/-! ## Encodings -/

theorem deserialize_of_serialize {p : E} {bytes : Bytes} (h : c.serialize p = .ok bytes) :
    c.deserialize bytes = .ok p := by grind [Curve.serialize, Curve.deserialize_compress]

theorem eq_of_deserialize_compress {p q : E} (h : c.deserialize (c.compress p) = .ok q) :
    q = p := by grind [Curve.deserialize_compress]

theorem deserializeCommitment_of_serializeCommitment {commitment : List E} {parts : List Bytes}
    (h : c.serializeCommitment commitment = .ok parts) :
    c.deserializeCommitment parts = .ok commitment := by
  refine mapM_of_forall₂ (List.Forall₂.flip ?_)
  exact (forall₂_of_mapM h).imp fun _ _ => deserialize_of_serialize

/-- A commitment that is encoded and decoded again is the same. -/
theorem eq_of_reencode {commitment result : List E} {f : FrostError → ReshareError}
    (h : ((c.serializeCommitment commitment).mapError f >>= fun parts =>
      (c.deserializeCommitment parts).mapError f) = .ok result) : result = commitment := by
  obtain ⟨parts, hparts, h⟩ := of_bind_eq_ok h
  rw [deserializeCommitment_of_serializeCommitment (of_mapError_eq_ok hparts)] at h
  exact (Except.ok.inj h).symm

theorem reencode_eq {commitment : List E} (f : FrostError → ReshareError)
    (h : ∀ point ∈ commitment, point ≠ 0) :
    ((c.serializeCommitment commitment).mapError f >>= fun parts =>
      (c.deserializeCommitment parts).mapError f) = .ok commitment := by
  have hparts : c.serializeCommitment commitment = .ok (commitment.map c.compress) :=
    mapM_ok fun point hpoint => if_neg (h point hpoint)
  rw [hparts, mapError_ok, ok_bind, deserializeCommitment_of_serializeCommitment hparts,
    mapError_ok]

/-! ## Commitments -/

/-- The sum is computed with as many coefficients as the first commitment has, if all have so
    many. -/
theorem combineSurvivorCommitments_spec {commitments : List (List E)} {combined : List E}
    (h : combineSurvivorCommitments c commitments = .ok combined) :
    (∀ commitment ∈ commitments, commitment.length = combined.length) ∧
      combined = Feldman.sum combined.length commitments := by
  obtain ⟨perCommitment, hper, hrest⟩ := of_bind_eq_ok h
  have hsame : commitments = perCommitment := by
    rw [← List.forall₂_eq_eq_eq]
    exact (forall₂_of_mapM hper).imp fun _ _ hab => (eq_of_reencode hab).symm
  rw [← hsame] at hrest
  rcases hfirst : commitments.head? with _ | first
  · rw [hfirst] at hrest
    cases hrest
  rw [hfirst] at hrest
  obtain ⟨degree, -, hrest⟩ := of_bind_eq_ok hrest
  obtain ⟨-, hrest⟩ := of_guard_eq_ok hrest
  obtain ⟨hlength, hrest⟩ := of_guard_eq_ok hrest
  obtain ⟨summed, hsummed, hrest⟩ := of_bind_eq_ok hrest
  obtain rfl : combined = summed := eq_of_reencode hrest
  have hsum : Feldman.sum degree commitments = combined := by
    rw [← List.forall₂_eq_eq_eq, Feldman.sum, List.forall₂_map_left_iff]
    refine (forall₂_of_mapM hsummed).imp fun i point hpoint => ?_
    rw [eq_of_deserialize_compress (of_mapError_eq_ok hpoint), foldl_add_getD, zero_add]
  grind [Feldman.length_sum]

/-- The sum is computed unless a point on the way is the identity. -/
theorem combineSurvivorCommitments_eq {commitments : List (List E)} {degree : ℕ}
    (hne : commitments ≠ []) (hdegree : 0 < degree)
    (hlength : ∀ commitment ∈ commitments, commitment.length = degree)
    (hpoints : ∀ commitment ∈ commitments, ∀ point ∈ commitment, point ≠ 0)
    (hsum : ∀ point ∈ Feldman.sum degree commitments, point ≠ 0) :
    combineSurvivorCommitments c commitments = .ok (Feldman.sum degree commitments) := by
  obtain ⟨first, rest, rfl⟩ := List.exists_cons_of_ne_nil hne
  have hper : (first :: rest).mapM (fun commitment => do
      let parts ← (c.serializeCommitment commitment).mapError ReshareError.frost
      (c.deserializeCommitment parts).mapError ReshareError.frost) = .ok (first :: rest) := by
    grind [mapM_of_forall₂, List.forall₂_same, reencode_eq]
  have hany : ¬((first :: rest).any fun commitment => commitment.length ≠ degree) = true := by grind
  have hsummed : (List.range degree).mapM (fun i => (c.deserialize (c.compress
      ((first :: rest).foldl (fun point coefficients => point + coefficients.getD i 0) 0))).mapError
        ReshareError.frost) = .ok (Feldman.sum degree (first :: rest)) := by
    refine mapM_ok fun i hi => ?_
    rw [foldl_add_getD, zero_add, c.deserialize_compress, if_neg, mapError_ok]
    exact hsum _ (List.mem_map_of_mem hi)
  grind [combineSurvivorCommitments, ok_bind, reencode_eq]

/-! ## Shares -/

theorem smul_of_verify {share : SecretShare F E} {r : E × E} (h : c.verify share = .ok r) :
    share.signingShare • c.generator = Feldman.evaluate share.commitment share.identifier :=
  ((c.exists_verify_iff share).1 ⟨r, h⟩).2

/-- The loop over the shares ends only if each passes its check. -/
theorem foldlM_verify {received : List (SecretShare F E)} {init combined : F}
    (h : received.foldlM
      (fun combined share => do
        let _ ← (c.verify share).mapError ReshareError.frost
        return combined + share.signingShare) init = .ok combined) :
    (∀ share ∈ received, share.signingShare • c.generator =
      Feldman.evaluate share.commitment share.identifier) ∧
      combined = init + (received.map (·.signingShare)).sum := by
  induction received generalizing init with
  | nil =>
    obtain rfl := Except.ok.inj h
    simp
  | cons share received ih =>
    obtain ⟨next, hnext, h⟩ := of_bind_eq_ok h
    obtain ⟨r, hverify, hnext⟩ := of_bind_eq_ok hnext
    obtain rfl := Except.ok.inj hnext
    obtain ⟨hvalid, hcombined⟩ := ih h
    refine ⟨List.forall_mem_cons.2 ⟨smul_of_verify (of_mapError_eq_ok hverify), hvalid⟩, ?_⟩
    rw [hcombined, List.map_cons, List.sum_cons, add_assoc]

theorem foldlM_verify_eq {received : List (SecretShare F E)}
    (h : ∀ share ∈ received, ∃ r, c.verify share = .ok r) (init : F) :
    received.foldlM
      (fun combined share => do
        let _ ← (c.verify share).mapError ReshareError.frost
        return combined + share.signingShare) init =
      .ok (init + (received.map (·.signingShare)).sum) := by
  induction received generalizing init with
  | nil => exact congrArg Except.ok (add_zero init).symm
  | cons share received ih => grind [List.mem_cons_self, mapError_ok, ok_bind, add_assoc]

variable [DecidableEq F]

theorem combineReceivedShares_eq {myId : F} {received : List (SecretShare F E)}
    {publicKeyPackage : PublicKeyPackage F E} {verifyingShare : E}
    (h : ∀ share ∈ received, ∃ r, c.verify share = .ok r)
    (hget : publicKeyPackage.verifyingShares.get myId = some verifyingShare) (newMinSigners : ℕ) :
    combineReceivedShares c myId received publicKeyPackage newMinSigners = .ok {
      identifier := myId
      signingShare := (received.map (·.signingShare)).sum
      verifyingShare
      verifyingKey := publicKeyPackage.verifyingKey
      minSigners := newMinSigners } := by
  rw [combineReceivedShares, foldlM_verify_eq h, ok_bind, hget, zero_add]
  rfl

theorem combineReceivedShares_spec {myId : F} {received : List (SecretShare F E)}
    {publicKeyPackage : PublicKeyPackage F E} {newMinSigners : ℕ} {keyPackage : KeyPackage F E}
    (h : combineReceivedShares c myId received publicKeyPackage newMinSigners =
      .ok keyPackage) :
    (∀ share ∈ received, share.signingShare • c.generator =
      Feldman.evaluate share.commitment share.identifier) ∧
      publicKeyPackage.verifyingShares.get myId = some keyPackage.verifyingShare ∧
      keyPackage = {
        identifier := myId
        signingShare := (received.map (·.signingShare)).sum
        verifyingShare := keyPackage.verifyingShare
        verifyingKey := publicKeyPackage.verifyingKey
        minSigners := newMinSigners } := by
  obtain ⟨combined, hcombined, hrest⟩ := of_bind_eq_ok h
  obtain ⟨hvalid, hsum⟩ := foldlM_verify hcombined
  rw [zero_add] at hsum
  rcases hget : publicKeyPackage.verifyingShares.get myId with _ | verifyingShare
  · rw [hget] at hrest
    cases hrest
  · rw [hget] at hrest
    obtain rfl := Except.ok.inj hrest
    rw [← hsum]
    exact ⟨hvalid, rfl, rfl⟩

/-- The verifying shares are computed from the commitment. -/
theorem verifyingShare_of_derive {combined : List E} {newParticipantIds : List F}
    {publicKeyPackage : PublicKeyPackage F E} {identifier : F} {share : E}
    (h : derivePublicKeyPackage c combined newParticipantIds = .ok publicKeyPackage)
    (hget : publicKeyPackage.verifyingShares.get identifier = some share) :
    share = Feldman.evaluate combined identifier :=
  ((c.mem_verifyingShares_iff _ _ _ (of_mapError_eq_ok h) _ _).1
    (OrderedMap.mem_entries_iff.2 hget)).2

/-- Every new participant has a verifying share. -/
theorem get_verifyingShares_of_derive {combined : List E} {newParticipantIds : List F}
    {publicKeyPackage : PublicKeyPackage F E} {identifier : F}
    (h : derivePublicKeyPackage c combined newParticipantIds = .ok publicKeyPackage)
    (hmem : identifier ∈ newParticipantIds) :
    publicKeyPackage.verifyingShares.get identifier =
      some (Feldman.evaluate combined identifier) :=
  OrderedMap.mem_entries_iff.1
    ((c.mem_verifyingShares_iff _ _ _ (of_mapError_eq_ok h) _ _).2 ⟨hmem, rfl⟩)

/-! ## Joining -/

omit [DecidableEq F] in
theorem derive_of_identifierForDevice {device : DeviceId} {identifier : F}
    (h : identifierForDevice c device = .ok identifier) : c.derive device = some identifier := by
  grind [identifierForDevice]

/-- What a join has computed when it returns. -/
@[grind cases]
structure Joined (c : Curve F E) (o : JoinThresholdReshare F E) (peers : Peers)
    (keyPackage : KeyPackage F E) (publicKeyPackage : PublicKeyPackage F E) (own : F)
    (entries : List (F × List E)) (combined : List E) (newIds : List F)
    (shares : List (SecretShare F E)) (derivedGroupKey : Bytes) : Prop where
  derive_eq : c.derive o.ownDeviceId = some own
  entries_eq : broadcastCommitments c o peers own = .ok entries
  combined_eq : combineSurvivorCommitments c (survivorCommitments entries).values = .ok combined
  newIds_eq : o.newParticipants.mapM (identifierForDevice c) = .ok newIds
  publicKeyPackage_eq : derivePublicKeyPackage c combined newIds = .ok publicKeyPackage
  derivedGroupKey_eq : c.serialize publicKeyPackage.verifyingKey = .ok derivedGroupKey
  existing_eq : derivedGroupKey = o.existingGroupKey
  shares_eq : receivedShares c o peers = .ok shares
  keyPackage_eq : combineReceivedShares c own shares publicKeyPackage o.newThreshold =
    .ok keyPackage
  confirmed : confirmTranscript o peers
    (c.digest (survivorCommitments entries).get publicKeyPackage.verifyingKey)
    derivedGroupKey = .ok ()

theorem joined_of_join {o : JoinThresholdReshare F E} {peers : Peers}
    {keyPackage : KeyPackage F E} {publicKeyPackage : PublicKeyPackage F E}
    (h : joinThresholdReshare c o peers = .ok (keyPackage, publicKeyPackage)) :
    ∃ own entries combined newIds shares derivedGroupKey, Joined c o peers keyPackage
      publicKeyPackage own entries combined newIds shares derivedGroupKey := by
  obtain ⟨own, hown, h⟩ := of_bind_eq_ok h
  obtain ⟨entries, hentries, h⟩ := of_bind_eq_ok h
  obtain ⟨combined, hcombined, h⟩ := of_bind_eq_ok h
  obtain ⟨newIds, hnewIds, h⟩ := of_bind_eq_ok h
  obtain ⟨derived, hderived, h⟩ := of_bind_eq_ok h
  obtain ⟨derivedGroupKey, hkey, h⟩ := of_bind_eq_ok h
  obtain ⟨hexisting, h⟩ := of_guard_eq_ok h
  obtain ⟨shares, hshares, h⟩ := of_bind_eq_ok h
  obtain ⟨combinedShares, hcombinedShares, h⟩ := of_bind_eq_ok h
  obtain ⟨⟨⟩, hconfirmed, h⟩ := of_bind_eq_ok h
  obtain ⟨rfl, rfl⟩ := Prod.mk.inj (Except.ok.inj h)
  exact ⟨own, entries, combined, newIds, shares, derivedGroupKey, {
    derive_eq := derive_of_identifierForDevice hown
    entries_eq := hentries
    combined_eq := of_mapError_eq_ok hcombined
    newIds_eq := hnewIds
    publicKeyPackage_eq := of_mapError_eq_ok hderived
    derivedGroupKey_eq := of_mapError_eq_ok hkey
    existing_eq := not_not.1 hexisting
    shares_eq := hshares
    keyPackage_eq := of_mapError_eq_ok hcombinedShares
    confirmed := hconfirmed }⟩

end Rust.Reshare

end WireMesh
