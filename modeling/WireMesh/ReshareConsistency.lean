import Mathlib.Algebra.Field.ZMod
import WireMesh.Rust.ReshareSpec
import WireMesh.TypeScript.Reshare

/-!
# Reshared shares and the commitments they are dealt under

A new participant has its public keys from the commitments that the survivors broadcast, and its
signing share from the shares that they send. A share comes with a commitment of its own, and is
checked against that one.

* `Rust.Reshare.consistent_iff_of_combine`: shares sum up to a share of the sum of the broadcast
  commitments if and only if their own commitments do, at the identifiers that they are for.
* `reshared_share_consistent`: so it is for whoever joins, in either language.
* `reshared_share_inconsistent`: a survivor that sends a share under another commitment goes
  unnoticed.
-/

namespace WireMesh

namespace Rust.Reshare

variable {F E : Type} [Field F] [DecidableEq F] [AddCommGroup E] [Module F E] [DecidableEq E]
  {c : Curve F E}

/-! ## Consistency -/

/-- A share of the sum of the commitments, and the public key that is recorded for it. -/
@[grind cases]
structure ConsistentShare (c : Curve F E) (own : F) (commitments : List (List E))
    (keyPackage : KeyPackage F E) (publicKeyPackage : PublicKeyPackage F E) : Prop where
  recorded : publicKeyPackage.verifyingShares.get own = some keyPackage.verifyingShare
  image : keyPackage.signingShare • c.generator = keyPackage.verifyingShare
  evaluation : ∃ degree, (∀ commitment ∈ commitments, commitment.length = degree) ∧
    ∀ p, Feldman.Commits c.generator p (Feldman.sum degree commitments) →
      keyPackage.signingShare = p.eval own

/-- The points that the shares are checked against. -/
def shareImages (shares : List (SecretShare F E)) : List E :=
  shares.map fun share => Feldman.evaluate share.commitment share.identifier

omit [DecidableEq F] in
theorem smul_sum_signingShare {received : List (SecretShare F E)}
    (hvalid : ∀ share ∈ received, share.signingShare • c.generator =
      Feldman.evaluate share.commitment share.identifier) :
    (received.map (·.signingShare)).sum • c.generator = (shareImages received).sum := by
  induction received with
  | nil => simp [shareImages]
  | cons share received ih =>
    obtain ⟨hfirst, hrest⟩ := List.forall_mem_cons.1 hvalid
    rw [shareImages, List.map_cons, List.map_cons, List.sum_cons, List.sum_cons, add_smul,
      ih hrest, hfirst, shareImages]

theorem consistent_iff_of_combine {own : F} {commitments : List (List E)} {combined : List E}
    {newParticipantIds : List F} {received : List (SecretShare F E)} {newMinSigners : ℕ}
    {keyPackage : KeyPackage F E} {publicKeyPackage : PublicKeyPackage F E}
    (hcombined : combineSurvivorCommitments c commitments = .ok combined)
    (hderive : derivePublicKeyPackage c combined newParticipantIds = .ok publicKeyPackage)
    (hreceived : combineReceivedShares c own received publicKeyPackage newMinSigners =
      .ok keyPackage) :
    ConsistentShare c own commitments keyPackage publicKeyPackage ↔
      (shareImages received).sum =
        (commitments.map fun commitment => Feldman.evaluate commitment own).sum := by
  obtain ⟨hlength, hsum⟩ := combineSurvivorCommitments_spec hcombined
  obtain ⟨hvalid, hrecorded, hkeyPackage⟩ := combineReceivedShares_spec hreceived
  have hsigning : keyPackage.signingShare • c.generator = (shareImages received).sum := by
    rw [hkeyPackage, ← smul_sum_signingShare hvalid]
  have hverifying : keyPackage.verifyingShare =
      (commitments.map fun commitment => Feldman.evaluate commitment own).sum := by
    rw [verifyingShare_of_derive hderive hrecorded, hsum, Feldman.evaluate_sum hlength]
  rw [← hsigning, ← hverifying]
  refine ⟨fun h => h.image, fun himage => ⟨hrecorded, himage, combined.length, hlength, ?_⟩⟩
  rw [verifyingShare_of_derive hderive hrecorded] at himage
  grind [Feldman.eq_eval_of_commits, Curve.generator_ne_zero]

theorem consistent_iff_of_join {o : JoinThresholdReshare F E} {peers : Peers} {own : F}
    {keyPackage : KeyPackage F E} {publicKeyPackage : PublicKeyPackage F E}
    {entries : List (F × List E)} {shares : List (SecretShare F E)}
    (hjoin : joinThresholdReshare c o peers = .ok (keyPackage, publicKeyPackage))
    (hown : c.derive o.ownDeviceId = some own)
    (hentries : broadcastCommitments c o peers own = .ok entries)
    (hshares : receivedShares c o peers = .ok shares) :
    ConsistentShare c own (survivorCommitments entries).values keyPackage publicKeyPackage ↔
      (shareImages shares).sum = ((survivorCommitments entries).values.map fun commitment =>
        Feldman.evaluate commitment own).sum := by
  obtain ⟨own', entries', combined, newIds, shares', key, hjoined⟩ := joined_of_join hjoin
  obtain rfl : own' = own := Option.some.inj (hjoined.derive_eq.symm.trans hown)
  obtain rfl : entries' = entries := Except.ok.inj (hjoined.entries_eq.symm.trans hentries)
  obtain rfl : shares' = shares := Except.ok.inj (hjoined.shares_eq.symm.trans hshares)
  exact consistent_iff_of_combine hjoined.combined_eq hjoined.publicKeyPackage_eq
    hjoined.keyPackage_eq

end Rust.Reshare

namespace TypeScript.Reshare

open Rust.Reshare (Curve ConsistentShare shareImages)

variable {F E : Type} [Field F] [DecidableEq F] [AddCommGroup E] [Module F E] [DecidableEq E]
  {c : Curve F E}

theorem consistent_iff_of_join {o : JoinThresholdReshareOptions E} {peers : Peers} {own : F}
    {result : ThresholdDkgResult F E} {entries : List (DeviceId × List E)} {received : List Bytes}
    {shares : List (Rust.Reshare.SecretShare F E)}
    (hjoin : joinThresholdReshare c o peers = .ok result)
    (hown : c.derive o.ownDeviceId = some own)
    (hentries : survivorEntries c o peers = .ok entries)
    (hreceived : receivedShares o peers = .ok received)
    (hshares : received.mapM (fun bytes => (c.deserializeShare bytes).mapError WasmError.frost) =
      .ok shares) :
    ConsistentShare c own (entries.map Prod.snd) result.keyPackage result.publicKeyPackage ↔
      (shareImages shares).sum =
        ((entries.map Prod.snd).map fun commitment => Feldman.evaluate commitment own).sum := by
  obtain ⟨entries', hentries', h⟩ := of_bind_eq_ok hjoin
  obtain rfl : entries' = entries := Except.ok.inj (hentries'.symm.trans hentries)
  obtain ⟨combined, hcombined, h⟩ := of_bind_eq_ok h
  obtain ⟨derived, hderived, h⟩ := of_bind_eq_ok h
  obtain ⟨-, h⟩ := of_guard_eq_ok h
  obtain ⟨received', hreceived', h⟩ := of_bind_eq_ok h
  obtain rfl : received' = received := Except.ok.inj (hreceived'.symm.trans hreceived)
  obtain ⟨keyPackage, hkeyPackage, h⟩ := of_bind_eq_ok h
  obtain ⟨digest, -, h⟩ := of_bind_eq_ok h
  obtain ⟨⟨⟩, -, h⟩ := of_bind_eq_ok h
  obtain rfl := Except.ok.inj h
  -- The packages are computed by the functions of the Rust library.
  obtain ⟨newIds, -, h⟩ := of_bind_eq_ok (of_mapError_eq_ok hderived)
  obtain ⟨publicKeyPackage, hpackage, h⟩ := of_bind_eq_ok h
  obtain ⟨key, -, h⟩ := of_bind_eq_ok h
  obtain rfl := Except.ok.inj h
  obtain ⟨own', hown', h⟩ := of_bind_eq_ok (of_mapError_eq_ok hkeyPackage)
  obtain rfl : own' = own := by
    rw [identifierFromDeviceId, hown] at hown'
    exact (Except.ok.inj hown').symm
  obtain ⟨shares', hshares', h⟩ := of_bind_eq_ok h
  obtain rfl : shares' = shares := Except.ok.inj (hshares'.symm.trans hshares)
  exact Rust.Reshare.consistent_iff_of_combine (of_mapError_eq_ok (of_mapError_eq_ok hcombined))
    (of_mapError_eq_ok hpackage) (of_mapError_eq_ok h)

end TypeScript.Reshare

open Rust.Reshare (Curve ConsistentShare shareImages)

/-! ## A small group -/

theorem prime_seven : Nat.Prime 7 := by decide

instance fact_prime_seven : Fact (Nat.Prime 7) := ⟨prime_seven⟩

def samplePoint : Bytes → Except Rust.Reshare.FrostError (ZMod 7)
  | [byte] => if byte = 0 then .error .invalidIdentityElement else .ok byte.toNat
  | _ => .error (.malformed "point")

def sampleShare :
    Bytes → Except Rust.Reshare.FrostError (Rust.Reshare.SecretShare (ZMod 7) (ZMod 7))
  | identifier :: signingShare :: commitment => .ok {
      identifier := identifier.toNat
      signingShare := signingShare.toNat
      commitment := commitment.map fun byte => (byte.toNat : ZMod 7) }
  | _ => .error (.malformed "share")

theorem samplePoint_compress (p : ZMod 7) : samplePoint [UInt8.ofNat p.val] =
    if p = 0 then .error .invalidIdentityElement else .ok p := by
  revert p
  decide

/-- The integers modulo 7, as scalars and as points. -/
def sampleCurve : Curve (ZMod 7) (ZMod 7) where
  generator := 1
  generator_ne_zero := one_ne_zero
  compress p := [UInt8.ofNat p.val]
  deserialize := samplePoint
  deserialize_compress := samplePoint_compress
  deserializeShare := sampleShare
  derive device := (device.bytes.head?.map fun byte => (byte.toNat : ZMod 7)).filter (· ≠ 0)
  digest commitments key := [1, 2].flatMap (fun i =>
    ((commitments i).getD []).map fun p => UInt8.ofNat p.val) ++ [UInt8.ofNat key.val]
  signingKey := .ok
  exists_signingKey scalar _ := ⟨scalar, rfl⟩
  signingKey_eq_ok _ _ h := (Except.ok.inj h).symm
  verify share := if share.commitment ≠ [] ∧ share.signingShare • (1 : ZMod 7) =
      Feldman.evaluate share.commitment share.identifier then .ok (share.signingShare, 0)
    else .error .invalidSecretShare
  exists_verify_iff share := by
    constructor
    · rintro ⟨keys, h⟩
      split_ifs at h with hvalid
      exact hvalid
    · exact fun h => ⟨_, if_pos h⟩
  fromCommitment identifiers commitment := .ok {
    verifyingShares := identifiers.foldl
      (fun shares identifier => shares.set identifier (Feldman.evaluate commitment identifier))
      .empty
    verifyingKey := commitment.headD 0 }
  mem_verifyingShares_iff identifiers commitment package h identifier share := by
    cases h
    rw [OrderedMap.mem_entries_iff, OrderedMap.get_foldl_set_apply]
    split_ifs with hmem <;> simp [hmem, eq_comm]
  split key _ minSigners identifiers random :=
    let coefficients := key :: (List.range (minSigners - 1)).map random
    .ok (identifiers.foldl (fun shares identifier => shares.set identifier {
      identifier
      signingShare := Rust.Reshare.evaluatePolynomial identifier coefficients
      commitment := coefficients.map (· • 1) }) .empty)
  exists_split key minSigners identifiers random _ _ _ := by
    refine ⟨_, rfl, fun identifier share => ?_⟩
    rw [OrderedMap.mem_entries_iff, OrderedMap.get_foldl_set_apply]
    split_ifs with hmem <;> simp [hmem, eq_comm]

/-- Two survivors broadcast commitments to `1 + X` and to `2 + X`. The first sends the given
    share. -/
def Rust.Reshare.Peers.sample (share : Bytes) : Rust.Reshare.Peers where
  round1 i := .ok (if i = 0 then [[1], [1]] else [[2], [1]])
  round2 i := .ok (if i = 0 then share else [3, 5, 2, 1])
  send _ := .ok ()
  confirm _ := .ok { transcriptDigest := [1, 1, 2, 1, 3], groupKey := [3] }

def TypeScript.Reshare.Peers.sample (share : Bytes) : TypeScript.Reshare.Peers where
  round1 := (Rust.Reshare.Peers.sample share).round1
  round2 := (Rust.Reshare.Peers.sample share).round2
  send _ := .ok ()
  confirm := (Rust.Reshare.Peers.sample share).confirm

/-- The third device joins, and the fourth. -/
def Rust.Reshare.JoinThresholdReshare.sample :
    Rust.Reshare.JoinThresholdReshare (ZMod 7) (ZMod 7) where
  ownDeviceId := .pad [3]
  otherSurvivors := [.pad [1], .pad [2]]
  ownContribution := none
  newParticipants := [.pad [3], .pad [4]]
  newThreshold := 2
  existingGroupKey := [3]

def TypeScript.Reshare.JoinThresholdReshareOptions.sample :
    TypeScript.Reshare.JoinThresholdReshareOptions (ZMod 7) where
  ownDeviceId := .pad [3]
  otherSurvivors := [.pad [1], .pad [2]]
  ownContribution := none
  newParticipants := [.pad [3], .pad [4]]
  newThreshold := 2
  existingGroupKey := [3]

/-- Whoever joins has a share of the sum of the commitments that have been broadcast, with the
    public key that is recorded for it, if and only if the commitments that come with the shares
    sum up to the same point. Those of survivors that send a share of what they have committed to
    do. -/
theorem reshared_share_consistent {F E : Type} [Field F] [DecidableEq F] [AddCommGroup E]
    [Module F E] [DecidableEq E] (c : Curve F E) (own : F) :
    (∀ (o : Rust.Reshare.JoinThresholdReshare F E) (peers : Rust.Reshare.Peers)
      (keyPackage : Rust.Reshare.KeyPackage F E)
      (publicKeyPackage : Rust.Reshare.PublicKeyPackage F E) entries shares,
      Rust.Reshare.joinThresholdReshare c o peers = .ok (keyPackage, publicKeyPackage) →
      c.derive o.ownDeviceId = some own →
      Rust.Reshare.broadcastCommitments c o peers own = .ok entries →
      Rust.Reshare.receivedShares c o peers = .ok shares →
      let commitments := (Rust.Reshare.survivorCommitments entries).values
      (ConsistentShare c own commitments keyPackage publicKeyPackage ↔ (shareImages shares).sum =
        (commitments.map fun commitment => Feldman.evaluate commitment own).sum)) ∧
    (∀ (o : TypeScript.Reshare.JoinThresholdReshareOptions E) (peers : TypeScript.Reshare.Peers)
      (result : TypeScript.Reshare.ThresholdDkgResult F E) entries received shares,
      TypeScript.Reshare.joinThresholdReshare c o peers = .ok result →
      c.derive o.ownDeviceId = some own →
      TypeScript.Reshare.survivorEntries c o peers = .ok entries →
      TypeScript.Reshare.receivedShares o peers = .ok received →
      received.mapM (fun bytes => (c.deserializeShare bytes).mapError
        TypeScript.Reshare.WasmError.frost) = .ok shares →
      let commitments := entries.map Prod.snd
      (ConsistentShare c own commitments result.keyPackage result.publicKeyPackage ↔
        (shareImages shares).sum =
          (commitments.map fun commitment => Feldman.evaluate commitment own).sum)) := by
  constructor
  · intro o peers keyPackage publicKeyPackage entries shares hjoin hown hentries hshares
    exact Rust.Reshare.consistent_iff_of_join hjoin hown hentries hshares
  · intro o peers result entries received shares hjoin hown hentries hreceived hshares
    exact TypeScript.Reshare.consistent_iff_of_join hjoin hown hentries hreceived hshares

/-- The first survivor sends the value of `1 + X`. -/
theorem reshared_share_consistent_sample :
    (∃ keyPackage publicKeyPackage,
      Rust.Reshare.joinThresholdReshare sampleCurve .sample (.sample [3, 4, 1, 1]) =
        .ok (keyPackage, publicKeyPackage) ∧
      ConsistentShare sampleCurve 3 [[1, 1], [2, 1]] keyPackage publicKeyPackage) ∧
    (∃ result,
      TypeScript.Reshare.joinThresholdReshare sampleCurve .sample (.sample [3, 4, 1, 1]) =
        .ok result ∧
      ConsistentShare sampleCurve 3 [[1, 1], [2, 1]] result.keyPackage
        result.publicKeyPackage) := by
  constructor
  · obtain ⟨⟨keyPackage, publicKeyPackage⟩, hjoin, -⟩ := exists_eq_ok_of_toOption
      (x := Rust.Reshare.joinThresholdReshare sampleCurve .sample (.sample [3, 4, 1, 1]))
      (f := fun r => r.1.signingShare) (b := 2) (by decide +kernel)
    have h := (reshared_share_consistent sampleCurve 3).1 _ _ _ _ [(1, [1, 1]), (2, [2, 1])]
      [⟨3, 4, [1, 1]⟩, ⟨3, 5, [2, 1]⟩] hjoin (by decide) (by decide +kernel) (by decide +kernel)
    exact ⟨keyPackage, publicKeyPackage, hjoin, h.2 (by decide +kernel)⟩
  · obtain ⟨result, hjoin, -⟩ := exists_eq_ok_of_toOption
      (x := TypeScript.Reshare.joinThresholdReshare sampleCurve .sample (.sample [3, 4, 1, 1]))
      (f := fun r => r.keyPackage.signingShare) (b := 2) (by decide +kernel)
    have h := (reshared_share_consistent sampleCurve 3).2 _ _ _
      [(.pad [1], [1, 1]), (.pad [2], [2, 1])] [[3, 4, 1, 1], [3, 5, 2, 1]]
      [⟨3, 4, [1, 1]⟩, ⟨3, 5, [2, 1]⟩] hjoin (by decide) (by decide +kernel) (by decide +kernel)
      (by decide +kernel)
    exact ⟨result, hjoin, h.2 (by decide +kernel)⟩

/-- The first survivor sends the value of `1 + 2X` instead, with a commitment to that. Either join
    returns, with a share that is not the one of the public key recorded for it. -/
theorem reshared_share_inconsistent :
    (∃ keyPackage publicKeyPackage,
      Rust.Reshare.joinThresholdReshare sampleCurve .sample (.sample [3, 0, 1, 2]) =
        .ok (keyPackage, publicKeyPackage) ∧
      ∀ commitments, ¬ConsistentShare sampleCurve 3 commitments keyPackage publicKeyPackage) ∧
    (∃ result,
      TypeScript.Reshare.joinThresholdReshare sampleCurve .sample (.sample [3, 0, 1, 2]) =
        .ok result ∧
      ∀ commitments, ¬ConsistentShare sampleCurve 3 commitments result.keyPackage
        result.publicKeyPackage) := by
  constructor
  · obtain ⟨⟨keyPackage, publicKeyPackage⟩, hjoin, hshare⟩ := exists_eq_ok_of_toOption
      (x := Rust.Reshare.joinThresholdReshare sampleCurve .sample (.sample [3, 0, 1, 2]))
      (f := fun r => (r.1.signingShare, r.1.verifyingShare)) (b := (5, 2)) (by decide +kernel)
    obtain ⟨hsigning, hverifying⟩ := Prod.mk.inj hshare
    refine ⟨keyPackage, publicKeyPackage, hjoin, fun commitments h => ?_⟩
    have himage := h.image
    rw [hsigning, hverifying] at himage
    exact absurd himage (by decide)
  · obtain ⟨result, hjoin, hshare⟩ := exists_eq_ok_of_toOption
      (x := TypeScript.Reshare.joinThresholdReshare sampleCurve .sample (.sample [3, 0, 1, 2]))
      (f := fun r => (r.keyPackage.signingShare, r.keyPackage.verifyingShare)) (b := (5, 2))
      (by decide +kernel)
    obtain ⟨hsigning, hverifying⟩ := Prod.mk.inj hshare
    refine ⟨result, hjoin, fun commitments h => ?_⟩
    have himage := h.image
    rw [hsigning, hverifying] at himage
    exact absurd himage (by decide)

end WireMesh
