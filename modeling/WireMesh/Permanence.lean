import WireMesh.Rust.Revocation
import WireMesh.Soundness
import WireMesh.TypeScript.RevocationView

/-!
# How long a revocation lasts

The TypeScript view keeps every entry it records, the Rust one the latest of
each issuer. Either way an issuer that revoked a token of its own keeps having
done so:

* `revocation_permanent`: a token its issuer has revoked is not accepted any
  more, and neither is one above which it is.
-/

namespace WireMesh

open Async

/-! ## In TypeScript -/

namespace TypeScript

variable {options : VerifyOptions} {view : RevocationView} {query : Query}

/-- No token is accepted below one that its own issuer has revoked. -/
theorem not_returns_of_issuer_entry (ht : options.trilean.Kleene) {links : List Link}
    (hchain : ChainOf options.codec.toDecoder query.token links) {l : Link} (hl : l ∈ links)
    {entry : RevocationClaims} (hentry : entry ∈ view.entriesFor l.claims.tokenId)
    (hissuer : entry.issuer = l.claims.issuer) {v : TokenAccepted} :
    ¬(options.consulting view).Returns query (.ok v) := by
  intro h
  replace ht : (options.consulting view).trilean.Kleene := ht
  obtain ⟨leaf, above, hchain', hacc, -⟩ := exists_accepted ht h
  rw [hchain.unique hchain'] at hl
  have hfalse := (hacc.admits l hl).unrevoked entry hentry
  grind [revocationEntryGrantsRevoke, settles_pure]

/-- An issuer's entry stays recorded. -/
theorem RevocationView.mem_entriesFor_of_recorded
    {entryOptions : VerifyRevocationEntryOptions} {entry : RevocationEntry}
    {claims : RevocationClaims} (view : RevocationView)
    (h : verifyRevocationEntry entryOptions entry = .ok (.ok claims))
    (more : List RevocationEntry) :
    claims ∈ (recordAll entryOptions (record entryOptions view entry).1 more).entriesFor
      claims.tokenId := by
  grind [admitted_eq_some_iff, verifyRevocationEntry_eq_ok_iff, entriesFor_recordAll,
    entriesFor_record, claimsAbout_of_admitted]

end TypeScript

/-! ## In Rust -/

namespace Rust

variable {verifier : Verifier} {view : RevocationView} {query : Query}

/-- No token is accepted below one that its own issuer has revoked. -/
theorem not_returns_of_issuer_entry {links : List Link}
    (hchain : ChainOf verifier.codec.toDecoder query.token links) {l : Link} (hl : l ∈ links)
    {entry : RevocationClaims} (hentry : entry ∈ view.entriesFor l.claims.tokenId)
    (hissuer : entry.issuer = l.claims.issuer) {v : TokenValid} :
    ¬(verifier.consulting view).Returns query (.ok v) := by
  intro h
  obtain ⟨leaf, above, hchain', hacc, -⟩ := exists_accepted h
  rw [hchain.unique hchain'] at hl
  have hfalse := (hacc.admits l hl).unrevoked entry hentry
  grind [revocationEntryGrantsRevoke, settles_pure]

/-- Of an issuer with an entry, an entry stays admitted, if not the same. -/
theorem RevocationView.exists_entry_of_inserted {entryVerifier : EntryVerifier}
    {entry : RevocationEntry} {claims : RevocationClaims} (view : RevocationView)
    (h : verifyEntry entryVerifier entry = .ok claims) (more : List RevocationEntry) :
    ∃ e ∈ (insertAll entryVerifier (verifyAndInsert entryVerifier view entry).1 more).entriesFor
      claims.tokenId, e.issuer = claims.issuer := by
  have hadmitted : admitted entryVerifier entry = some claims :=
    admitted_eq_some_iff.2 (verifyEntry_eq_ok_iff.1 h)
  refine List.mem_map.1 ?_
  grind [entriesFor_insertAll, owner_mem_foldl_admitLatest, entriesFor_verifyAndInsert,
    claimsAbout_of_admitted]

end Rust

/-! ## Permanence -/

namespace Sample

/-- The root of the sample chain is revoked by its issuer, and again by another device. -/
def ownRevocation : RevocationClaims := .sample [1] 1 900 none

def furtherRevocation : RevocationClaims := .sample [1] 2 950 none

def revocations : List RevocationClaims := [ownRevocation, furtherRevocation]

theorem revocations_ne : revocations.Pairwise fun a b => a.encode ≠ b.encode := by
  decide +kernel

end Sample

/-- Once a view has admitted an entry of an issuer against a token-id, whatever it admits
    from then on, no token is accepted in whose chain that issuer issued one of that id. -/
theorem revocation_permanent :
    (∀ (options : TypeScript.VerifyOptions)
        (entryOptions : TypeScript.VerifyRevocationEntryOptions)
        (view : TypeScript.RevocationView) (entry : RevocationEntry) (claims : RevocationClaims),
      options.trilean.Kleene →
      TypeScript.verifyRevocationEntry entryOptions entry = .ok (.ok claims) →
      ∀ (more : List RevocationEntry) (query : TypeScript.Query) (links : List Link),
        ChainOf options.codec.toDecoder query.token links →
        (∃ l ∈ links, l.claims.tokenId = claims.tokenId ∧ l.claims.issuer = claims.issuer) →
        ∀ v, ¬(options.consulting
          ((view.record entryOptions entry).1.recordAll entryOptions more)).Returns query (.ok v)) ∧
    (∀ (verifier : Rust.Verifier) (entryVerifier : Rust.EntryVerifier)
        (view : Rust.RevocationView) (entry : RevocationEntry) (claims : RevocationClaims),
      Rust.verifyEntry entryVerifier entry = .ok claims →
      ∀ (more : List RevocationEntry) (query : Rust.Query) (links : List Link),
        ChainOf verifier.codec.toDecoder query.token links →
        (∃ l ∈ links, l.claims.tokenId = claims.tokenId ∧ l.claims.issuer = claims.issuer) →
        ∀ v, ¬(verifier.consulting ((view.verifyAndInsert entryVerifier entry).1.insertAll
          entryVerifier more)).Returns query (.ok v)) := by
  constructor
  · rintro options entryOptions view entry claims ht hentry more query links hchain
      ⟨l, hl, hid, hissuer⟩ v
    have hmem := TypeScript.RevocationView.mem_entriesFor_of_recorded view hentry more
    exact TypeScript.not_returns_of_issuer_entry ht hchain hl (hid ▸ hmem) hissuer.symm
  · rintro verifier entryVerifier view entry claims hentry more query links hchain
      ⟨l, hl, hid, hissuer⟩ v
    obtain ⟨e, he, heissuer⟩ := Rust.RevocationView.exists_entry_of_inserted view
      hentry more
    exact Rust.not_returns_of_issuer_entry hchain hl (hid ▸ he) (heissuer.trans hissuer.symm)

theorem revocation_permanent_sample :
    (∀ v, ¬(Sample.options.consulting
      ((TypeScript.RevocationView.createRevocationView.record (.sample Sample.revocations)
        (.sample 1 Sample.ownRevocation)).1.recordAll (.sample Sample.revocations)
          [.sample 2 Sample.furtherRevocation])).Returns
        { token := (Link.sample 3 Sample.delegated).token, expectedBearer := none } (.ok v)) ∧
    ∀ v, ¬(Sample.verifier.consulting
      ((Rust.RevocationView.new.verifyAndInsert (.sample Sample.revocations)
        (.sample 1 Sample.ownRevocation)).1.insertAll (.sample Sample.revocations)
          [.sample 2 Sample.furtherRevocation])).Returns
        { token := (Link.sample 3 Sample.delegated).token, expectedBearer := none } (.ok v) := by
  have hroot : ∃ l ∈ Sample.links, l.claims.tokenId = Sample.ownRevocation.tokenId ∧
      l.claims.issuer = Sample.ownRevocation.issuer :=
    ⟨.sample 1 Sample.grant, by simp [Sample.links], rfl, rfl⟩
  constructor
  · exact revocation_permanent.1 _ _ _ _ _ TypeScript.Trilean.sample_kleene
      (TypeScript.verifyRevocationEntry_sample Sample.revocations_ne List.mem_cons_self
        ⟨rfl, rfl⟩) _ _ _ Sample.options_chainOf hroot
  · exact revocation_permanent.2 _ _ _ _ _
      (Rust.verifyEntry_sample Sample.revocations_ne List.mem_cons_self ⟨rfl, rfl⟩) _ _ _
      Sample.verifier_chainOf hroot

end WireMesh
