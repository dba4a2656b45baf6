import WireMesh.Soundness
import WireMesh.TypeScript.Mint

/-!
# What is minted is accepted

A mint checks the token directly above the one it issues and no other, while
the verifier walks up to the root. The checks of the mints still add up to
those of the verifier: `minted_verifies`.
-/

namespace WireMesh

open TypeScript

/-! ## The sample chain is minted -/

namespace Sample

def grantMint : Mintage where
  options :=
    { identity := .sample 1, now := 0, tokenId := [1], bearer := (Identity.sample 2).deviceId,
      capability := "manage:grant", scope := { kind := "fs", path := none }, expires := 2000,
      delegationsRemaining := some 3 }
  token := (Link.sample 1 grant).token

def mintedMint : Mintage where
  options :=
    { identity := .sample 2, now := 0, tokenId := [2], bearer := (Identity.sample 3).deviceId,
      capability := "fs:read", scope := { kind := "fs", path := some "/work" }, expires := 2000,
      delegationsRemaining := some 2, authorisedBy := some (Link.sample 1 grant).token }
  token := (Link.sample 2 minted).token

def delegatedMint : Mintage where
  options :=
    { identity := .sample 3, now := 0, tokenId := [3], bearer := (Identity.sample 4).deviceId,
      capability := "fs:read", scope := { kind := "fs", path := some "/work/sub" },
      expires := 1500, notBefore := some 500, delegationsRemaining := some 0,
      parent := some (Link.sample 2 minted).token }
  token := (Link.sample 3 delegated).token

theorem mints_links : [delegatedMint, mintedMint, grantMint].map Mintage.link = links := rfl

theorem links_reads {n : UInt8} {claims : TokenClaims} (h : .sample n claims ∈ links) :
    decodeTokenClaims options.codec (Link.sample n claims).token = some claims ∧
      options.codec.RoundTrips (.sample n claims) := by
  obtain ⟨hreads, htoken⟩ := Codec.among_reads links_claims_ne links_tokens_ne h
  exact ⟨hreads.claims_eq, hreads.claims_eq, htoken⟩

theorem mints_minted :
    Minted options.codec options.trilean [delegatedMint, mintedMint, grantMint] := by
  have hminted : decodeTokenClaims options.codec (Link.sample 2 minted).token = some minted :=
    (links_reads (by simp [links])).1
  have hgrant : decodeTokenClaims options.codec (Link.sample 1 grant).token = some grant :=
    (links_reads (by simp [links])).1
  refine .parent ((mints_iff Trilean.sample_kleene).2 ⟨by decide, by decide, ?_, ?_, rfl⟩) rfl
    (.authorisedBy ((mints_iff Trilean.sample_kleene).2 ⟨by decide, by decide, ?_, ?_, rfl⟩)
      rfl (.root ((mints_iff Trilean.sample_kleene).2 ⟨by decide, by decide, ?_, ?_, rfl⟩)
        rfl rfl))
  · rintro parent ⟨⟩
    exact ⟨minted, hminted, rfl, by decide, by decide, rfl, by decide⟩
  · rintro authoriser ⟨⟩
  · rintro parent ⟨⟩
  · rintro authoriser ⟨⟩
    exact ⟨grant, hgrant, rfl, ⟨rfl, rfl, by rintro _ ⟨⟩, by decide, by decide, by decide⟩,
      by rintro _ ⟨⟩⟩
  · rintro parent ⟨⟩
  · rintro authoriser ⟨⟩

end Sample

/-! ## Completeness -/

/-- Tokens minted one after another, each linked to the one before, are accepted by a
    verifier that can read them back, recognises their issuers, has no revocation of them and
    finds their conditions true, while their windows are open. The first minter is the root
    reported. -/
theorem minted_verifies (options : VerifyOptions) (ht : options.trilean.Kleene) (m : Mintage)
    (ms : List Mintage) (hminted : Minted options.codec options.trilean (m :: ms))
    (hlength : (m :: ms).length ≤ maxChainDepth)
    (hpayloads : ((m :: ms).map fun u => u.link.payload).Nodup)
    (hround : ∀ u ∈ m :: ms, options.codec.RoundTrips u.link)
    (hidentity : ∀ u ∈ m :: ms, options.identity.Recognises u.options.identity)
    (hwindow : ∀ u ∈ m :: ms,
      options.now < u.options.expires ∧ ∀ t ∈ u.options.notBefore, t ≤ options.now)
    (hunrevoked : ∀ u ∈ m :: ms, options.rule.unrevoked u.options.claims)
    (hleaf : options.rule.holds none m.options.claims)
    (hconditions : ((m :: ms).map Mintage.link).IsChain fun l u =>
      ∀ kind, l.kind = some kind → options.rule.holds (kind.subject l.claims) u.claims)
    (bearer : Option DeviceId) (hbearer : ∀ b ∈ bearer, m.options.bearer = b) :
    ∃ v, options.Returns { token := m.token, expectedBearer := bearer } (.ok v) ∧
      v.claims = m.options.claims ∧
      v.rootIssuer = ((m :: ms).getLast (List.cons_ne_nil m ms)).options.identity.deviceId := by
  have hadmits : ∀ l ∈ (m :: ms).map Mintage.link, options.rule.Admits l := by
    rw [List.forall_mem_map]
    intro u hu
    have hvouches : options.identity.Vouches u.link := by
      rw [Mintage.link, hminted.token_eq ht hu]
      exact (hidentity u hu).vouches rfl rfl
    -- a mint sets no `valid-until`
    exact ⟨hvouches, trivial, ⟨(hwindow u hu).1, (hwindow u hu).2, by rintro _ ⟨⟩⟩, hunrevoked u hu,
      ((mints_iff ht).1 (hminted.mints u hu)).2.1⟩
  have hjoined : ((m :: ms).map Mintage.link).IsChain options.rule.Joins := by
    have hlinked := hminted.linked ht hround
    rw [List.isChain_iff_getElem] at hlinked hconditions ⊢
    intro i hi
    obtain ⟨kind, hup, hupholds⟩ := hlinked i hi
    have hkind : (((m :: ms).map Mintage.link)[i]).kind = some kind := by
      rw [Link.kind, hup, Option.map_some]
    exact ⟨kind, hkind, hupholds, hconditions i hi kind hkind⟩
  have haccepted : Accepted options.rule none ((m :: ms).map Mintage.link) := by
    refine ⟨hadmits, ?_, hjoined⟩
    rintro l ⟨⟩
    exact hleaf
  refine ⟨.ofChain m.link (ms.map Mintage.link), (returns_ok_iff ht).2 ⟨_, _,
    hminted.chainOf ht hround, haccepted, by simpa using hlength, fresh_of_ne ?_, hbearer, rfl⟩,
    rfl, ?_⟩
  · rwa [← List.map_cons, List.map_map]
  · simp only [TokenAccepted.ofChain, ← List.map_cons, List.getLast_map]
    rfl

theorem minted_verifies_sample :
    ∃ v, Sample.options.Returns
        { token := (Link.sample 3 Sample.delegated).token, expectedBearer := none } (.ok v) ∧
      v.claims = Sample.delegated ∧ v.rootIssuer = (Identity.sample 1).deviceId := by
  have hround : ∀ l ∈ Sample.links, Sample.options.codec.RoundTrips l :=
    Sample.forall_mem_links (Sample.links_reads (by simp [Sample.links])).2
      (Sample.links_reads (by simp [Sample.links])).2
      (Sample.links_reads (by simp [Sample.links])).2
  rw [← Sample.mints_links, List.forall_mem_map] at hround
  refine minted_verifies Sample.options Trilean.sample_kleene _ _ Sample.mints_minted (by decide)
    ?_ hround ?_ ?_ (fun _ _ => unrevoked_of_no_entries rfl) (holds_of_no_conditions rfl) ?_ none
    (by rintro _ ⟨⟩)
  · exact Sample.links_payloads_ne
  · simpa using ⟨Identity.sample_recognises, Identity.sample_recognises,
      Identity.sample_recognises⟩
  · simp [Sample.delegatedMint, Sample.mintedMint, Sample.grantMint, Sample.options,
      VerifyOptions.sample]
  · exact .cons_cons (fun _ _ => holds_of_no_conditions rfl)
      (.cons_cons (fun _ _ => holds_of_no_conditions rfl) (.singleton _))

end WireMesh
