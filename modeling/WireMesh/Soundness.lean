import WireMesh.Rust.Tokens
import WireMesh.TypeScript.Tokens

/-!
# What an accepted chain guarantees

Both verifiers accept a token only if its whole chain is in order, although
each compares adjacent links only:

* `verify_sound`: authority is handed over from bearer to issuer, narrowing in
  scope and expiry, from the root both report to the leaf;
* `verify_delegation_bounded`: a bound on re-delegation anywhere in the chain
  bounds the number of links below it.
-/

namespace WireMesh

/-! ## A sample chain -/

namespace Sample

/-- A grant-capability for files, from device 1 to device 2. -/
def grant : TokenClaims :=
  { TokenClaims.sample [1] 1 2 "manage:grant" with delegationsRemaining := some 3 }

/-- A token minted under it by device 2, for device 3. -/
def minted : TokenClaims :=
  { TokenClaims.sample [2] 2 3 "fs:read" with
    scope := { kind := "fs", path := some "/work" }
    authorisedBy := some (Link.sample 1 grant).token.encode
    delegationsRemaining := some 2 }

/-- A delegation of it from device 3 to device 4. -/
def delegated : TokenClaims :=
  { TokenClaims.sample [3] 3 4 "fs:read" with
    scope := { kind := "fs", path := some "/work/sub" }
    expires := 1500
    parent := some (Link.sample 2 minted).token.encode
    delegationsRemaining := some 0
    notBefore := some 500 }

def links : List Link := [.sample 3 delegated, .sample 2 minted, .sample 1 grant]

/-- The verifiers know these tokens, and nothing is revoked. -/
def options : TypeScript.VerifyOptions := .sample links []

def verifier : Rust.Verifier := .sample links []

theorem links_claims_ne : (links.map Link.claims).Pairwise fun a b => a.encode ≠ b.encode := by
  decide +kernel

theorem links_tokens_ne : (links.map Link.token).Pairwise fun a b => a.encode ≠ b.encode := by
  decide +kernel

theorem links_payloads_ne : (links.map Link.payload).Nodup := by
  change ((links.map Link.claims).map TokenClaims.encode).Nodup
  exact List.pairwise_map.2 links_claims_ne

theorem links_embed : links.IsChain fun l u =>
    ∃ kind, l.claims.upward = some (kind, u.token.encode) :=
  .cons_cons ⟨.parent, rfl⟩ (.cons_cons ⟨.authorisation, rfl⟩ (.singleton _))

theorem forall_mem_links {p : Link → Prop} (hdelegated : p (.sample 3 delegated))
    (hminted : p (.sample 2 minted)) (hgrant : p (.sample 1 grant)) : ∀ l ∈ links, p l := by
  simpa [links] using ⟨hdelegated, hminted, hgrant⟩

theorem links_samples : ∀ l ∈ links, ∃ n, l = .sample n l.claims :=
  forall_mem_links ⟨3, rfl⟩ ⟨2, rfl⟩ ⟨1, rfl⟩

theorem options_chainOf :
    ChainOf options.codec.toDecoder (Link.sample 3 delegated).token links :=
  .of_samples (fun _ _ => TypeScript.Codec.among_reads links_claims_ne links_tokens_ne)
    links_samples links_embed rfl

theorem options_accepted : Accepted options.rule none links := by
  have hadmits : ∀ l ∈ links, options.rule.Admits l :=
    forall_mem_links (TypeScript.admits_sample rfl rfl rfl (by decide) rfl (by decide))
      (TypeScript.admits_sample rfl rfl rfl (by decide) rfl (by decide))
      (TypeScript.admits_sample rfl rfl rfl (by decide) rfl (by decide))
  have holds : ∀ subject, ∀ l ∈ links, options.rule.holds subject l.claims := fun subject =>
    forall_mem_links (TypeScript.holds_of_no_conditions rfl)
      (TypeScript.holds_of_no_conditions rfl) (TypeScript.holds_of_no_conditions rfl)
  have hparent : TypeScript.scopeNarrows minted.scope delegated.scope = true := by decide
  have hgrant : TypeScript.scopeNarrows grant.scope minted.scope = true := by decide
  exact ⟨hadmits, fun l hl => holds _ l (List.mem_of_mem_head? hl), .cons_cons
    ⟨.parent, rfl, ⟨rfl, hparent, by decide, by decide, rfl⟩, holds _ _ (by simp [links])⟩
    (.cons_cons ⟨.authorisation, rfl, ⟨rfl, hgrant, by decide, by decide, rfl, by decide⟩,
      holds _ _ (by simp [links])⟩ (.singleton _))⟩

theorem options_returns :
    options.Returns { token := (Link.sample 3 delegated).token, expectedBearer := none }
      (.ok (.ofChain (.sample 3 delegated) [.sample 2 minted, .sample 1 grant])) :=
  (TypeScript.returns_ok_iff TypeScript.Trilean.sample_kleene).2 ⟨_, _, options_chainOf,
    options_accepted, by decide, TypeScript.fresh_of_ne links_payloads_ne, nofun, rfl⟩

theorem verifier_chainOf :
    ChainOf verifier.codec.toDecoder (Link.sample 3 delegated).token links :=
  .of_samples (fun _ _ => Rust.Codec.among_reads links_claims_ne links_tokens_ne) links_samples
    links_embed rfl

theorem verifier_accepted : Accepted verifier.rule none links := by
  have hadmits : ∀ l ∈ links, verifier.rule.Admits l :=
    forall_mem_links
      (Rust.admits_sample rfl rfl rfl (by decide) (by decide) (by decide) rfl (by decide))
      (Rust.admits_sample rfl rfl rfl (by decide) (by decide) (by decide) rfl (by decide))
      (Rust.admits_sample rfl rfl rfl (by decide) (by decide) (by decide) rfl (by decide))
  have holds : ∀ subject, ∀ l ∈ links, verifier.rule.holds subject l.claims := fun subject =>
    forall_mem_links (Rust.holds_of_no_conditions rfl)
      (Rust.holds_of_no_conditions rfl) (Rust.holds_of_no_conditions rfl)
  have hparent : Rust.CapabilityScope.isWithin delegated.scope minted.scope = true := by decide
  have hgrant : Rust.CapabilityScope.isWithin minted.scope grant.scope = true := by decide
  exact ⟨hadmits, fun l hl => holds _ l (List.mem_of_mem_head? hl), .cons_cons
    ⟨.parent, rfl, ⟨rfl, hparent, by decide, by decide, rfl⟩, holds _ _ (by simp [links])⟩
    (.cons_cons ⟨.authorisation, rfl, ⟨rfl, hgrant, by decide, by decide, rfl, by decide⟩,
      holds _ _ (by simp [links])⟩ (.singleton _))⟩

theorem verifier_returns :
    verifier.Returns { token := (Link.sample 3 delegated).token, expectedBearer := none }
      (.ok (.ofChain (.start (Link.sample 3 delegated).token) (.sample 3 delegated)
        [.sample 2 minted, .sample 1 grant])) :=
  Rust.returns_valid_iff.2 ⟨_, _, verifier_chainOf, verifier_accepted, by decide,
    ⟨by decide, by simp⟩, nofun, rfl⟩

end Sample

/-! ## Soundness -/

/-- Whenever a verifier accepts a token, the chain of the token is sound, its leaf is what
    is reported and its last link is issued by the reported root. -/
theorem verify_sound :
    (∀ (options : TypeScript.VerifyOptions) (query : TypeScript.Query)
        (v : TypeScript.TokenAccepted), options.trilean.Kleene → options.Returns query (.ok v) →
      ∃ links, ∃ hne : links ≠ [], ChainOf options.codec.toDecoder query.token links ∧
        Sound options.identity (fun upper lower => TypeScript.scopeNarrows upper lower) links ∧
        v.claims = (links.head hne).claims ∧
        v.rootIssuer = (links.getLast hne).claims.issuer) ∧
    (∀ (verifier : Rust.Verifier) (query : Rust.Query) (v : Rust.TokenValid),
      verifier.Returns query (.ok v) →
      ∃ links, ∃ hne : links ≠ [], ChainOf verifier.codec.toDecoder query.token links ∧
        Sound verifier.identity
          (fun upper lower => Rust.CapabilityScope.isWithin lower upper) links ∧
        v.claims = (links.head hne).claims ∧
        v.rootIssuer = (links.getLast hne).claims.issuer) := by
  constructor
  · intro options query v ht h
    obtain ⟨leaf, above, hchain, hacc, rfl⟩ := TypeScript.exists_accepted ht h
    exact ⟨leaf :: above, hchain.ne_nil, hchain,
      hacc.sound fun _ _ _ => TypeScript.scopeNarrows_trans, rfl, rfl⟩
  · intro verifier query v h
    obtain ⟨leaf, above, hchain, hacc, rfl⟩ := Rust.exists_accepted h
    exact ⟨leaf :: above, hchain.ne_nil, hchain,
      hacc.sound fun _ _ _ => Rust.CapabilityScope.isWithin_trans, rfl, rfl⟩

theorem verify_sound_sample :
    (∃ links, ChainOf Sample.options.codec.toDecoder (Link.sample 3 Sample.delegated).token links ∧
      Sound Sample.options.identity (fun upper lower => TypeScript.scopeNarrows upper lower)
        links) ∧
    ∃ links, ChainOf Sample.verifier.codec.toDecoder (Link.sample 3 Sample.delegated).token links ∧
      Sound Sample.verifier.identity
        (fun upper lower => Rust.CapabilityScope.isWithin lower upper) links := by
  obtain ⟨links, -, hchain, hsound, -⟩ :=
    verify_sound.1 _ _ _ TypeScript.Trilean.sample_kleene Sample.options_returns
  obtain ⟨links', -, hchain', hsound', -⟩ := verify_sound.2 _ _ _ Sample.verifier_returns
  exact ⟨⟨links, hchain, hsound⟩, links', hchain', hsound'⟩

/-- In every chain a verifier accepts, a bound on re-delegation bounds the number of links
    below it, which carry strictly decreasing bounds. -/
theorem verify_delegation_bounded :
    (∀ (options : TypeScript.VerifyOptions) (query : TypeScript.Query)
        (v : TypeScript.TokenAccepted), options.trilean.Kleene → options.Returns query (.ok v) →
      ∃ links, ChainOf options.codec.toDecoder query.token links ∧ Bounded links) ∧
    (∀ (verifier : Rust.Verifier) (query : Rust.Query) (v : Rust.TokenValid),
      verifier.Returns query (.ok v) →
      ∃ links, ChainOf verifier.codec.toDecoder query.token links ∧ Bounded links) := by
  constructor
  · intro options query v ht h
    obtain ⟨leaf, above, hchain, hacc, -⟩ := TypeScript.exists_accepted ht h
    exact ⟨leaf :: above, hchain, hacc.bounded⟩
  · intro verifier query v h
    obtain ⟨leaf, above, hchain, hacc, -⟩ := Rust.exists_accepted h
    exact ⟨leaf :: above, hchain, hacc.bounded⟩

theorem verify_delegation_bounded_sample :
    (∃ links, ChainOf Sample.options.codec.toDecoder (Link.sample 3 Sample.delegated).token links ∧
      Bounded links) ∧
    ∃ links, ChainOf Sample.verifier.codec.toDecoder (Link.sample 3 Sample.delegated).token links ∧
      Bounded links :=
  ⟨verify_delegation_bounded.1 _ _ _ TypeScript.Trilean.sample_kleene Sample.options_returns,
    verify_delegation_bounded.2 _ _ _ Sample.verifier_returns⟩

end WireMesh
