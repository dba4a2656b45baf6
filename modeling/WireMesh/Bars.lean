import WireMesh.Soundness

/-!
# No-self-grant bars

A grant-capability may carry a bar: the condition that a given device does not
mint a token for a given verb naming itself as bearer. A bar is a condition on
the token minted directly under the grant-capability, and binds nothing
further down: the device may mint itself another grant-capability without the
bar, or mint the barred token for somebody else who delegates it back.

These are the only two ways around it (`noSelfGrantBar_evaded`).
-/

namespace WireMesh

/-! ## Bars in a chain -/

/-- The link by which a device `d` comes to issue itself a token for the verb `c` although
    that is barred: a further grant-capability, or a token for `c` from another device. -/
def Evades (c : String) (d : DeviceId) (l : Link) : Prop :=
  l.claims.capability = manageGrant ∨
    l.claims.capability = c ∧ l.claims.issuer ≠ d ∧ l.claims.bearer = d

/-- Conditions that hold are about a token, and not about one for `c` that `d` bears. -/
def Policy.Bars (P : Policy) (c : String) (d : DeviceId) (claims : TokenClaims) : Prop :=
  ∀ subject, P.holds subject claims →
    ∃ s, subject = some s ∧ ¬(s.capability = c ∧ s.bearer = d)

/-- Between a token that a bar forbids and the bar lies a link that evades it. -/
theorem exists_evades {P : Policy} {c : String} {d : DeviceId} {t g : Link}
    {mid above : List Link} (h : (t :: mid ++ g :: above).IsChain P.Joins)
    (hbar : P.Bars c d g.claims) (hcapability : t.claims.capability = c)
    (hissuer : t.claims.issuer = d) (hbearer : t.claims.bearer = d) :
    ∃ l ∈ mid, Evades c d l := by
  induction mid generalizing t with
  | nil =>
    -- The token is minted directly under the bar, so that the bar is about it.
    obtain ⟨⟨kind, -, -, hholds⟩, -⟩ := List.isChain_cons_cons.1 h
    obtain ⟨s, hs, hnot⟩ := hbar _ hholds
    cases kind with
    | parent => cases hs
    | authorisation =>
      cases hs
      exact absurd ⟨hcapability, hbearer⟩ hnot
  | cons u mid ih =>
    obtain ⟨⟨kind, -, hup, -⟩, h⟩ := List.isChain_cons_cons.1 h
    by_cases hevades : Evades c d u
    · exact ⟨u, List.mem_cons_self, hevades⟩
    · rw [Evades, not_or] at hevades
      obtain ⟨hgrant, hother⟩ := hevades
      -- Otherwise the next token up is a parent, and one the bar forbids as well.
      grind

/-- So it is in every chain that is accepted. -/
theorem Accepted.exists_evades {P : Policy} {links below mid above : List Link} {t g : Link}
    (h : Accepted P none links) (hlinks : links = below ++ t :: mid ++ g :: above) {c : String}
    {d : DeviceId} (hbar : P.Bars c d g.claims) (hissuer : t.claims.issuer = d)
    (hcapability : t.claims.capability = c) (hbearer : t.claims.bearer = d) :
    ∃ l ∈ mid, Evades c d l := by
  rw [List.append_assoc] at hlinks
  have hjoined := hlinks ▸ h.joined
  exact WireMesh.exists_evades hjoined.right_of_append hbar hcapability hissuer hbearer

/-- The bar is among the conditions a token carries. -/
def TypeScript.VerifyOptions.HasBar (options : VerifyOptions) (c : String) (d : DeviceId)
    (claims : TokenClaims) : Prop :=
  ∃ bytes nodes, claims.conditions = some bytes ∧ options.codec.conditions bytes = some nodes ∧
    noSelfGrantBar c d ∈ nodes

/-- The bar is among the conditions a token carries. -/
def Rust.Verifier.HasBar (verifier : Verifier) (c : String) (d : DeviceId)
    (claims : TokenClaims) : Prop :=
  ∃ bytes nodes, claims.conditions = some bytes ∧ verifier.codec.conditions bytes = .ok nodes ∧
    noSelfGrantBar c d ∈ nodes

theorem TypeScript.bars_of_hasBar {options : VerifyOptions} (ht : options.trilean.Kleene)
    (hextra : ∀ system : SubjectSystem, options.extraPredicateResolvers system.name = none)
    {c : String} {d : DeviceId} {claims : TokenClaims} (h : options.HasBar c d claims) :
    options.rule.Bars c d claims := by
  obtain ⟨bytes, nodes, hconditions, hnodes, hbar⟩ := h
  intro subject hholds
  obtain ⟨nodes', hnodes', heval⟩ := hholds bytes hconditions
  cases hnodes.symm.trans hnodes'
  obtain ⟨s, hs, hnot⟩ := evaluateConditions_noSelfGrantBar ht hextra heval hbar
  obtain ⟨claims, rfl, rfl⟩ := Option.map_eq_some_iff.1 hs
  exact ⟨claims, rfl, hnot⟩

theorem Rust.bars_of_hasBar {verifier : Verifier} {c : String} {d : DeviceId}
    {claims : TokenClaims} (h : verifier.HasBar c d claims) :
    verifier.rule.Bars c d claims := by
  obtain ⟨bytes, nodes, hconditions, hnodes, hbar⟩ := h
  intro subject hholds
  obtain ⟨nodes', hnodes', heval⟩ := hholds bytes hconditions
  cases hnodes.symm.trans hnodes'
  obtain ⟨s, hs, hnot⟩ := evaluateConditions_noSelfGrantBar heval hbar
  obtain ⟨claims, rfl, rfl⟩ := Option.map_eq_some_iff.1 hs
  exact ⟨claims, rfl, hnot⟩

/-! ## A bar evaded -/

namespace Sample

/-- The bar of reading to device 2. -/
def readBar : TypeScript.PredicateNode :=
  TypeScript.noSelfGrantBar "fs:read" (Identity.sample 2).deviceId

/-- A grant-capability for files from device 1 to device 2, with the bar. -/
def barred : TokenClaims :=
  { TokenClaims.sample [1] 1 2 "manage:grant" with
    conditions := some (TypeScript.encodeConditions [readBar]) }

/-- A grant-capability without the bar, minted under it by device 2 for itself. -/
def unbarred : TokenClaims :=
  { TokenClaims.sample [2] 2 2 "manage:grant" with
    authorisedBy := some (Link.sample 1 barred).token.encode, notBefore := some 0 }

/-- The barred token, minted under that one. -/
def selfGrant : TokenClaims :=
  { TokenClaims.sample [3] 2 2 "fs:read" with
    authorisedBy := some (Link.sample 2 unbarred).token.encode, notBefore := some 0,
    validUntil := some 2000 }

/-- The chain by which the bar is evaded. -/
def evasion : List Link := [.sample 2 selfGrant, .sample 2 unbarred, .sample 1 barred]

def barOptions : TypeScript.VerifyOptions := .sample evasion [[readBar]]

def barVerifier : Rust.Verifier :=
  .sample evasion [(TypeScript.encodeConditions [readBar],
    [Rust.noSelfGrantBar "fs:read" (Identity.sample 2).deviceId])]

theorem evasion_claims_ne : (evasion.map Link.claims).Pairwise fun a b => a.encode ≠ b.encode := by
  decide +kernel

theorem evasion_tokens_ne : (evasion.map Link.token).Pairwise fun a b => a.encode ≠ b.encode := by
  decide +kernel

theorem evasion_payloads_ne : (evasion.map Link.payload).Nodup := by
  change ((evasion.map Link.claims).map TokenClaims.encode).Nodup
  exact List.pairwise_map.2 evasion_claims_ne

theorem evasion_embed : evasion.IsChain fun l u =>
    ∃ kind, l.claims.upward = some (kind, u.token.encode) :=
  .cons_cons ⟨.authorisation, rfl⟩ (.cons_cons ⟨.authorisation, rfl⟩ (.singleton _))

theorem forall_mem_evasion {p : Link → Prop} (hself : p (.sample 2 selfGrant))
    (hunbarred : p (.sample 2 unbarred)) (hbarred : p (.sample 1 barred)) :
    ∀ l ∈ evasion, p l := by
  simpa [evasion] using ⟨hself, hunbarred, hbarred⟩

theorem evasion_samples : ∀ l ∈ evasion, ∃ n, l = .sample n l.claims :=
  forall_mem_evasion ⟨2, rfl⟩ ⟨2, rfl⟩ ⟨1, rfl⟩

theorem barOptions_chainOf :
    ChainOf barOptions.codec.toDecoder (Link.sample 2 selfGrant).token evasion :=
  .of_samples (fun _ _ => TypeScript.Codec.among_reads evasion_claims_ne evasion_tokens_ne)
    evasion_samples evasion_embed rfl

theorem barOptions_nodes :
    barOptions.codec.conditions (TypeScript.encodeConditions [readBar]) = some [readBar] := by
  simp [barOptions, TypeScript.VerifyOptions.sample, TypeScript.Codec.among, decodeAmong]

/-- The bar spares the grant-capability that device 2 mints for itself. -/
theorem barOptions_holds : barOptions.rule.holds (some unbarred) barred := by
  rintro bytes ⟨⟩
  refine ⟨[readBar], barOptions_nodes, TypeScript.evaluateConditions_eq_true_iff.2 ?_⟩
  intro node hnode
  obtain rfl := List.mem_singleton.1 hnode
  exact (TypeScript.noSelfGrantBar_subject TypeScript.Trilean.sample_kleene).2 (by decide)

theorem barOptions_accepted : Accepted barOptions.rule none evasion := by
  have hadmits : ∀ l ∈ evasion, barOptions.rule.Admits l :=
    forall_mem_evasion (TypeScript.admits_sample rfl rfl rfl (by decide) rfl (by decide))
      (TypeScript.admits_sample rfl rfl rfl (by decide) rfl (by decide))
      (TypeScript.admits_sample rfl rfl rfl (by decide) rfl (by decide))
  have hscope : TypeScript.scopeNarrows barred.scope barred.scope = true := by decide
  refine ⟨hadmits, ?_, .cons_cons ⟨.authorisation, rfl, ⟨rfl, hscope, by decide, by decide, rfl,
    by decide⟩, TypeScript.holds_of_no_conditions rfl⟩ (.cons_cons ⟨.authorisation, rfl, ⟨rfl,
    hscope, by decide, by decide, rfl, by decide⟩, barOptions_holds⟩ (.singleton _))⟩
  rintro l ⟨⟩
  exact TypeScript.holds_of_no_conditions rfl

theorem barOptions_returns :
    barOptions.Returns { token := (Link.sample 2 selfGrant).token, expectedBearer := none }
      (.ok (.ofChain (.sample 2 selfGrant) [.sample 2 unbarred, .sample 1 barred])) :=
  (TypeScript.returns_ok_iff TypeScript.Trilean.sample_kleene).2 ⟨_, _, barOptions_chainOf,
    barOptions_accepted, by decide, TypeScript.fresh_of_ne evasion_payloads_ne, nofun, rfl⟩

theorem barVerifier_chainOf :
    ChainOf barVerifier.codec.toDecoder (Link.sample 2 selfGrant).token evasion :=
  .of_samples (fun _ _ => Rust.Codec.among_reads evasion_claims_ne evasion_tokens_ne)
    evasion_samples evasion_embed rfl

theorem barVerifier_nodes :
    barVerifier.codec.conditions (TypeScript.encodeConditions [readBar]) =
      .ok [Rust.noSelfGrantBar "fs:read" (Identity.sample 2).deviceId] := by
  simp [barVerifier, Rust.Verifier.sample, Rust.Codec.among, decodeAmong]

theorem barVerifier_holds : barVerifier.rule.holds (some unbarred) barred := by
  rintro bytes ⟨⟩
  exact ⟨_, barVerifier_nodes, by decide⟩

theorem barVerifier_accepted : Accepted barVerifier.rule none evasion := by
  have hadmits : ∀ l ∈ evasion, barVerifier.rule.Admits l :=
    forall_mem_evasion
      (Rust.admits_sample rfl rfl rfl (by decide) (by decide) (by decide) rfl (by decide))
      (Rust.admits_sample rfl rfl rfl (by decide) (by decide) (by decide) rfl (by decide))
      (Rust.admits_sample rfl rfl rfl (by decide) (by decide) (by decide) rfl (by decide))
  have hscope : Rust.CapabilityScope.isWithin barred.scope barred.scope = true := by decide
  refine ⟨hadmits, ?_, .cons_cons ⟨.authorisation, rfl, ⟨rfl, hscope, by decide, by decide, rfl,
    by decide⟩, Rust.holds_of_no_conditions rfl⟩ (.cons_cons ⟨.authorisation, rfl, ⟨rfl,
    hscope, by decide, by decide, rfl, by decide⟩, barVerifier_holds⟩ (.singleton _))⟩
  rintro l ⟨⟩
  exact Rust.holds_of_no_conditions rfl

theorem barVerifier_returns :
    barVerifier.Returns { token := (Link.sample 2 selfGrant).token, expectedBearer := none }
      (.ok (.ofChain (.start (Link.sample 2 selfGrant).token) (.sample 2 selfGrant)
        [.sample 2 unbarred, .sample 1 barred])) :=
  Rust.returns_valid_iff.2 ⟨_, _, barVerifier_chainOf, barVerifier_accepted, by decide,
    ⟨by decide, by simp⟩, nofun, rfl⟩

end Sample

/-- Both verifiers accept a token for reading that device 2 issued to itself, below a
    grant-capability it bears that bars it from that. -/
theorem noSelfGrantBar_sidestepped :
    (∃ v leaf unbarred barred, Sample.barOptions.Returns
        { token := (Link.sample 2 Sample.selfGrant).token, expectedBearer := none } (.ok v) ∧
      ChainOf Sample.barOptions.codec.toDecoder (Link.sample 2 Sample.selfGrant).token
        [leaf, unbarred, barred] ∧
      Sample.barOptions.HasBar "fs:read" (Identity.sample 2).deviceId barred.claims ∧
      barred.claims.bearer = (Identity.sample 2).deviceId ∧
      leaf.claims.issuer = (Identity.sample 2).deviceId ∧
      leaf.claims.capability = "fs:read" ∧
      leaf.claims.bearer = (Identity.sample 2).deviceId) ∧
    ∃ v leaf unbarred barred, Sample.barVerifier.Returns
        { token := (Link.sample 2 Sample.selfGrant).token, expectedBearer := none } (.ok v) ∧
      ChainOf Sample.barVerifier.codec.toDecoder (Link.sample 2 Sample.selfGrant).token
        [leaf, unbarred, barred] ∧
      Sample.barVerifier.HasBar "fs:read" (Identity.sample 2).deviceId barred.claims ∧
      barred.claims.bearer = (Identity.sample 2).deviceId ∧
      leaf.claims.issuer = (Identity.sample 2).deviceId ∧
      leaf.claims.capability = "fs:read" ∧
      leaf.claims.bearer = (Identity.sample 2).deviceId :=
  ⟨⟨_, _, _, _, Sample.barOptions_returns, Sample.barOptions_chainOf,
      ⟨_, _, rfl, Sample.barOptions_nodes, List.mem_singleton_self _⟩, rfl, rfl, rfl, rfl⟩,
    _, _, _, _, Sample.barVerifier_returns, Sample.barVerifier_chainOf,
      ⟨_, _, rfl, Sample.barVerifier_nodes, List.mem_singleton_self _⟩, rfl, rfl, rfl, rfl⟩

/-- In every chain a verifier accepts, a token for `c` that `d` issues to itself below a
    grant-capability that bars it has a link evading the bar in between. -/
theorem noSelfGrantBar_evaded :
    (∀ (options : TypeScript.VerifyOptions) (query : TypeScript.Query)
        (v : TypeScript.TokenAccepted), options.trilean.Kleene →
      (∀ system : TypeScript.SubjectSystem,
        options.extraPredicateResolvers system.name = none) →
      options.Returns query (.ok v) →
      ∃ links, ChainOf options.codec.toDecoder query.token links ∧
        ∀ c d below t mid g above, links = below ++ t :: mid ++ g :: above →
          options.HasBar c d g.claims → t.claims.issuer = d → t.claims.capability = c →
          t.claims.bearer = d → ∃ l ∈ mid, Evades c d l) ∧
    (∀ (verifier : Rust.Verifier) (query : Rust.Query) (v : Rust.TokenValid),
      verifier.Returns query (.ok v) →
      ∃ links, ChainOf verifier.codec.toDecoder query.token links ∧
        ∀ c d below t mid g above, links = below ++ t :: mid ++ g :: above →
          verifier.HasBar c d g.claims → t.claims.issuer = d → t.claims.capability = c →
          t.claims.bearer = d → ∃ l ∈ mid, Evades c d l) := by
  constructor
  · intro options query v ht hextra h
    obtain ⟨leaf, above, hchain, hacc, -⟩ := TypeScript.exists_accepted ht h
    refine ⟨leaf :: above, hchain, ?_⟩
    intro c d below t mid g above' hlinks hbar
    exact hacc.exists_evades hlinks (TypeScript.bars_of_hasBar ht hextra hbar)
  · intro verifier query v h
    obtain ⟨leaf, above, hchain, hacc, -⟩ := Rust.exists_accepted h
    refine ⟨leaf :: above, hchain, ?_⟩
    intro c d below t mid g above' hlinks hbar
    exact hacc.exists_evades hlinks (Rust.bars_of_hasBar hbar)

theorem noSelfGrantBar_evaded_sample :
    (∃ l ∈ [Link.sample 2 Sample.unbarred], Evades "fs:read" (Identity.sample 2).deviceId l) ∧
      ∃ l ∈ [Link.sample 2 Sample.unbarred],
        Evades "fs:read" (Identity.sample 2).deviceId l := by
  constructor
  · obtain ⟨links, hchain, h⟩ := noSelfGrantBar_evaded.1 _ _ _ TypeScript.Trilean.sample_kleene
      (fun _ => rfl) Sample.barOptions_returns
    exact h _ _ [] _ [.sample 2 Sample.unbarred] _ []
      (hchain.unique Sample.barOptions_chainOf)
      ⟨_, _, rfl, Sample.barOptions_nodes, List.mem_singleton_self _⟩ rfl rfl rfl
  · obtain ⟨links, hchain, h⟩ := noSelfGrantBar_evaded.2 _ _ _ Sample.barVerifier_returns
    exact h _ _ [] _ [.sample 2 Sample.unbarred] _ []
      (hchain.unique Sample.barVerifier_chainOf)
      ⟨_, _, rfl, Sample.barVerifier_nodes, List.mem_singleton_self _⟩ rfl rfl rfl

end WireMesh
