import WireMesh.Soundness

/-!
# The two verifiers agree

The TypeScript verifier recurses to the root and compares the links on its way
back, the Rust one loops up and carries the token below along. They remember
different things of the tokens they have seen: the one the payloads, the other
one the token-ids. Both accept the chains their policies accept, and on plain
chains, in which no conditions are carried and no path ends in a slash, the
policies demand the same: `verifiers_agree`.
-/

namespace WireMesh

/-- What makes the verifiers comparable on a link: conditions, of which each knows its own,
    are absent, the claims are in the grammar only the Rust one checks, and the path does not
    end in a slash, which only the TypeScript one takes for the end of a segment. -/
@[grind cases]
structure Link.Plain (l : Link) : Prop where
  conditions : l.claims.conditions = none
  grammatical : Rust.Grammatical l.claims
  path : ∀ p ∈ l.claims.scope.path, p.toList.getLast? ≠ some '/'

/-- Below a path that does not end in a slash, the verifiers see the same scopes. -/
theorem scopeNarrows_iff_isWithin {upper lower : CapabilityScope}
    (hpath : ∀ p ∈ upper.path, p.toList.getLast? ≠ some '/') :
    TypeScript.scopeNarrows upper lower ↔ Rust.CapabilityScope.isWithin lower upper := by
  rw [TypeScript.scopeNarrows_iff, Rust.CapabilityScope.isWithin_iff]
  refine and_congr_right fun _ => forall₂_congr fun p hp => exists_congr fun c =>
    and_congr_right fun _ => ?_
  have hbelow : Below '/' (·.getLast? = some '/') p.toList c.toList ↔
      Below '/' (fun _ => False) p.toList c.toList := below_congr (iff_false_intro (hpath p hp))
  rw [TypeScript.pathNarrows_iff, hbelow]
  rfl

/-- One notion of narrowing, except below a path that ends in a slash: what continues that path is
    within it for one side only, unless it goes on with a slash. -/
theorem scope_narrowing_agrees (parent child : CapabilityScope) :
    TypeScript.scopeNarrows parent child = Rust.CapabilityScope.isWithin child parent ↔
      ∀ p ∈ parent.path, ∀ c ∈ child.path, parent.kind = child.kind →
        Rust.CapabilityScope.hasRelativeSegment p = false →
        Rust.CapabilityScope.hasRelativeSegment c = false →
        p.toList.getLast? = some '/' → p.toList <+: c.toList →
          p = c ∨ c.toList[p.toList.length]? = some '/' := by
  rw [Bool.eq_iff_iff, TypeScript.scopeNarrows_iff, Rust.CapabilityScope.isWithin_iff]
  have hsame : TypeScript.hasRelativeSegment = Rust.CapabilityScope.hasRelativeSegment := rfl
  cases hparent : parent.path with
  | none => simp
  | some p =>
    cases hchild : child.path with
    | none => simp
    | some c =>
      simp only [Option.mem_def, Option.some.injEq, forall_eq', exists_eq_left',
        TypeScript.pathNarrows_iff, hsame, Below, String.toList_inj, false_or]
      grind

/-- A path that ends in a slash has descendants for one side only. -/
theorem scope_narrowing_differs :
    let parent : CapabilityScope := { kind := "host", path := some "/work/" }
    let child : CapabilityScope := { kind := "host", path := some "/work/sub" }
    TypeScript.scopeNarrows parent child = true ∧
      Rust.CapabilityScope.isWithin child parent = false := by decide

section

variable {options : TypeScript.VerifyOptions} {verifier : Rust.Verifier} {links : List Link}

/-- The policies demand the same of plain links when nothing is revoked. -/
theorem accepted_iff_accepted {subject : Option TokenClaims}
    (hidentity : options.identity = verifier.identity) (hnow : options.now = verifier.now)
    (hoptions : ∀ tokenId, options.entriesFor tokenId = [])
    (hverifier : ∀ tokenId, verifier.entriesFor tokenId = [])
    (hplain : ∀ l ∈ links, l.Plain) :
    Accepted options.rule subject links ↔ Accepted verifier.rule subject links := by
  replace hidentity : options.rule.identity = verifier.rule.identity := hidentity
  replace hnow : options.rule.now = verifier.rule.now := hnow
  have hscope : ∀ l ∈ links, ∀ u ∈ links,
      options.rule.narrows u.claims.scope l.claims.scope ↔
        verifier.rule.narrows u.claims.scope l.claims.scope := fun _ _ u hu =>
    scopeNarrows_iff_isWithin (hplain u hu).path
  constructor
  · intro h
    refine h.imp (fun l hl hadmits => ?_) (fun l hl u hu => (hscope l hl u hu).1)
      fun _ l hl _ => Rust.holds_of_no_conditions (hplain l hl).conditions
    exact ⟨hidentity ▸ hadmits.vouched, (hplain l hl).grammatical, hnow ▸ hadmits.current,
      Rust.unrevoked_of_no_entries (hverifier _), hadmits.wellLinked⟩
  · intro h
    refine h.imp (fun l hl hadmits => ?_) (fun l hl u hu => (hscope l hl u hu).2)
      fun _ l hl _ => TypeScript.holds_of_no_conditions (hplain l hl).conditions
    exact ⟨hidentity ▸ hadmits.vouched, trivial, hnow ▸ hadmits.current,
      TypeScript.unrevoked_of_no_entries (hoptions _), hadmits.wellLinked⟩

/-- Links with distinct token-ids have distinct payloads, which decode to them. -/
theorem payloads_nodup {d : Decoder} {token : CapabilityToken} (h : ChainOf d token links)
    (hids : (links.map (·.claims.tokenId)).Nodup) : (links.map Link.payload).Nodup := by
  refine List.Nodup.map_on (fun l hl l' hl' hpayload => ?_) (List.Nodup.of_map _ hids)
  have hclaims : l.claims = l'.claims := Option.some_inj.1
    ((h.claims_eq l hl).symm.trans (hpayload ▸ h.claims_eq l' hl'))
  exact List.inj_on_of_nodup_map hids hl hl' (congrArg TokenClaims.tokenId hclaims)

end

/-- With the same signatures and hashes and nothing revoked, one verifier accepts the token
    of a plain chain with distinct token-ids iff the other one does, whatever its length, the
    time and the bearer expected, and they report the same leaf and root. -/
theorem verifiers_agree (options : TypeScript.VerifyOptions) (verifier : Rust.Verifier)
    (ht : options.trilean.Kleene) (hidentity : options.identity = verifier.identity)
    (hnow : options.now = verifier.now) (hoptions : ∀ tokenId, options.entriesFor tokenId = [])
    (hverifier : ∀ tokenId, verifier.entriesFor tokenId = []) (token : CapabilityToken)
    (bearer : Option DeviceId) (links : List Link)
    (hlinks : ChainOf options.codec.toDecoder token links)
    (hlinks' : ChainOf verifier.codec.toDecoder token links)
    (hplain : ∀ l ∈ links, l.Plain) (hids : (links.map (·.claims.tokenId)).Nodup) :
    ((∃ v, options.Returns { token, expectedBearer := bearer } (.ok v)) ↔
      ∃ w, verifier.Returns { token, expectedBearer := bearer } (.ok w)) ∧
    ∀ v w, options.Returns { token, expectedBearer := bearer } (.ok v) →
      verifier.Returns { token, expectedBearer := bearer } (.ok w) →
        v.claims = w.claims ∧ v.rootIssuer = w.rootIssuer := by
  have haccepted : Accepted options.rule none links ↔ Accepted verifier.rule none links :=
    accepted_iff_accepted hidentity hnow hoptions hverifier hplain
  simp only [TypeScript.returns_ok_iff ht, Rust.returns_valid_iff]
  refine ⟨⟨?_, ?_⟩, ?_⟩
  · rintro ⟨_, leaf, above, hchain, hacc, hlen, -, hbearer, rfl⟩
    obtain rfl := hlinks.unique hchain
    exact ⟨_, leaf, above, hlinks', haccepted.1 hacc, hlen, ⟨hids, by simp⟩, hbearer, rfl⟩
  · rintro ⟨_, leaf, above, hchain, hacc, hlen, -, hbearer, rfl⟩
    obtain rfl := hlinks'.unique hchain
    exact ⟨_, leaf, above, hlinks, haccepted.2 hacc, hlen,
      TypeScript.fresh_of_ne (payloads_nodup hlinks hids), hbearer, rfl⟩
  · rintro _ _ ⟨leaf, above, hchain, -, -, -, -, rfl⟩ ⟨leaf', above', hchain', -, -, -, -, rfl⟩
    obtain rfl := hlinks.unique hchain
    cases hlinks'.unique hchain'
    exact ⟨rfl, rfl⟩

theorem verifiers_agree_sample :
    ((∃ v, Sample.options.Returns
        { token := (Link.sample 3 Sample.delegated).token, expectedBearer := none } (.ok v)) ↔
      ∃ w, Sample.verifier.Returns
        { token := (Link.sample 3 Sample.delegated).token, expectedBearer := none } (.ok w)) :=
  (verifiers_agree Sample.options Sample.verifier TypeScript.Trilean.sample_kleene rfl rfl
    (fun _ => rfl) (fun _ => rfl) _ none _ Sample.options_chainOf Sample.verifier_chainOf
    (Sample.forall_mem_links ⟨rfl, ⟨by decide, by decide, by decide⟩, by decide⟩
      ⟨rfl, ⟨by decide, by decide, by decide⟩, by decide⟩
      ⟨rfl, ⟨by decide, by decide, by decide⟩, by decide⟩) (by decide)).1

end WireMesh
