import WireMesh.TypeScript.Predicates

/-!
# Token verification (TypeScript)

The verifier of `tokens.ts`. It walks from the presented token up to its root,
recursing on the embedded token, and compares adjacent links on the way back.
Every link is checked against the revocation view: an entry revokes the tokens
of its own issuer, or those within the scope of a `manage:revoke` token it
carries, which is verified in turn. That verification is a call of the verifier
on another token (`Query`), so that the verifier is a recursive computation
(`verifyCapabilityToken`) whose outcome, if there is one, is what it `Returns`.

* `verifyTokenChain_accepts`: the walk accepts iff the token has a chain within
  the remaining hops, without a payload repeated, that is accepted under the
  policy of the verifier (`VerifyOptions.policy`), and it reports the leaf's
  claims and the root's issuer.
* `verifyCapabilityToken_accepts`: so does the verifier, for the expected bearer.
-/

namespace WireMesh.TypeScript

open Async

/-! ## The verifier -/

/-- How many tokens a chain may have. -/
def maxChainDepth : ℕ := 64

inductive TokenVerdictReason
  | malformed | badSignature | wrongIssuer | bearerMismatch | expired | notYetValid
  | contentExpired | revoked | delegationExceedsParent | parentInvalid | authorisationInvalid
  | chainTooDeep | chainCycle | conditionsInvalid | conditionsNotSatisfied
deriving DecidableEq

/-- What an accepting verdict reports: the leaf's claims, the issuer of the root of its
    chain and that issuer's key, and the number of links between the two. -/
structure TokenAccepted where
  claims : TokenClaims
  rootIssuer : DeviceId
  rootIssuerKey : IdentityKey
  depth : ℕ
deriving DecidableEq

abbrev TokenVerdict := Except TokenVerdictReason TokenAccepted

/-- What bytes decode to, when they decode and fit the schema. -/
structure Codec extends Decoder where
  conditions : Bytes → Option (List PredicateNode)

/-- The codec that knows the encodings of the given values. -/
def Codec.among (claims : List TokenClaims) (tokens : List CapabilityToken)
    (conditions : List (List PredicateNode)) : Codec where
  claims := decodeAmong TokenClaims.encode claims
  token := decodeAmong CoseSign1.encode tokens
  conditions := decodeAmong encodeConditions conditions

theorem Codec.among_reads {links : List Link} {conditions : List (List PredicateNode)}
    (hclaims : (links.map Link.claims).Pairwise fun a b => a.encode ≠ b.encode)
    (htokens : (links.map Link.token).Pairwise fun a b => a.encode ≠ b.encode)
    {n : UInt8} {claims : TokenClaims} (h : .sample n claims ∈ links) :
    let d := (Codec.among (links.map Link.claims) (links.map Link.token) conditions).toDecoder
    d.Reads (Link.sample n claims).token (.sample n claims) ∧
      d.token (Link.sample n claims).token.encode = some (Link.sample n claims).token :=
  ⟨Link.sample_reads (decodeAmong_eq hclaims (List.mem_map_of_mem (f := Link.claims) h)),
    decodeAmong_eq htokens (List.mem_map_of_mem h)⟩

/-- What a verifier is given, beside the libraries it is built on. -/
structure VerifyOptions where
  codec : Codec
  trilean : Trilean
  identity : Identity
  now : ℕ
  /-- The recorded revocation entries for a token-id. -/
  entriesFor : Bytes → List RevocationClaims
  extraPredicateResolvers : String → Option TokenDelegateHandler

/-- A token to be verified, with the device it has to bear, if any. -/
structure Query where
  token : CapabilityToken
  expectedBearer : Option DeviceId
deriving DecidableEq

/-- A verification: it may verify other tokens, refuse the token, or fail altogether. -/
abbrev Verify := ExceptT TokenVerdictReason (Async Query TokenVerdict String)

section Verifier

variable (options : VerifyOptions)

/-- Whether a recorded revocation entry revokes the target: it is of the same issuer, or
    it carries an authority over the target granted to its issuer. -/
def revocationEntryGrantsRevoke (entry : RevocationClaims) (target : TokenClaims) :
    Async Query TokenVerdict String Bool :=
  if entry.issuer = target.issuer then pure true
  else match entry.authorization with
    | none => pure false
    | some bytes => match options.codec.token bytes with
      | none => pure false
      | some authorization => do
        let verdict ← ask { token := authorization, expectedBearer := some entry.issuer }
        match verdict with
        | .ok accepted =>
          return accepted.claims.capability = manageRevoke &&
            scopeNarrows accepted.claims.scope target.scope
        | .error _ => return false

/-- The conditions a token carries, about the subject if there is one. -/
def verifyConditions (claims : TokenClaims) (subjectClaims : Option GrantSubject) :
    Verify Unit :=
  match claims.conditions with
  | none => pure ()
  | some bytes => do
    let nodes ← orRefuse (options.codec.conditions bytes) .conditionsInvalid
    let satisfied ← await (ofExcept (evaluateConditions options.trilean nodes claims options.now
      options.extraPredicateResolvers subjectClaims))
    ensure (satisfied = true) .conditionsNotSatisfied

/-- The checks of a token on its own, once its payload is known to be new. -/
def verifyLink (token : CapabilityToken) (payload : Bytes)
    (subjectClaims : Option GrantSubject) : Verify TokenClaims := do
  let claims ← orRefuse (options.codec.claims payload) .malformed
  let signatureOk ← await (ofExcept (options.identity.verify claims.issuerKey
    (sig1ToBeSigned token.protectedHeader payload) token.signature))
  ensure (signatureOk = true) .badSignature
  ensure (options.identity.deriveDeviceId claims.issuerKey.publicKey = claims.issuer) .wrongIssuer
  ensure (¬claims.expires ≤ options.now) .expired
  ensure (¬∃ t ∈ claims.notBefore, options.now < t) .notYetValid
  ensure (¬∃ t ∈ claims.validUntil, t ≤ options.now) .contentExpired
  let revokedBy ← await (firstAsync (options.entriesFor claims.tokenId) fun entry =>
    revocationEntryGrantsRevoke options entry claims)
  ensure (revokedBy = none) .revoked
  verifyConditions options claims subjectClaims
  ensure (¬(claims.capability = manageGrant ∧ claims.parent.isSome)) .authorisationInvalid
  ensure (¬(claims.parent.isSome ∧ claims.authorisedBy.isSome)) .malformed
  return claims

/-- Too deep a chain and a cyclic one are properties of the whole chain and surface as
    themselves; any other refusal of the token above refuses the link to it. -/
def surfaceAs (reason : TokenVerdictReason) : TokenVerdictReason → TokenVerdictReason
  | .chainTooDeep => .chainTooDeep
  | .chainCycle => .chainCycle
  | _ => reason

/-- The obligations of an authorised-by link. -/
def authorisationLinkOk (authoriser claims : TokenClaims) : Bool :=
  authoriser.bearer = claims.issuer && authoriser.capability = manageGrant &&
    (authoriser.grantsCapability = none || authoriser.grantsCapability = some claims.capability) &&
    scopeNarrows authoriser.scope claims.scope && claims.expires ≤ authoriser.expires &&
    match authoriser.delegationsRemaining, claims.delegationsRemaining with
    | none, _ => true
    | some _, none => false
    | some bound, some remaining => remaining < bound

/-- One step of the walk, `above` being the walk from the token above on. -/
def verifyStep
    (above : CapabilityToken → Option GrantSubject → List String → Verify TokenAccepted)
    (token : CapabilityToken) (subjectClaims : Option GrantSubject) (seen : List String) :
    Verify TokenAccepted := do
  let payload ← orRefuse token.payload .malformed
  let payloadHex := bytesToHex payload
  ensure (payloadHex ∉ seen) .chainCycle
  let claims ← verifyLink options token payload subjectClaims
  match claims.upward with
  | none =>
    return { claims, rootIssuer := claims.issuer, rootIssuerKey := claims.issuerKey, depth := 0 }
  | some (.parent, parentBytes) =>
    let parent ← orRefuse (options.codec.token parentBytes) .parentInvalid
    let parentVerdict ←
      (above parent none (payloadHex :: seen)).adapt (surfaceAs .parentInvalid)
    let failedSystem ← await (ofExcept (evaluateNarrowing options.trilean parentVerdict.claims
      claims.issuer (.ofClaims claims)))
    ensure (failedSystem = none) .delegationExceedsParent
    return { parentVerdict with claims, depth := parentVerdict.depth + 1 }
  | some (.authorisation, authorisationBytes) =>
    let authoriser ← orRefuse (options.codec.token authorisationBytes) .authorisationInvalid
    let authoriserVerdict ← (above authoriser (some (.ofClaims claims)) (payloadHex :: seen)).adapt
      (surfaceAs .authorisationInvalid)
    ensure (authorisationLinkOk authoriserVerdict.claims claims = true) .authorisationInvalid
    return { authoriserVerdict with claims, depth := authoriserVerdict.depth + 1 }

/-- The walk up from a token, with so many hops left, `seen` being the payloads below. -/
def verifyTokenChain : ℕ → CapabilityToken → Option GrantSubject → List String →
    Verify TokenAccepted
  | 0 => fun token _ _ => do
    let _ ← orRefuse token.payload .malformed
    refuse .chainTooDeep
  | hops + 1 => verifyStep options (verifyTokenChain hops)

/-- The verification of a token, as a computation that calls itself on the authorizations
    of revocation entries. -/
def verifyCapabilityToken (query : Query) : Async Query TokenVerdict String TokenVerdict :=
  ExceptT.run do
    let verdict ← verifyTokenChain options maxChainDepth query.token none []
    ensure (∀ bearer ∈ query.expectedBearer, verdict.claims.bearer = bearer) .bearerMismatch
    return verdict

end Verifier

/-! ## What it accepts -/

section Accepts

variable (options : VerifyOptions) (ans : Query → Except String TokenVerdict → Prop)

/-- The conditions a token carries hold, about the subject if there is one. -/
def VerifyOptions.ConditionsHold (subject : Option GrantSubject) (claims : TokenClaims) : Prop :=
  ∀ bytes ∈ claims.conditions, ∃ nodes, options.codec.conditions bytes = some nodes ∧
    evaluateConditions options.trilean nodes claims options.now options.extraPredicateResolvers
      subject = .ok true

/-- No recorded entry revokes the token, the authorizations being answered for by `ans`. -/
def VerifyOptions.Unrevoked (claims : TokenClaims) : Prop :=
  ∀ entry ∈ options.entriesFor claims.tokenId,
    Settles ans (revocationEntryGrantsRevoke options entry claims) (.ok false)

/-- What the verifier demands of a chain. -/
def VerifyOptions.policy : Policy where
  identity := options.identity
  now := options.now
  narrows upper lower := scopeNarrows upper lower
  grammar _ := True
  unrevoked := options.Unrevoked ans
  holds subject claims := options.ConditionsHold (subject.map .ofClaims) claims

/-- The verdict on an accepted chain. -/
def TokenAccepted.ofChain (leaf : Link) (above : List Link) : TokenAccepted where
  claims := leaf.claims
  rootIssuer := ((leaf :: above).getLast (List.cons_ne_nil _ _)).claims.issuer
  rootIssuerKey := ((leaf :: above).getLast (List.cons_ne_nil _ _)).claims.issuerKey
  depth := above.length

variable {options ans}

theorem verifyConditions_accepts {claims : TokenClaims} {subject : Option GrantSubject}
    {u : Unit} :
    Accepts ans (verifyConditions options claims subject) u ↔
      options.ConditionsHold subject claims := by
  rw [verifyConditions, VerifyOptions.ConditionsHold]
  cases claims.conditions with
  | none => simp
  | some bytes => simp

theorem revokedBy_none_iff {claims : TokenClaims} :
    Settles ans (firstAsync (options.entriesFor claims.tokenId) fun entry =>
        revocationEntryGrantsRevoke options entry claims) (.ok none) ↔
      options.Unrevoked ans claims :=
  settles_findM?_none

/-- A token passes the checks on its own iff the policy admits it and its conditions hold. -/
theorem verifyLink_accepts {token : CapabilityToken} {payload : Bytes}
    {subject : Option GrantSubject} {claims : TokenClaims} :
    Accepts ans (verifyLink options token payload subject) claims ↔
      options.codec.claims payload = some claims ∧
        (options.policy ans).Admits { token, payload, claims } ∧
        options.ConditionsHold subject claims := by
  rw [verifyLink]
  simp only [accepts_bind, accepts_orRefuse, accepts_await, settles_ofExcept, accepts_ensure,
    accepts_pure, verifyConditions_accepts]
  constructor
  · rintro ⟨c, hclaims, b, hsigned, -, rfl, -, hissuer, -, hexpires, -, hbefore, -, huntil, r,
      hrevoked, -, rfl, -, hholds, -, hgrant, -, hexclusive, rfl⟩
    exact ⟨hclaims, ⟨⟨hsigned, hissuer⟩, trivial,
      TokenClaims.currentAt_iff.2 ⟨hexpires, hbefore, huntil⟩,
      revokedBy_none_iff.1 hrevoked, TokenClaims.wellLinked_iff.2 ⟨hgrant, hexclusive⟩⟩, hholds⟩
  · rintro ⟨hclaims, ⟨⟨hsigned, hissuer⟩, -, hcurrent, hrevoked, hlinked⟩, hholds⟩
    obtain ⟨hexpires, hbefore, huntil⟩ := TokenClaims.currentAt_iff.1 hcurrent
    obtain ⟨hgrant, hexclusive⟩ := TokenClaims.wellLinked_iff.1 hlinked
    exact ⟨claims, hclaims, true, hsigned, (), rfl, (), hissuer, (), hexpires, (), hbefore, (),
      huntil, none, revokedBy_none_iff.2 hrevoked, (), rfl, (), hholds, (), hgrant, (),
      hexclusive, rfl⟩

/-- The narrowing checks are the obligations of a parent link. -/
theorem narrowed_ofClaims_iff {upper lower : TokenClaims} :
    Narrowed upper lower.issuer (.ofClaims lower) ↔
      Upholds (options.policy ans).narrows .parent lower upper :=
  ⟨fun h => ⟨h.bearer, h.scope, h.expires, h.remaining, h.capability⟩,
    fun h => ⟨h.bearer, h.expires, h.scope, h.verb, h.remaining⟩⟩

theorem authorisationLinkOk_iff {upper lower : TokenClaims} :
    authorisationLinkOk upper lower = true ↔
      Upholds (options.policy ans).narrows .authorisation lower upper := by
  have hremaining : (match upper.delegationsRemaining, lower.delegationsRemaining with
      | none, _ => true
      | some _, none => false
      | some bound, some remaining => decide (remaining < bound)) = true ↔
        Consumes upper.delegationsRemaining lower.delegationsRemaining := by
    cases upper.delegationsRemaining <;> cases lower.delegationsRemaining <;> simp
  have hgrants : (upper.grantsCapability = none ∨
      upper.grantsCapability = some lower.capability) ↔
        ∀ verb ∈ upper.grantsCapability, verb = lower.capability := by
    cases upper.grantsCapability <;> simp
  simp only [authorisationLinkOk, Bool.and_eq_true, Bool.or_eq_true, decide_eq_true_eq, hremaining,
    hgrants]
  exact ⟨fun ⟨⟨⟨⟨⟨hb, hc⟩, hg⟩, hs⟩, he⟩, hr⟩ => ⟨hb, hs, he, hr, hc, hg⟩,
    fun ⟨hb, hs, he, hr, hc, hg⟩ => ⟨⟨⟨⟨⟨hb, hc⟩, hg⟩, hs⟩, he⟩, hr⟩⟩

/-- The text by which the walk recognises a payload. -/
def payloadHex (l : Link) : String := bytesToHex l.payload

theorem fresh_of_ne {links : List Link} (h : (links.map Link.payload).Nodup) :
    Fresh payloadHex [] links := by
  refine ⟨?_, by simp⟩
  have hhex := h.map bytesToHex_injective
  rwa [List.map_map] at hhex

/-- The walk accepts a token iff it has an accepted chain, within the hops left and
    without a payload seen before. -/
theorem verifyTokenChain_accepts (ht : options.trilean.Kleene) {hops : ℕ}
    {token : CapabilityToken} {s : Option TokenClaims} {seen : List String}
    {v : TokenAccepted} :
    Accepts ans (verifyTokenChain options hops token (s.map .ofClaims) seen) v ↔
      ∃ leaf above, ChainOf options.codec.toDecoder token (leaf :: above) ∧
        Accepted (options.policy ans) s (leaf :: above) ∧
        (leaf :: above).length ≤ hops ∧ Fresh payloadHex seen (leaf :: above) ∧
        v = .ofChain leaf above := by
  induction hops generalizing token s seen v with
  | zero => simp [verifyTokenChain]
  | succ hops ih =>
    rw [verifyTokenChain, verifyStep]
    simp only [accepts_bind, accepts_orRefuse, accepts_ensure, verifyLink_accepts]
    constructor
    · rintro ⟨payload, hpayload, -, hseen, claims, ⟨hclaims, hadmits, hholds⟩, hmatch⟩
      let l : Link := { token, payload, claims }
      have hreads : options.codec.toDecoder.Reads token l := ⟨rfl, hpayload, hclaims⟩
      split at hmatch
      next hup =>
        rw [accepts_pure] at hmatch
        exact ⟨l, [], .root hreads hup, Accepted.singleton_iff.2 ⟨hadmits, hholds⟩,
          Nat.succ_le_succ (Nat.zero_le hops),
          (fresh_cons_iff fun _ => List.mem_cons).2 ⟨hseen, fresh_nil⟩, hmatch⟩
      next bytes hup =>
        simp only [accepts_bind, accepts_orRefuse, accepts_adapt, accepts_await,
          settles_ofExcept, accepts_ensure, accepts_pure] at hmatch
        obtain ⟨upper, hupper, verdict, hverdict, -, hnarrow, -, rfl, rfl⟩ := hmatch
        obtain ⟨u, above, hchain, hacc, hlen, hfresh, rfl⟩ := (ih (s := none)).1 hverdict
        rw [evaluateNarrowing_eq_none_iff ht] at hnarrow
        exact ⟨l, u :: above, .link hreads hup hupper hchain,
          Accepted.cons_cons_iff.2 ⟨hadmits, hholds, .parent, by simp [l, Link.kind, hup],
            narrowed_ofClaims_iff.1 hnarrow, hacc⟩,
          Nat.succ_le_succ hlen, (fresh_cons_iff fun _ => List.mem_cons).2 ⟨hseen, hfresh⟩, rfl⟩
      next bytes hup =>
        simp only [accepts_bind, accepts_orRefuse, accepts_adapt, accepts_ensure,
          accepts_pure] at hmatch
        obtain ⟨upper, hupper, verdict, hverdict, -, hlink, rfl⟩ := hmatch
        obtain ⟨u, above, hchain, hacc, hlen, hfresh, rfl⟩ :=
          (ih (s := some claims)).1 hverdict
        exact ⟨l, u :: above, .link hreads hup hupper hchain,
          Accepted.cons_cons_iff.2 ⟨hadmits, hholds, .authorisation,
            by simp [l, Link.kind, hup], authorisationLinkOk_iff.1 hlink, hacc⟩,
          Nat.succ_le_succ hlen, (fresh_cons_iff fun _ => List.mem_cons).2 ⟨hseen, hfresh⟩, rfl⟩
    · rintro ⟨⟨t, payload, claims⟩, above, hchain, hacc, hlen, hfresh, rfl⟩
      obtain ⟨hseen, hfresh⟩ := (fresh_cons_iff fun _ => List.mem_cons).1 hfresh
      obtain rfl : t = token := hchain.reads.token_eq
      refine ⟨payload, hchain.reads.payload_eq, (), hseen, claims, ?_⟩
      have hclaims : options.codec.claims payload = some claims := hchain.reads.claims_eq
      cases hchain with
      | root hreads hup =>
        obtain ⟨hadmits, hholds⟩ := Accepted.singleton_iff.1 hacc
        replace hup : claims.upward = none := hup
        refine ⟨⟨hclaims, hadmits, hholds⟩, ?_⟩
        rw [hup, accepts_pure]
        rfl
      | @link _ upper _ kind bytes _ hreads hup hupper hchain =>
        obtain ⟨u, above, rfl⟩ := List.exists_cons_of_ne_nil hchain.ne_nil
        obtain ⟨hadmits, hholds, kind', hkind, hupholds, hacc⟩ := Accepted.cons_cons_iff.1 hacc
        replace hup : claims.upward = some (kind, bytes) := hup
        obtain rfl : kind = kind' := by simpa [Link.kind, hup] using hkind
        refine ⟨⟨hclaims, hadmits, hholds⟩, ?_⟩
        have hverdict := ih.2 ⟨u, above, hchain, hacc, Nat.le_of_succ_le_succ hlen, hfresh, rfl⟩
        rw [hup]
        cases kind with
        | parent =>
          simp only [accepts_bind, accepts_orRefuse, accepts_adapt, accepts_await,
            settles_ofExcept, accepts_ensure, accepts_pure]
          exact ⟨upper, hupper, _, hverdict, none, (evaluateNarrowing_eq_none_iff ht).2
            (narrowed_ofClaims_iff.2 hupholds), (), rfl, rfl⟩
        | authorisation =>
          simp only [accepts_bind, accepts_orRefuse, accepts_adapt, accepts_ensure, accepts_pure]
          exact ⟨upper, hupper, _, hverdict, (), authorisationLinkOk_iff.2 hupholds, rfl⟩

theorem verifyCapabilityToken_accepts (ht : options.trilean.Kleene) {query : Query}
    {v : TokenAccepted} :
    Settles ans (verifyCapabilityToken options query) (.ok (.ok v)) ↔
      ∃ leaf above, ChainOf options.codec.toDecoder query.token (leaf :: above) ∧
        Accepted (options.policy ans) none (leaf :: above) ∧
        (leaf :: above).length ≤ maxChainDepth ∧ Fresh payloadHex [] (leaf :: above) ∧
        (∀ bearer ∈ query.expectedBearer, leaf.claims.bearer = bearer) ∧
        v = .ofChain leaf above := by
  change Accepts ans _ v ↔ _
  simp only [accepts_bind, accepts_ensure, accepts_pure]
  constructor
  · rintro ⟨verdict, hverdict, -, hbearer, rfl⟩
    obtain ⟨leaf, above, hchain, hacc, hlen, hfresh, rfl⟩ :=
      (verifyTokenChain_accepts (s := none) ht).1 hverdict
    exact ⟨leaf, above, hchain, hacc, hlen, hfresh, hbearer, rfl⟩
  · rintro ⟨leaf, above, hchain, hacc, hlen, hfresh, hbearer, rfl⟩
    exact ⟨_, (verifyTokenChain_accepts (s := none) ht).2
      ⟨leaf, above, hchain, hacc, hlen, hfresh, rfl⟩, (), hbearer, rfl⟩

end Accepts

/-! ## The recursion -/

section Verdict

variable {options : VerifyOptions} {query : Query}

/-- The verification of the token returns the verdict. -/
def VerifyOptions.Returns (options : VerifyOptions) (query : Query) (verdict : TokenVerdict) :
    Prop :=
  Async.Returns (verifyCapabilityToken options) query (.ok verdict)

/-- The policy of the verifier, the authorizations of entries being what it says they are. -/
def VerifyOptions.rule (options : VerifyOptions) : Policy :=
  options.policy (Async.Returns (verifyCapabilityToken options))

/-- The verifier accepts exactly the accepted chains. -/
theorem returns_ok_iff (ht : options.trilean.Kleene) {v : TokenAccepted} :
    options.Returns query (.ok v) ↔
      ∃ leaf above, ChainOf options.codec.toDecoder query.token (leaf :: above) ∧
        Accepted options.rule none (leaf :: above) ∧
        (leaf :: above).length ≤ maxChainDepth ∧ Fresh payloadHex [] (leaf :: above) ∧
        (∀ bearer ∈ query.expectedBearer, leaf.claims.bearer = bearer) ∧
        v = .ofChain leaf above :=
  returns_iff.trans (verifyCapabilityToken_accepts ht)

/-- The chain of a token the verifier accepts, and what is reported of it. -/
theorem exists_accepted (ht : options.trilean.Kleene) {v : TokenAccepted}
    (h : options.Returns query (.ok v)) :
    ∃ leaf above, ChainOf options.codec.toDecoder query.token (leaf :: above) ∧
      Accepted options.rule none (leaf :: above) ∧ v = .ofChain leaf above := by
  grind [returns_ok_iff]

/-- A root token that is admitted is accepted. -/
theorem returns_of_root (ht : options.trilean.Kleene) {l : Link}
    (hreads : options.codec.toDecoder.Reads query.token l) (hup : l.claims.upward = none)
    (hadmits : options.rule.Admits l) (hholds : options.rule.holds none l.claims)
    (hbearer : ∀ bearer ∈ query.expectedBearer, l.claims.bearer = bearer) :
    options.Returns query (.ok (.ofChain l [])) :=
  (returns_ok_iff ht).2 ⟨l, [], .root hreads hup, Accepted.singleton_iff.2 ⟨hadmits, hholds⟩,
    Nat.one_le_iff_ne_zero.2 (by decide), ⟨List.nodup_singleton _, by simp⟩, hbearer, rfl⟩

/-- The options of a verifier at 1000 that knows the given tokens. -/
def VerifyOptions.sample (links : List Link) (conditions : List (List PredicateNode)) :
    VerifyOptions where
  codec := .among (links.map Link.claims) (links.map Link.token) conditions
  trilean := .sample
  identity := .sample 4
  now := 1000
  entriesFor _ := []
  extraPredicateResolvers _ := none

theorem unrevoked_of_no_entries {claims : TokenClaims}
    (h : options.entriesFor claims.tokenId = []) : options.rule.unrevoked claims := by
  intro entry hentry
  rw [h] at hentry
  cases hentry

/-- A sample token in force, that nothing is recorded against, is admitted. -/
theorem admits_sample {m n : UInt8} {claims : TokenClaims}
    (hidentity : options.identity = .sample m)
    (hkey : claims.issuerKey = (Identity.sample n).identityKey)
    (hissuer : claims.issuer = (Identity.sample n).deviceId)
    (hcurrent : claims.CurrentAt options.now) (hentries : options.entriesFor claims.tokenId = [])
    (hlinked : claims.WellLinked) : options.rule.Admits (.sample n claims) where
  vouched := by
    change options.identity.Vouches _
    grind [Identity.sample_vouches]
  grammar := trivial
  current := hcurrent
  unrevoked := unrevoked_of_no_entries hentries
  wellLinked := hlinked

theorem holds_of_no_conditions {subject : Option TokenClaims} {claims : TokenClaims}
    (h : claims.conditions = none) : options.rule.holds subject claims := by
  intro bytes hbytes
  simp [h] at hbytes

end Verdict

end WireMesh.TypeScript
