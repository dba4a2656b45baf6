import WireMesh.Async.Basic
import WireMesh.Chain
import WireMesh.Rust.Predicates

/-!
# Token verification (Rust)

The verifier of `tokens.rs`: a loop from the presented token up to its root,
which carries the token below and checks the obligations of a link from its
upper side. As in TypeScript, the revocation sweep may verify the authorization
of an entry, a call of the verifier on another token.

* `verifyLoop_accepts`: the loop accepts iff the token has a chain within the
  remaining iterations, without a token-id repeated, that is accepted under the
  policy of the verifier and linked to the token below.
* `returns_valid_iff`: the verifier accepts exactly the accepted chains.
-/

namespace WireMesh.Rust

open Async

/-! ## The verifier -/

/-- How many tokens a chain may have. -/
def maxChainDepth : ℕ := 64

/-- The grammar a token's claims violate. -/
inductive ClaimsError
  | verb (error : VerbError)
  | scope (error : ScopeError)
deriving DecidableEq

inductive TokenRejection
  | malformed (what : String)
  | authorisationInvalid (why : String)
  | unsupportedAlgorithm (alg : ℤ)
  | badSignature
  | issuerMismatch
  | expired (tokenId : Bytes) (expires now : ℕ)
  | notYetValid (tokenId : Bytes) (notBefore now : ℕ)
  | contentExpired (tokenId : Bytes) (validUntil now : ℕ)
  | revoked (tokenId : Bytes)
  | notNarrowed (why : String)
  | chainCycle
  | invalidClaims (error : ClaimsError)
  | chainTooDeep
  | conditionsNotSatisfied (tokenId : Bytes)
  | bearerMismatch
deriving DecidableEq

/-- What a `Valid` verdict reports: the leaf's claims, the tightest expiry of the chain, and
    the issuer of its root with its key. -/
structure TokenValid where
  claims : TokenClaims
  effectiveExpires : ℕ
  rootIssuer : DeviceId
  rootIssuerKey : IdentityKey
deriving DecidableEq

abbrev TokenVerdict := Except TokenRejection TokenValid

/-- The decoders, with the texts of their errors. -/
structure Codec where
  claims : Bytes → Except String TokenClaims
  token : Bytes → Except String CapabilityToken
  conditions : Bytes → Except String (List PredicateNode)

def Codec.toDecoder (codec : Codec) : Decoder where
  claims bytes := (codec.claims bytes).toOption
  token bytes := (codec.token bytes).toOption

/-- The codec that knows the encodings of the given values, the conditions being listed
    with theirs. -/
def Codec.among (claims : List TokenClaims) (tokens : List CapabilityToken)
    (conditions : List (Bytes × List PredicateNode)) : Codec where
  claims bytes := (decodeAmong TokenClaims.encode claims bytes).elim (.error "unknown") .ok
  token bytes := (decodeAmong CoseSign1.encode tokens bytes).elim (.error "unknown") .ok
  conditions bytes :=
    (decodeAmong Prod.fst conditions bytes).elim (.error "unknown") fun entry => .ok entry.2

theorem Codec.among_reads {links : List Link} {conditions : List (Bytes × List PredicateNode)}
    (hclaims : (links.map Link.claims).Pairwise fun a b => a.encode ≠ b.encode)
    (htokens : (links.map Link.token).Pairwise fun a b => a.encode ≠ b.encode)
    {n : UInt8} {claims : TokenClaims} (h : .sample n claims ∈ links) :
    let d := (Codec.among (links.map Link.claims) (links.map Link.token) conditions).toDecoder
    d.Reads (Link.sample n claims).token (.sample n claims) ∧
      d.token (Link.sample n claims).token.encode = some (Link.sample n claims).token := by
  have hclaims : decodeAmong TokenClaims.encode (links.map Link.claims) claims.encode =
      some claims := decodeAmong_eq hclaims (List.mem_map_of_mem (f := Link.claims) h)
  have htokens := decodeAmong_eq htokens (List.mem_map_of_mem h)
  refine ⟨Link.sample_reads ?_, ?_⟩
  · simp [Codec.toDecoder, Codec.among, hclaims, Except.toOption]
  · simp [Codec.toDecoder, Codec.among, htokens, Except.toOption]

/-- What a verifier is given, beside the decoders. -/
structure Verifier where
  codec : Codec
  identity : Identity
  now : ℕ
  entriesFor : Bytes → List RevocationClaims

/-- A token to be verified, with the device it has to bear, if any. -/
structure Query where
  token : CapabilityToken
  expectedBearer : Option DeviceId
deriving DecidableEq

/-- A verification: it may verify other tokens, and reject the token. -/
abbrev Verify := ExceptT TokenRejection (Async Query TokenVerdict Empty)

/-- The state of the loop: the token it has come to, and what it carries from below. -/
structure WalkState where
  current : CapabilityToken
  child : Option TokenClaims
  childLink : Option LinkKind
  leaf : Option TokenClaims
  effectiveExpires : ℕ
  seen : List Bytes

def WalkState.start (token : CapabilityToken) : WalkState where
  current := token
  child := none
  childLink := none
  leaf := none
  effectiveExpires := 2 ^ 64 - 1
  seen := []

section Verifier

variable (verifier : Verifier)

/-- Whether a recorded revocation entry revokes the target: it is of the same issuer, or
    it carries an authority over the target granted to its issuer. -/
def revocationEntryGrantsRevoke (entry : RevocationClaims) (target : TokenClaims) :
    Async Query TokenVerdict Empty Bool :=
  if entry.issuer = target.issuer then pure true
  else match entry.authorization with
    | none => pure false
    | some bytes => match verifier.codec.token bytes with
      | .error _ => pure false
      | .ok authorization => do
        let verdict ← ask { token := authorization, expectedBearer := none }
        match verdict with
        | .ok valid =>
          return valid.claims.bearer = entry.issuer && valid.claims.capability = manageRevoke &&
            CapabilityScope.isWithin target.scope valid.claims.scope
        | .error _ => return false

/-- The claims of a token. -/
def decodeClaims (token : CapabilityToken) : Except String TokenClaims :=
  match token.payload with
  | none => .error "constraint violated: token payload is nil"
  | some payload => verifier.codec.claims payload

/-- The subject the conditions of a token are about: the child it authorised. -/
def conditionsSubject (child : Option TokenClaims) (childLink : Option LinkKind) :
    Option GrantSubject :=
  match child, childLink with
  | some child, some .authorisation =>
    some { capability := child.capability, bearer := child.bearer }
  | _, _ => none

/-- The signature, the issuer and the grammar of a token. -/
def verifyEnvelope (token : CapabilityToken) (claims : TokenClaims) : Verify Unit := do
  orRefuseWith (CapabilityVerb.validate claims.capability) fun e => .invalidClaims (.verb e)
  orRefuseWith (CapabilityScope.validate claims.scope) fun e => .invalidClaims (.scope e)
  let payload ← orRefuse token.payload (.malformed "token payload is nil")
  ensure (claims.issuerKey.alg = -7 ∨ claims.issuerKey.alg = -8)
    (.unsupportedAlgorithm claims.issuerKey.alg)
  let signatureOk ← orRefuseWith (verifier.identity.verify claims.issuerKey
    (sig1ToBeSigned token.protectedHeader payload) token.signature) .malformed
  ensure (signatureOk = true) .badSignature
  ensure (verifier.identity.deriveDeviceId claims.issuerKey.publicKey = claims.issuer)
    .issuerMismatch

/-- The windows of a token. -/
def verifyWindows (claims : TokenClaims) : Verify Unit := do
  ensure (¬claims.expires ≤ verifier.now) (.expired claims.tokenId claims.expires verifier.now)
  match claims.notBefore with
  | some t => ensure (¬verifier.now < t) (.notYetValid claims.tokenId t verifier.now)
  | none => pure ()
  match claims.validUntil with
  | some t => ensure (¬t ≤ verifier.now) (.contentExpired claims.tokenId t verifier.now)
  | none => pure ()

/-- The links of a token are exclusive, and a grant-capability has no parent. -/
def verifyLinks (claims : TokenClaims) : Verify Unit :=
  match claims.parent.isSome, claims.authorisedBy.isSome with
  | true, true => refuse (.malformed "a token carries both parent and authorised-by")
  | true, false => ensure (claims.capability ≠ manageGrant)
      (.authorisationInvalid "a manage:grant token carries a parent link")
  | _, _ => pure ()

def verifyConditions (claims : TokenClaims) (subject : Option GrantSubject) : Verify Unit :=
  match claims.conditions with
  | none => pure ()
  | some bytes => do
    let nodes ← orRefuseWith (verifier.codec.conditions bytes) .malformed
    ensure (evaluateConditions nodes subject = true) (.conditionsNotSatisfied claims.tokenId)

/-- A bounded token has a strictly less bounded child. -/
def remainingOk (upper child : TokenClaims) : Bool :=
  match upper.delegationsRemaining with
  | none => true
  | some remaining => match child.delegationsRemaining with
    | none => false
    | some childValue => !(childValue ≥ remaining)

/-- The obligations of the link from a child, on the side of the upper token. -/
def verifyObligations (claims child : TokenClaims) : LinkKind → Verify Unit
  | .parent => do
    ensure (child.issuer = claims.bearer)
      (.notNarrowed "the parent's bearer is not the child's issuer")
    ensure (child.capability = claims.capability)
      (.notNarrowed "the delegated capability verb differs from the parent's")
    ensure (CapabilityScope.isWithin child.scope claims.scope = true)
      (.notNarrowed "the delegated scope is not within the parent's subtree")
    ensure (¬child.expires > claims.expires)
      (.notNarrowed "the delegated expiry is later than the parent's")
    ensure (remainingOk claims child = true)
      (.notNarrowed "the child's delegations-remaining is not strictly less")
  | .authorisation => do
    ensure (claims.bearer = child.issuer)
      (.authorisationInvalid "the authoriser's bearer is not the minted token's issuer")
    ensure (claims.capability = manageGrant)
      (.authorisationInvalid "the authorising capability is not manage:grant")
    ensure (∀ grants ∈ claims.grantsCapability, grants = child.capability)
      (.authorisationInvalid "the minted verb differs from the authoriser's grants-capability")
    ensure (CapabilityScope.isWithin child.scope claims.scope = true)
      (.authorisationInvalid "the minted scope is not within the authoriser's")
    ensure (¬child.expires > claims.expires)
      (.authorisationInvalid "the minted expiry is later than the authoriser's")
    ensure (remainingOk claims child = true)
      (.authorisationInvalid "the minted delegations-remaining is not strictly less")

/-- The obligations of the link from the token below, if there is one. -/
def verifyChildLink (state : WalkState) (claims : TokenClaims) : Verify Unit :=
  match state.child, state.childLink with
  | some child, some kind => verifyObligations claims child kind
  | _, _ => pure ()

/-- The checks of one iteration of the loop, up to the move to the token above. -/
def verifyLink (state : WalkState) : Verify TokenClaims := do
  let claims ← orRefuseWith (decodeClaims verifier state.current) .malformed
  ensure (claims.tokenId ∉ state.seen) .chainCycle
  verifyEnvelope verifier state.current claims
  let revokedBy ← await ((verifier.entriesFor claims.tokenId).findM? fun entry =>
    revocationEntryGrantsRevoke verifier entry claims)
  ensure (revokedBy = none) (.revoked claims.tokenId)
  verifyWindows verifier claims
  verifyLinks claims
  verifyConditions verifier claims (conditionsSubject state.child state.childLink)
  verifyChildLink state claims
  return claims

/-- The loop, with so many iterations left. -/
def verifyLoop (expectedBearer : Option DeviceId) : ℕ → WalkState → Verify TokenValid
  | 0, _ => refuse .chainTooDeep
  | iterations + 1, state => do
    let claims ← verifyLink verifier state
    let effectiveExpires := min state.effectiveExpires claims.expires
    let leaf := state.leaf.or (some claims)
    match claims.upward with
    | some (kind, bytes) =>
      let next ← orRefuseWith (verifier.codec.token bytes) .malformed
      verifyLoop expectedBearer iterations
        { current := next, child := some claims, childLink := some kind, leaf := leaf,
          effectiveExpires := effectiveExpires, seen := state.seen ++ [claims.tokenId] }
    | none => match leaf with
      | some leafClaims =>
        ensure (∀ bearer ∈ expectedBearer, leafClaims.bearer = bearer) .bearerMismatch
        return { claims := leafClaims, effectiveExpires := effectiveExpires,
                 rootIssuer := claims.issuer, rootIssuerKey := claims.issuerKey }
      | none => refuse (.malformed "empty chain")

/-- The verification of a token, as a computation that calls itself on the authorizations
    of revocation entries. -/
def verifyCapabilityToken (query : Query) : Async Query TokenVerdict Empty TokenVerdict :=
  (verifyLoop verifier query.expectedBearer maxChainDepth (.start query.token)).run

end Verifier

/-! ## What it accepts -/

section Accepts

variable (verifier : Verifier) (ans : Query → Except Empty TokenVerdict → Prop)

/-- The claims of a minted token that the conditions of its authoriser are about. -/
def GrantSubject.ofClaims (claims : TokenClaims) : GrantSubject where
  capability := claims.capability
  bearer := claims.bearer

/-- The claims are in the grammar of the wire format, under a known algorithm. -/
@[grind cases]
structure Grammatical (claims : TokenClaims) : Prop where
  verb : CapabilityVerb.validate claims.capability = .ok ()
  scope : CapabilityScope.validate claims.scope = .ok ()
  alg : claims.issuerKey.alg = -7 ∨ claims.issuerKey.alg = -8

/-- The conditions a token carries hold, about the subject if there is one. -/
def Verifier.ConditionsHold (subject : Option GrantSubject) (claims : TokenClaims) : Prop :=
  ∀ bytes ∈ claims.conditions, ∃ nodes, verifier.codec.conditions bytes = .ok nodes ∧
    evaluateConditions nodes subject = true

/-- No recorded entry revokes the token, the authorizations being answered for by `ans`. -/
def Verifier.Unrevoked (claims : TokenClaims) : Prop :=
  ∀ entry ∈ verifier.entriesFor claims.tokenId,
    Settles ans (revocationEntryGrantsRevoke verifier entry claims) (.ok false)

/-- What the verifier demands of a chain. -/
def Verifier.policy : Policy where
  identity := verifier.identity
  now := verifier.now
  narrows upper lower := CapabilityScope.isWithin lower upper
  grammar := Grammatical
  unrevoked := verifier.Unrevoked ans
  holds subject claims := verifier.ConditionsHold (subject.map .ofClaims) claims

/-- The token below the current one, with the link between the two. -/
def WalkState.below (state : WalkState) : Option (LinkKind × TokenClaims) :=
  match state.child, state.childLink with
  | some child, some kind => some (kind, child)
  | _, _ => none

/-- The token the conditions of the current one are about. -/
def WalkState.subject (state : WalkState) : Option TokenClaims :=
  state.below.bind fun below => below.1.subject below.2

/-- The verdict on an accepted chain, from the state at its first link on. -/
def TokenValid.ofChain (state : WalkState) (l : Link) (above : List Link) : TokenValid where
  claims := state.leaf.getD l.claims
  effectiveExpires :=
    (l :: above).foldl (fun expires l => min expires l.claims.expires) state.effectiveExpires
  rootIssuer := ((l :: above).getLast (List.cons_ne_nil _ _)).claims.issuer
  rootIssuerKey := ((l :: above).getLast (List.cons_ne_nil _ _)).claims.issuerKey

variable {verifier ans}

theorem conditionsSubject_eq {state : WalkState} :
    conditionsSubject state.child state.childLink = state.subject.map .ofClaims := by
  obtain ⟨_, child, kind, _, _, _⟩ := state
  rcases child with _ | child <;> rcases kind with _ | _ | _ <;> rfl

theorem decodeClaims_eq_ok_iff {token : CapabilityToken} {claims : TokenClaims} :
    decodeClaims verifier token = .ok claims ↔
      ∃ payload, token.payload = some payload ∧ verifier.codec.claims payload = .ok claims := by
  rw [decodeClaims]
  cases token.payload <;> simp

theorem verifyEnvelope_accepts {token : CapabilityToken} {payload : Bytes}
    {claims : TokenClaims} {u : Unit} (hpayload : token.payload = some payload) :
    Accepts ans (verifyEnvelope verifier token claims) u ↔
      Grammatical claims ∧ verifier.identity.Vouches { token, payload, claims } := by
  rw [verifyEnvelope, hpayload]
  simp only [accepts_bind, accepts_orRefuseWith, accepts_orRefuse, accepts_ensure,
    Option.some.injEq]
  constructor
  · rintro ⟨_, hverb, _, hscope, _, rfl, -, halg, _, hsigned, -, rfl, hissuer⟩
    exact ⟨⟨hverb, hscope, halg⟩, hsigned, hissuer⟩
  · grind

theorem verifyWindows_accepts {claims : TokenClaims} {u : Unit} :
    Accepts ans (verifyWindows verifier claims) u ↔ claims.CurrentAt verifier.now := by
  rw [verifyWindows, TokenClaims.currentAt_iff]
  cases claims.notBefore <;> cases claims.validUntil <;> simp

theorem verifyLinks_accepts {claims : TokenClaims} {u : Unit} :
    Accepts ans (verifyLinks claims) u ↔ claims.WellLinked := by
  rw [verifyLinks, TokenClaims.wellLinked_iff]
  cases claims.parent <;> cases claims.authorisedBy <;> simp

theorem verifyConditions_accepts {claims : TokenClaims} {subject : Option GrantSubject}
    {u : Unit} :
    Accepts ans (verifyConditions verifier claims subject) u ↔
      verifier.ConditionsHold subject claims := by
  rw [verifyConditions, Verifier.ConditionsHold]
  cases claims.conditions with
  | none => simp
  | some bytes => simp

theorem remainingOk_iff {upper child : TokenClaims} :
    remainingOk upper child = true ↔
      Consumes upper.delegationsRemaining child.delegationsRemaining := by
  rw [remainingOk]
  cases upper.delegationsRemaining <;> cases child.delegationsRemaining <;> simp

theorem verifyObligations_accepts {claims child : TokenClaims} {kind : LinkKind} {u : Unit} :
    Accepts ans (verifyObligations claims child kind) u ↔
      Upholds (verifier.policy ans).narrows kind child claims := by
  cases kind with
  | parent =>
    simp only [verifyObligations, accepts_bind, accepts_ensure, exists_const, remainingOk_iff,
      not_lt, gt_iff_lt]
    constructor
    · rintro ⟨hb, hc, hs, he, hr⟩
      exact ⟨hb.symm, hs, he, hr, hc.symm⟩
    · rintro ⟨hb, hs, he, hr, hc⟩
      exact ⟨hb.symm, hc.symm, hs, he, hr⟩
  | authorisation =>
    simp only [verifyObligations, accepts_bind, accepts_ensure, exists_const, remainingOk_iff,
      not_lt, gt_iff_lt]
    constructor
    · rintro ⟨hb, hc, hg, hs, he, hr⟩
      exact ⟨hb, hs, he, hr, hc, hg⟩
    · rintro ⟨hb, hs, he, hr, hc, hg⟩
      exact ⟨hb, hc, hg, hs, he, hr⟩

theorem verifyChildLink_accepts {state : WalkState} {claims : TokenClaims} {u : Unit} :
    Accepts ans (verifyChildLink state claims) u ↔
      ∀ below ∈ state.below, Upholds (verifier.policy ans).narrows below.1 below.2 claims := by
  rw [verifyChildLink, WalkState.below]
  cases state.child with
  | none => simp
  | some child =>
    cases state.childLink with
    | none => simp
    | some kind => simpa using verifyObligations_accepts

/-- A token passes an iteration iff it is new, the policy admits it, its conditions hold
    and the link from the token below is upheld. -/
theorem verifyLink_accepts {state : WalkState} {claims : TokenClaims} :
    Accepts ans (verifyLink verifier state) claims ↔
      ∃ payload, state.current.payload = some payload ∧
        verifier.codec.claims payload = .ok claims ∧ claims.tokenId ∉ state.seen ∧
        (verifier.policy ans).Admits { token := state.current, payload, claims } ∧
        (verifier.policy ans).holds state.subject claims ∧
        ∀ below ∈ state.below, Upholds (verifier.policy ans).narrows below.1 below.2 claims := by
  rw [verifyLink]
  simp only [accepts_bind, accepts_orRefuseWith, decodeClaims_eq_ok_iff, accepts_ensure,
    accepts_await, verifyWindows_accepts, verifyLinks_accepts, verifyConditions_accepts,
    conditionsSubject_eq, accepts_pure]
  constructor
  · rintro ⟨c, ⟨payload, hpayload, hclaims⟩, -, hseen, _, henvelope, r, hrevoked, -, rfl, -,
      hcurrent, -, hlinked, -, hholds, _, hbelow, rfl⟩
    rw [verifyEnvelope_accepts hpayload] at henvelope
    exact ⟨payload, hpayload, hclaims, hseen, ⟨henvelope.2, henvelope.1, hcurrent,
      settles_findM?_none.1 hrevoked, hlinked⟩, hholds, verifyChildLink_accepts.1 hbelow⟩
  · rintro ⟨payload, hpayload, hclaims, hseen, ⟨hvouched, hgrammar, hcurrent, hrevoked, hlinked⟩,
      hholds, hbelow⟩
    exact ⟨claims, ⟨payload, hpayload, hclaims⟩, (), hseen, (),
      (verifyEnvelope_accepts hpayload).2 ⟨hgrammar, hvouched⟩, none,
      settles_findM?_none.2 hrevoked, (), rfl, (), hcurrent, (), hlinked, (), hholds, (),
      verifyChildLink_accepts.2 hbelow, rfl⟩

theorem toDecoder_claims {payload : Bytes} {claims : TokenClaims} :
    verifier.codec.toDecoder.claims payload = some claims ↔
      verifier.codec.claims payload = .ok claims := by
  cases h : verifier.codec.claims payload <;> simp [Codec.toDecoder, Except.toOption, h]

theorem toDecoder_token {bytes : Bytes} {token : CapabilityToken} :
    verifier.codec.toDecoder.token bytes = some token ↔
      verifier.codec.token bytes = .ok token := by
  cases h : verifier.codec.token bytes <;> simp [Codec.toDecoder, Except.toOption, h]

/-- The loop accepts iff the current token has an accepted chain, within the iterations
    left and without a token-id seen before, linked to the token below. -/
theorem verifyLoop_accepts {expectedBearer : Option DeviceId} {iterations : ℕ}
    {state : WalkState} {v : TokenValid} :
    Accepts ans (verifyLoop verifier expectedBearer iterations state) v ↔
      ∃ l above, ChainOf verifier.codec.toDecoder state.current (l :: above) ∧
        Accepted (verifier.policy ans) state.subject (l :: above) ∧
        (∀ below ∈ state.below,
          Upholds (verifier.policy ans).narrows below.1 below.2 l.claims) ∧
        (l :: above).length ≤ iterations ∧ Fresh (·.claims.tokenId) state.seen (l :: above) ∧
        (∀ bearer ∈ expectedBearer, (state.leaf.getD l.claims).bearer = bearer) ∧
        v = .ofChain state l above := by
  induction iterations generalizing state v with
  | zero => simp [verifyLoop]
  | succ iterations ih =>
    rw [verifyLoop]
    simp only [accepts_bind, verifyLink_accepts]
    have hseen : ∀ (claims : TokenClaims) (k : Bytes),
        k ∈ state.seen ++ [claims.tokenId] ↔ k = claims.tokenId ∨ k ∈ state.seen :=
      fun claims k => by simp [or_comm]
    have hleaf : ∀ claims : TokenClaims,
        state.leaf.or (some claims) = some (state.leaf.getD claims) :=
      fun claims => by cases state.leaf <;> rfl
    constructor
    · rintro ⟨claims, ⟨payload, hpayload, hclaims, hnew, hadmits, hholds, hbelow⟩, hmatch⟩
      let l : Link := { token := state.current, payload, claims }
      have hreads : verifier.codec.toDecoder.Reads state.current l :=
        ⟨rfl, hpayload, toDecoder_claims.2 hclaims⟩
      split at hmatch
      next kind bytes hup =>
        simp only [accepts_bind, accepts_orRefuseWith] at hmatch
        obtain ⟨upper, hupper, hmatch⟩ := hmatch
        obtain ⟨u, above, hchain, hacc, hlink, hlen, hfresh, hbearer, rfl⟩ := ih.1 hmatch
        refine ⟨l, u :: above, .link hreads hup (toDecoder_token.2 hupper) hchain,
          Accepted.cons_cons_iff.2 ⟨hadmits, hholds, kind, by simp [l, Link.kind, hup],
            hlink (kind, claims) rfl, hacc⟩, hbelow, Nat.succ_le_succ hlen,
          (fresh_cons_iff (hseen claims)).2 ⟨hnew, hfresh⟩, ?_, ?_⟩
        · simpa only [hleaf, Option.getD_some] using hbearer
        · simp only [TokenValid.ofChain, hleaf]
          rfl
      next hup =>
        rw [hleaf] at hmatch
        simp only [accepts_bind, accepts_ensure, accepts_pure] at hmatch
        obtain ⟨-, hbearer, rfl⟩ := hmatch
        exact ⟨l, [], .root hreads hup, Accepted.singleton_iff.2 ⟨hadmits, hholds⟩, hbelow,
          Nat.succ_le_succ (Nat.zero_le iterations),
          (fresh_cons_iff (hseen claims)).2 ⟨hnew, fresh_nil⟩, hbearer, rfl⟩
    · rintro ⟨⟨t, payload, claims⟩, above, hchain, hacc, hbelow, hlen, hfresh, hbearer, rfl⟩
      obtain ⟨hnew, hrest⟩ := (fresh_cons_iff (hseen claims)).1 hfresh
      obtain rfl : t = state.current := hchain.reads.token_eq
      have hclaims := toDecoder_claims.1 hchain.reads.claims_eq
      have hpayload := hchain.reads.payload_eq
      cases hchain with
      | root hreads hup =>
        obtain ⟨hadmits, hholds⟩ := Accepted.singleton_iff.1 hacc
        replace hup : claims.upward = none := hup
        refine ⟨claims, ⟨payload, hpayload, hclaims, hnew, hadmits, hholds, hbelow⟩, ?_⟩
        rw [hup, hleaf]
        simp only [accepts_bind, accepts_ensure, accepts_pure]
        exact ⟨(), hbearer, rfl⟩
      | @link _ upper _ kind bytes _ hreads hup hupper hchain =>
        obtain ⟨u, above, rfl⟩ := List.exists_cons_of_ne_nil hchain.ne_nil
        obtain ⟨hadmits, hholds, kind', hkind, hupholds, hacc⟩ := Accepted.cons_cons_iff.1 hacc
        replace hup : claims.upward = some (kind, bytes) := hup
        obtain rfl : kind = kind' := by simpa [Link.kind, hup] using hkind
        refine ⟨claims, ⟨payload, hpayload, hclaims, hnew, hadmits, hholds, hbelow⟩, ?_⟩
        rw [hup]
        simp only [accepts_bind, accepts_orRefuseWith]
        refine ⟨upper, toDecoder_token.1 hupper, ih.2 ⟨u, above, hchain, hacc, ?_,
          Nat.le_of_succ_le_succ hlen, hrest, ?_, ?_⟩⟩
        · rintro below ⟨⟩
          exact hupholds
        · simpa only [hleaf, Option.getD_some] using hbearer
        · simp only [TokenValid.ofChain, hleaf]
          rfl

end Accepts

/-! ## The recursion -/

section Verdict

variable {verifier : Verifier} {query : Query}

/-- The verification of the token returns the verdict. -/
def Verifier.Returns (verifier : Verifier) (query : Query) (verdict : TokenVerdict) : Prop :=
  Async.Returns (verifyCapabilityToken verifier) query (.ok verdict)

/-- The policy of the verifier, the authorizations of entries being what it says they are. -/
def Verifier.rule (verifier : Verifier) : Policy :=
  verifier.policy (Async.Returns (verifyCapabilityToken verifier))

/-- The verifier accepts exactly the accepted chains. -/
theorem returns_valid_iff {v : TokenValid} :
    verifier.Returns query (.ok v) ↔
      ∃ leaf above, ChainOf verifier.codec.toDecoder query.token (leaf :: above) ∧
        Accepted verifier.rule none (leaf :: above) ∧
        (leaf :: above).length ≤ maxChainDepth ∧
        Fresh (·.claims.tokenId) [] (leaf :: above) ∧
        (∀ bearer ∈ query.expectedBearer, leaf.claims.bearer = bearer) ∧
        v = .ofChain (.start query.token) leaf above := by
  refine returns_iff.trans (verifyLoop_accepts.trans ?_)
  grind [WalkState.below, WalkState.subject, WalkState.start, Verifier.rule]

/-- The chain of a token the verifier accepts, and what is reported of it. -/
theorem exists_accepted {v : TokenValid} (h : verifier.Returns query (.ok v)) :
    ∃ leaf above, ChainOf verifier.codec.toDecoder query.token (leaf :: above) ∧
      Accepted verifier.rule none (leaf :: above) ∧
      v = .ofChain (.start query.token) leaf above := by grind [returns_valid_iff]

/-- A root token that is admitted is accepted. -/
theorem returns_of_root {l : Link} (hreads : verifier.codec.toDecoder.Reads query.token l)
    (hup : l.claims.upward = none) (hadmits : verifier.rule.Admits l)
    (hholds : verifier.rule.holds none l.claims)
    (hbearer : ∀ bearer ∈ query.expectedBearer, l.claims.bearer = bearer) :
    verifier.Returns query (.ok (.ofChain (.start query.token) l [])) :=
  returns_valid_iff.2 ⟨l, [], .root hreads hup, Accepted.singleton_iff.2 ⟨hadmits, hholds⟩,
    Nat.one_le_iff_ne_zero.2 (by decide), ⟨List.nodup_singleton _, by simp⟩, hbearer, rfl⟩

/-- A verifier at 1000 that knows the given tokens. -/
def Verifier.sample (links : List Link) (conditions : List (Bytes × List PredicateNode)) :
    Verifier where
  codec := .among (links.map Link.claims) (links.map Link.token) conditions
  identity := .sample 4
  now := 1000
  entriesFor _ := []

theorem unrevoked_of_no_entries {claims : TokenClaims}
    (h : verifier.entriesFor claims.tokenId = []) : verifier.rule.unrevoked claims := by
  intro entry hentry
  rw [h] at hentry
  cases hentry

/-- A grammatical sample token in force, that nothing is recorded against, is admitted. -/
theorem admits_sample {m n : UInt8} {claims : TokenClaims}
    (hidentity : verifier.identity = .sample m)
    (hkey : claims.issuerKey = (Identity.sample n).identityKey)
    (hissuer : claims.issuer = (Identity.sample n).deviceId)
    (hverb : CapabilityVerb.validate claims.capability = .ok ())
    (hscope : CapabilityScope.validate claims.scope = .ok ())
    (hcurrent : claims.CurrentAt verifier.now) (hentries : verifier.entriesFor claims.tokenId = [])
    (hlinked : claims.WellLinked) : verifier.rule.Admits (.sample n claims) where
  vouched := by
    change verifier.identity.Vouches _
    grind [Identity.sample_vouches]
  grammar := ⟨hverb, hscope, .inr (congrArg IdentityKey.alg hkey)⟩
  current := hcurrent
  unrevoked := unrevoked_of_no_entries hentries
  wellLinked := hlinked

theorem holds_of_no_conditions {subject : Option TokenClaims} {claims : TokenClaims}
    (h : claims.conditions = none) : verifier.rule.holds subject claims := by
  intro bytes hbytes
  simp [h] at hbytes

end Verdict

end WireMesh.Rust
