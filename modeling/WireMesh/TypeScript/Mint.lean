import WireMesh.TypeScript.Tokens

/-!
# Minting

The issuance of a capability token. A mint looks at the token directly above
only, decodes it and checks the obligations of the link to it; it does not
verify it. Still, what is minted step by step is accepted as a whole:

* `mints_iff`: what a mint that succeeds has checked;
* `Minted.chainOf`, `Minted.linked`: the tokens of successive mints are a chain
  whose links are upheld.
-/

namespace WireMesh.TypeScript

open Async

inductive MintRefusalReason
  | alreadyExpired
  | parentMalformed
  | parentBearerMismatch
  | expiresExceedsParent
  | scopeDoesNotNarrow
  | capabilityMismatch
  | delegationExceedsParent
  | linksExclusive
  | authorisationMalformed
  | authorisationParentForbidden
  | authorisationBearerMismatch
  | authorisationCapabilityMismatch
  | authorisationScopeDoesNotNarrow
  | authorisationExceedsAuthoriser
  | authorisationDelegationExceeds
  | authorisationConditionsNotSatisfied
deriving DecidableEq

abbrev MintVerdict := Except MintRefusalReason CapabilityToken

/-- A mint: it may refuse, or fail altogether, but verifies no token. -/
abbrev Mint := ExceptT MintRefusalReason (Async Empty Empty String)

structure MintCapabilityTokenOptions where
  identity : Identity
  now : ℕ
  tokenId : Bytes
  bearer : DeviceId
  capability : String
  scope : CapabilityScope
  expires : ℕ
  notBefore : Option ℕ := none
  delegationsRemaining : Option ℕ := none
  parent : Option CapabilityToken := none
  conditions : Option (List PredicateNode) := none
  authorisedBy : Option CapabilityToken := none
  grantsCapability : Option String := none
  requestsCapability : Option String := none

/-- The refusal of a mint by which a narrowing system fails. -/
def NarrowingSystem.mintRefusal : NarrowingSystem → MintRefusalReason
  | .bearerIs => .parentBearerMismatch
  | .expiresAt => .expiresExceedsParent
  | .scopeNarrows => .scopeDoesNotNarrow
  | .capabilityIs => .capabilityMismatch
  | .depthRemaining => .delegationExceedsParent

section Mint

variable (codec : Codec) (trilean : Trilean)

/-- The claims of a token, if they can be decoded. -/
def decodeTokenClaims (token : CapabilityToken) : Option TokenClaims :=
  token.payload.bind codec.claims

/-- The obligations of a parent link, against a candidate. -/
def checkNarrowing (parentClaims : TokenClaims) (granterDeviceId : DeviceId)
    (candidate : NarrowingCandidate) : Mint Unit := do
  let failedSystem ←
    await (ofExcept (evaluateNarrowing trilean parentClaims granterDeviceId candidate))
  match failedSystem with
  | none => pure ()
  | some system => refuse system.mintRefusal

/-- The conditions of an authoriser, about a candidate, at the time 0. -/
def checkConditions (authorisingClaims : TokenClaims) (candidate : GrantSubject) : Mint Unit :=
  match authorisingClaims.conditions with
  | none => pure ()
  | some bytes => do
    let nodes ← orRefuse (codec.conditions bytes) .authorisationMalformed
    let satisfied ← await (ofExcept (evaluateConditions trilean nodes authorisingClaims 0
      (fun _ => none) (some candidate)))
    ensure (satisfied = true) .authorisationConditionsNotSatisfied

/-- The obligations of an authorised-by link, against a candidate. -/
def checkAuthorisation (authorisingClaims : TokenClaims) (minterDeviceId : DeviceId)
    (candidate : GrantSubject) : Mint Unit := do
  ensure (authorisingClaims.parent = none) .authorisationParentForbidden
  ensure (authorisingClaims.bearer = minterDeviceId) .authorisationBearerMismatch
  ensure (¬(authorisingClaims.capability ≠ manageGrant ∨
      ∃ grants ∈ authorisingClaims.grantsCapability, grants ≠ candidate.capability))
    .authorisationCapabilityMismatch
  ensure (scopeNarrows authorisingClaims.scope candidate.scope = true)
    .authorisationScopeDoesNotNarrow
  ensure (¬candidate.expires > authorisingClaims.expires) .authorisationExceedsAuthoriser
  ensure (¬∃ remaining ∈ authorisingClaims.delegationsRemaining,
      ∀ n ∈ candidate.delegationsRemaining, n ≥ remaining)
    .authorisationDelegationExceeds
  checkConditions codec trilean authorisingClaims candidate

/-- The claims of the token to be minted. -/
def MintCapabilityTokenOptions.claims (options : MintCapabilityTokenOptions) : TokenClaims where
  tokenId := options.tokenId
  issuer := options.identity.deviceId
  issuerKey := options.identity.identityKey
  bearer := options.bearer
  capability := options.capability
  scope := options.scope
  expires := options.expires
  notBefore := options.notBefore
  parent := options.parent.map CoseSign1.encode
  delegationsRemaining := options.delegationsRemaining
  conditions := options.conditions.map encodeConditions
  authorisedBy := options.authorisedBy.map CoseSign1.encode
  grantsCapability := options.grantsCapability
  requestsCapability := options.requestsCapability

/-- The check of the parent the token is minted under, if any. -/
def checkParent (options : MintCapabilityTokenOptions) : Mint Unit :=
  match options.parent with
  | none => pure ()
  | some parent => do
    let parentClaims ← orRefuse (decodeTokenClaims codec parent) .parentMalformed
    checkNarrowing trilean parentClaims options.identity.deviceId
      { capability := options.capability, scope := options.scope, expires := options.expires,
        delegationsRemaining := options.delegationsRemaining }

/-- The check of the grant-capability the token is minted under, if any. -/
def checkAuthoriser (options : MintCapabilityTokenOptions) : Mint Unit :=
  match options.authorisedBy with
  | none => pure ()
  | some authoriser => do
    let authorisingClaims ← orRefuse (decodeTokenClaims codec authoriser) .authorisationMalformed
    checkAuthorisation codec trilean authorisingClaims options.identity.deviceId
      { capability := options.capability, scope := options.scope, bearer := options.bearer,
        expires := options.expires, delegationsRemaining := options.delegationsRemaining }

def mintCapabilityToken (options : MintCapabilityTokenOptions) :
    Async Empty Empty String MintVerdict :=
  ExceptT.run do
    ensure (¬options.expires ≤ options.now) .alreadyExpired
    ensure (¬(options.parent.isSome ∧ options.authorisedBy.isSome)) .linksExclusive
    ensure (¬(options.capability = manageGrant ∧ options.parent.isSome))
      .authorisationParentForbidden
    checkParent codec trilean options
    checkAuthoriser codec trilean options
    return options.identity.seal options.claims.encode

end Mint

/-! ## What a mint checks -/

section Accepts

variable {codec : Codec} {trilean : Trilean} {ans : Empty → Except String Empty → Prop}

theorem checkNarrowing_accepts (ht : trilean.Kleene) {parentClaims : TokenClaims}
    {granter : DeviceId} {candidate : NarrowingCandidate} {u : Unit} :
    Accepts ans (checkNarrowing trilean parentClaims granter candidate) u ↔
      Narrowed parentClaims granter candidate := by
  rw [checkNarrowing, ← evaluateNarrowing_eq_none_iff ht]
  simp only [accepts_bind, accepts_await, settles_ofExcept]
  constructor
  · rintro ⟨failed, hfailed, h⟩
    cases failed with
    | none => exact hfailed
    | some system => simp at h
  · intro h
    exact ⟨none, h, accepts_pure.2 rfl⟩

theorem checkConditions_accepts {claims : TokenClaims} {candidate : GrantSubject} {u : Unit} :
    Accepts ans (checkConditions codec trilean claims candidate) u ↔
      ∀ bytes ∈ claims.conditions, ∃ nodes, codec.conditions bytes = some nodes ∧
        evaluateConditions trilean nodes claims 0 (fun _ => none) (some candidate) = .ok true := by
  rw [checkConditions]
  cases claims.conditions with
  | none => simp
  | some bytes => simp

/-- The candidate, to be minted by `minter`, is within the authoriser in all respects. -/
@[grind cases]
structure Authorised (authoriser : TokenClaims) (minter : DeviceId)
    (candidate : GrantSubject) : Prop where
  bearer : authoriser.bearer = minter
  capability : authoriser.capability = manageGrant
  grants : ∀ verb ∈ authoriser.grantsCapability, verb = candidate.capability
  scope : scopeNarrows authoriser.scope candidate.scope
  expires : candidate.expires ≤ authoriser.expires
  remaining : Consumes authoriser.delegationsRemaining candidate.delegationsRemaining

theorem checkAuthorisation_accepts {claims : TokenClaims} {minter : DeviceId}
    {candidate : GrantSubject} {u : Unit} :
    Accepts ans (checkAuthorisation codec trilean claims minter candidate) u ↔
      claims.parent = none ∧ Authorised claims minter candidate ∧
        ∀ bytes ∈ claims.conditions, ∃ nodes, codec.conditions bytes = some nodes ∧
          evaluateConditions trilean nodes claims 0 (fun _ => none) (some candidate) =
            .ok true := by
  have hremaining : (¬∃ remaining ∈ claims.delegationsRemaining,
      ∀ n ∈ candidate.delegationsRemaining, n ≥ remaining) ↔
        Consumes claims.delegationsRemaining candidate.delegationsRemaining := by
    simp only [Consumes, not_exists, not_and, not_forall, not_le, ge_iff_le, exists_prop]
  have hcapability : ¬(claims.capability ≠ manageGrant ∨
      ∃ grants ∈ claims.grantsCapability, grants ≠ candidate.capability) ↔
        claims.capability = manageGrant ∧
          ∀ verb ∈ claims.grantsCapability, verb = candidate.capability := by
    simp only [not_or, not_not, not_exists, not_and]
  rw [checkAuthorisation]
  simp only [accepts_bind, accepts_ensure, checkConditions_accepts, exists_const, hremaining,
    hcapability, gt_iff_lt, not_lt]
  constructor
  · rintro ⟨hparent, hbearer, ⟨hgrant, hgrants⟩, hscope, hexpires, hconsumes, hholds⟩
    exact ⟨hparent, ⟨hbearer, hgrant, hgrants, hscope, hexpires, hconsumes⟩, hholds⟩
  · grind

variable {options : MintCapabilityTokenOptions}

theorem checkParent_accepts (ht : trilean.Kleene) {u : Unit} :
    Accepts ans (checkParent codec trilean options) u ↔
      ∀ parent ∈ options.parent, ∃ claims, decodeTokenClaims codec parent = some claims ∧
        Narrowed claims options.identity.deviceId (.ofClaims options.claims) := by
  rw [checkParent]
  cases options.parent with
  | none => simp
  | some parent =>
    simp only [accepts_bind, accepts_orRefuse, checkNarrowing_accepts ht, Option.mem_def,
      Option.some.injEq, forall_eq']
    rfl

/-- The token to be minted as the subject of its authoriser's conditions. -/
def MintCapabilityTokenOptions.subject (options : MintCapabilityTokenOptions) : GrantSubject where
  capability := options.capability
  scope := options.scope
  bearer := options.bearer
  expires := options.expires
  delegationsRemaining := options.delegationsRemaining

theorem checkAuthoriser_accepts {u : Unit} :
    Accepts ans (checkAuthoriser codec trilean options) u ↔
      ∀ authoriser ∈ options.authorisedBy, ∃ claims,
        decodeTokenClaims codec authoriser = some claims ∧ claims.parent = none ∧
        Authorised claims options.identity.deviceId options.subject ∧
        ∀ bytes ∈ claims.conditions, ∃ nodes, codec.conditions bytes = some nodes ∧
          evaluateConditions trilean nodes claims 0 (fun _ => none) (some options.subject) =
            .ok true := by
  rw [checkAuthoriser]
  cases options.authorisedBy with
  | none => simp
  | some authoriser =>
    simp only [accepts_bind, accepts_orRefuse, checkAuthorisation_accepts, Option.mem_def,
      Option.some.injEq, forall_eq']
    rfl

/-- The mint returns the token. -/
def MintCapabilityTokenOptions.Mints (codec : Codec) (trilean : Trilean)
    (options : MintCapabilityTokenOptions) (token : CapabilityToken) : Prop :=
  Settles (fun _ _ => False) (mintCapabilityToken codec trilean options) (.ok (.ok token))

/-- A mint returns a token when the checks of the links pass, which seals its claims. -/
theorem mints_iff (ht : trilean.Kleene) {token : CapabilityToken} :
    options.Mints codec trilean token ↔
      options.now < options.expires ∧ options.claims.WellLinked ∧
      (∀ parent ∈ options.parent, ∃ claims, decodeTokenClaims codec parent = some claims ∧
        Narrowed claims options.identity.deviceId (.ofClaims options.claims)) ∧
      (∀ authoriser ∈ options.authorisedBy, ∃ claims,
        decodeTokenClaims codec authoriser = some claims ∧ claims.parent = none ∧
        Authorised claims options.identity.deviceId options.subject ∧
        ∀ bytes ∈ claims.conditions, ∃ nodes, codec.conditions bytes = some nodes ∧
          evaluateConditions trilean nodes claims 0 (fun _ => none) (some options.subject) =
            .ok true) ∧
      token = options.identity.seal options.claims.encode := by
  have hlinked : options.claims.WellLinked ↔
      ¬(options.capability = manageGrant ∧ options.parent.isSome) ∧
        ¬(options.parent.isSome ∧ options.authorisedBy.isSome) := by
    rw [TokenClaims.wellLinked_iff]
    simp [MintCapabilityTokenOptions.claims]
  change Accepts _ _ token ↔ _
  simp only [accepts_bind, accepts_ensure, accepts_pure, checkParent_accepts ht,
    checkAuthoriser_accepts, exists_const, not_le, hlinked]
  grind

end Accepts

/-! ## Chains of mints -/

/-- A mint, with the token it returned. -/
structure Mintage where
  options : MintCapabilityTokenOptions
  token : CapabilityToken

def Mintage.link (m : Mintage) : Link where
  token := m.token
  payload := m.options.claims.encode
  claims := m.options.claims

/-- Successive mints, the last one first, each linked to the token of the one before. -/
inductive Minted (codec : Codec) (trilean : Trilean) : List Mintage → Prop
  | root {m : Mintage} :
      m.options.Mints codec trilean m.token → m.options.parent = none →
        m.options.authorisedBy = none → Minted codec trilean [m]
  | parent {m u : Mintage} {ms : List Mintage} :
      m.options.Mints codec trilean m.token → m.options.parent = some u.token →
        Minted codec trilean (u :: ms) → Minted codec trilean (m :: u :: ms)
  | authorisedBy {m u : Mintage} {ms : List Mintage} :
      m.options.Mints codec trilean m.token → m.options.authorisedBy = some u.token →
        Minted codec trilean (u :: ms) → Minted codec trilean (m :: u :: ms)

/-- The codec reads back the claims and the token that were encoded. -/
@[grind cases]
structure Codec.RoundTrips (codec : Codec) (l : Link) : Prop where
  claims : codec.claims l.claims.encode = some l.claims
  token : codec.token l.token.encode = some l.token

namespace Minted

variable {codec : Codec} {trilean : Trilean} {m u : Mintage} {ms : List Mintage}

theorem mints (h : Minted codec trilean ms) :
    ∀ m ∈ ms, m.options.Mints codec trilean m.token := by
  induction h with
  | root hm _ _ => simpa using hm
  | parent hm _ _ ih => exact List.forall_mem_cons.2 ⟨hm, ih⟩
  | authorisedBy hm _ _ ih => exact List.forall_mem_cons.2 ⟨hm, ih⟩

/-- The token of a mint seals its claims. -/
theorem token_eq (ht : trilean.Kleene) (h : Minted codec trilean ms) (hm : m ∈ ms) :
    m.token = m.options.identity.seal m.options.claims.encode :=
  ((mints_iff ht).1 (h.mints m hm)).2.2.2.2

/-- A token that was minted decodes to its claims. -/
theorem decodeTokenClaims_eq (ht : trilean.Kleene) (h : Minted codec trilean ms) (hm : m ∈ ms)
    (hround : codec.RoundTrips m.link) :
    decodeTokenClaims codec m.token = some m.options.claims := by
  rw [h.token_eq ht hm]
  exact hround.claims

/-- Each token embeds the one before it and upholds the link to it. -/
theorem linked (ht : trilean.Kleene) (h : Minted codec trilean ms)
    (hround : ∀ m ∈ ms, codec.RoundTrips m.link) :
    (ms.map Mintage.link).IsChain fun l u =>
      ∃ kind, l.claims.upward = some (kind, u.token.encode) ∧
        Upholds (fun upper lower => scopeNarrows upper lower) kind l.claims u.claims := by
  induction h with
  | root _ _ _ => exact .singleton _
  | @parent m u ms hm hparent hu ih =>
    obtain ⟨-, hrounds⟩ := List.forall_mem_cons.1 hround
    refine .cons_cons ⟨.parent, ?_, ?_⟩ (ih hrounds)
    · simp [TokenClaims.upward, Mintage.link, MintCapabilityTokenOptions.claims, hparent]
    · obtain ⟨-, -, hnarrowed, -⟩ := (mints_iff ht).1 hm
      obtain ⟨claims, hclaims, hnarrowed⟩ := hnarrowed u.token hparent
      rw [hu.decodeTokenClaims_eq ht List.mem_cons_self (hrounds u List.mem_cons_self)] at hclaims
      obtain rfl := Option.some.inj hclaims
      exact ⟨hnarrowed.bearer, hnarrowed.scope, hnarrowed.expires, hnarrowed.remaining,
        hnarrowed.capability⟩
  | @authorisedBy m u ms hm hauthoriser hu ih =>
    obtain ⟨-, hrounds⟩ := List.forall_mem_cons.1 hround
    obtain ⟨-, hlinked, -, hauthorised, -⟩ := (mints_iff ht).1 hm
    refine .cons_cons ⟨.authorisation, ?_, ?_⟩ (ih hrounds)
    -- a token with an authoriser has no parent
    · grind [MintCapabilityTokenOptions.claims, TokenClaims.upward, Mintage.link]
    · obtain ⟨claims, hclaims, -, hauthorised, -⟩ := hauthorised u.token hauthoriser
      rw [hu.decodeTokenClaims_eq ht List.mem_cons_self (hrounds u List.mem_cons_self)] at hclaims
      obtain rfl := Option.some.inj hclaims
      exact ⟨hauthorised.bearer, hauthorised.scope, hauthorised.expires, hauthorised.remaining,
        hauthorised.capability, hauthorised.grants⟩

/-- The first token minted is linked to none. -/
theorem upward_getLast (h : Minted codec trilean ms) :
    ∀ m ∈ ms.getLast?, m.options.claims.upward = none := by
  induction h with
  | root _ hparent hauthoriser =>
    simp [TokenClaims.upward, MintCapabilityTokenOptions.claims, hparent, hauthoriser]
  | parent _ _ _ ih => simpa using ih
  | authorisedBy _ _ _ ih => simpa using ih

/-- The tokens minted are the chain of the last one. -/
theorem chainOf (ht : trilean.Kleene) (h : Minted codec trilean (m :: ms))
    (hround : ∀ u ∈ m :: ms, codec.RoundTrips u.link) :
    ChainOf codec.toDecoder m.token ((m :: ms).map Mintage.link) := by
  refine .of_embedded ?_ ((h.linked ht hround).imp fun _ _ ⟨kind, hup, _⟩ => ⟨kind, hup⟩) ?_
  · rw [← List.map_cons, List.forall_mem_map]
    intro u hu
    have hpayload : u.token.payload = some u.options.claims.encode := by
      rw [h.token_eq ht hu]
      rfl
    exact ⟨⟨rfl, hpayload, (hround u hu).claims⟩, (hround u hu).token⟩
  · have hlast := h.upward_getLast _ (List.getLast_mem_getLast? (List.cons_ne_nil m ms))
    simp only [← List.map_cons, List.getLast_map]
    exact hlast

end Minted

end WireMesh.TypeScript
