import WireMesh.Machine
import WireMesh.TypeScript.Mint

/-!
# Requests for a capability

`createCapabilityRequestHandler`: a peer asks for a capability, with a token
where one is required. The domain decides, before a timer fires, and a decision
to accept mints a token. The domain may add fields to the answer, and replace
those that are there (`field_grantResponse`).

* `request_outcome`: what a request has come to.
-/

namespace WireMesh.TypeScript.CapabilityRequest

def manageRequestCapability : String := "manage:request"

/-- A request, and the options of the handler it is given to. -/
structure Request where
  /-- The capability and the `valid-until` of the parameters, if they can be parsed. -/
  params : Option (String × Option ℕ)
  scope : CapabilityScope
  token : Option CapabilityToken
  capability : String
  /-- The options of a verifier, with the time and the entries of the view at first. -/
  verifier : VerifyOptions
  /-- There is a revocation view. -/
  revocation : Bool
  requireRequestToken : Bool
  bearerDevice : DeviceId

/-- The fields of type `Value` are those that the domain adds to the answer. -/
structure Grant (Value : Type) where
  capability : String
  expires : ℕ
  delegationsRemaining : Option ℕ
  extensions : Option (List (String × Value))

inductive CapabilityGrantDecision (Value : Type)
  | accept (grant : Grant Value)
  | reject (reason : Option String)

inductive Refusal
  | malformed
  | tokenRequired
  | verdict (reason : TokenVerdictReason)
  | capabilityMismatch
  | scopeMismatch
  | expired
  | timeout
  | denied (message : Option String)
  | mintFailed

/-- What a field of an answer holds. -/
inductive Field (Value : Type)
  | text (value : String)
  | token (token : CapabilityToken)
  | extension (value : Value)

/-- The fields of an answer, in the order in which they are written. -/
abbrev GrantResponse (Value : Type) := List (String × Field Value)

/-- The extensions are spread over the answer, and take the place of fields with their names. -/
def grantResponse {Value : Type} (grantedToken : CapabilityToken)
    (extensions : Option (List (String × Value))) : GrantResponse Value :=
  [("result", .text "ok"), ("granted-token", .token grantedToken)] ++
    (extensions.getD []).map fun e => (e.1, .extension e.2)

inductive Stage (Value : Type)
  /-- The request token is being verified. -/
  | verifying
  /-- The domain has been asked, nothing is settled, and the timer runs. -/
  | pending
  | minting (grant : Grant Value)
  | answered
  /-- Something has thrown. -/
  | failed

structure Call (Value : Type) where
  stage : Stage Value
  responses : List (Except Refusal (GrantResponse Value))

variable {Value : Type}

def Call.respond (c : Call Value) (response : Except Refusal (GrantResponse Value)) : Call Value :=
  ⟨.answered, c.responses ++ [response]⟩

inductive Event (Value : Type)
  /-- With the time and the entries at the call, and the time after it. -/
  | verified (start : ℕ) (entriesFor : Bytes → List RevocationClaims)
    (verdict : Except String TokenVerdict) (now : ℕ)
  | timeout
  | decide (decision : CapabilityGrantDecision Value)
  /-- With the time that the mint has read. -/
  | minted (now : ℕ) (tokenId : Bytes) (verdict : Except String MintVerdict)

variable (r : Request)

/-- The domain is asked, if the request has not expired. -/
def askDomain (now : ℕ) (c : Call Value) : Call Value :=
  if ∃ params ∈ r.params, ∃ validUntil ∈ params.2, validUntil ≤ now then
    c.respond (.error .expired)
  else { c with stage := .pending }

/-- The rest of `checkRequestPermission`, once the token is found to be valid. -/
def checkClaims (claims : TokenClaims) : Except Refusal Unit :=
  if claims.capability ≠ manageRequestCapability then .error .capabilityMismatch
  else if ∃ c ∈ claims.requestsCapability, c ≠ r.capability then .error .capabilityMismatch
  else if ¬scopeNarrows claims.scope r.scope then .error .scopeMismatch
  else .ok ()

def mintOptions (grant : Grant Value) (now : ℕ) (tokenId : Bytes) : MintCapabilityTokenOptions where
  identity := r.verifier.identity
  now := now
  tokenId := tokenId
  bearer := r.bearerDevice
  capability := grant.capability
  scope := r.scope
  expires := grant.expires
  delegationsRemaining := grant.delegationsRemaining

def next (c : Call Value) (e : Event Value) : Call Value :=
  match c.stage, e with
  | .verifying, .verified _ _ (.error _) _ => { c with stage := .failed }
  | .verifying, .verified _ _ (.ok (.error reason)) _ => c.respond (.error (.verdict reason))
  | .verifying, .verified _ _ (.ok (.ok v)) now =>
    match checkClaims r v.claims with
    | .error refusal => c.respond (.error refusal)
    | .ok () => askDomain r now c
  | .pending, .timeout => c.respond (.error .timeout)
  | .pending, .decide (.reject reason) => c.respond (.error (.denied reason))
  | .pending, .decide (.accept grant) => { c with stage := .minting grant }
  | .minting _, .minted _ _ (.error _) => { c with stage := .failed }
  | .minting _, .minted _ _ (.ok (.error _)) => c.respond (.error .mintFailed)
  | .minting grant, .minted _ _ (.ok (.ok token)) =>
    c.respond (.ok (grantResponse token grant.extensions))
  | _, _ => c

/-- The token of the request is valid, with these claims. -/
def Verifies (start : ℕ) (entriesFor : Bytes → List RevocationClaims) (v : TokenAccepted) : Prop :=
  ∃ token ∈ r.token, VerifyOptions.Returns { r.verifier with now := start, entriesFor }
    ⟨token, some r.bearerDevice⟩ (.ok v)

/-- The verdicts are those of the verifier and of the mint. -/
def Awaited (c : Call Value) : Event Value → Prop
  | .verified start entriesFor verdict _ =>
    ∀ v, verdict = .ok (.ok v) → Verifies r start entriesFor v
  | .minted now tokenId verdict => ∀ grant token, c.stage = .minting grant →
    verdict = .ok (.ok token) →
    (mintOptions r grant now tokenId).Mints r.verifier.codec r.verifier.trilean token
  | _ => True

/-- Where a token is required, one of the peer that lets it ask for this has been verified. -/
def Permitted (events : List (Event Value)) : Prop :=
  r.requireRequestToken → ∃ start entriesFor v now,
    .verified start entriesFor (.ok (.ok v)) now ∈ events ∧ Verifies r start entriesFor v ∧
    v.claims.capability = manageRequestCapability ∧
    (∀ c ∈ v.claims.requestsCapability, c = r.capability) ∧
    scopeNarrows v.claims.scope r.scope

/-- What a request comes to: at most one answer, and a token only if the peer may ask and the
    domain has accepted, minted before it expires for the peer over the scope of the request, with
    the extensions of the decision. -/
inductive Outcome (events : List (Event Value)) : Call Value → Prop
  | verifying : Outcome events ⟨.verifying, []⟩
  | failed : Outcome events ⟨.failed, []⟩
  | refused (refusal : Refusal) : Outcome events ⟨.answered, [.error refusal]⟩
  | pending : Permitted r events → Outcome events ⟨.pending, []⟩
  | minting (grant : Grant Value) : Permitted r events → .decide (.accept grant) ∈ events →
      Outcome events ⟨.minting grant, []⟩
  | granted (grant : Grant Value) (now : ℕ) (tokenId : Bytes) (token : CapabilityToken) :
      Permitted r events → .decide (.accept grant) ∈ events →
      .minted now tokenId (.ok (.ok token)) ∈ events → now < grant.expires →
      token = r.verifier.identity.seal (mintOptions r grant now tokenId).claims.encode →
      Outcome events ⟨.answered, [.ok (grantResponse token grant.extensions)]⟩

variable {r} {events : List (Event Value)}

theorem checkClaims_eq_ok {claims : TokenClaims} (h : checkClaims r claims = .ok ()) :
    claims.capability = manageRequestCapability ∧
      (∀ c ∈ claims.requestsCapability, c = r.capability) ∧
      scopeNarrows claims.scope r.scope := by
  rw [checkClaims] at h
  split_ifs at h with hcapability hrequests hscope
  exact ⟨not_not.1 hcapability, by simpa using hrequests, hscope⟩

theorem outcome_askDomain (now : ℕ) (h : Permitted r events) :
    Outcome r events (askDomain r now ⟨.verifying, []⟩) := by
  rw [askDomain]
  split_ifs
  · exact .refused _
  · exact .pending h

theorem Outcome.next (ht : r.verifier.trilean.Kleene) {c : Call Value} (h : Outcome r events c)
    {e : Event Value} (hmem : e ∈ events) (he : Awaited r c e) : Outcome r events (next r c e) := by
  have hsame := h
  cases h with
  | verifying =>
    cases e with
    | verified start entriesFor verdict now =>
      rcases verdict with _ | _ | v
      · exact .failed
      · exact .refused _
      simp only [CapabilityRequest.next]
      split
      · exact .refused _
      · rename_i hclaims
        exact outcome_askDomain now fun _ =>
          ⟨start, entriesFor, v, now, hmem, he v rfl, checkClaims_eq_ok hclaims⟩
    | _ => exact hsame
  | pending hp =>
    cases e with
    | timeout => exact .refused _
    | decide decision =>
      cases decision with
      | accept grant => exact .minting grant hp hmem
      | reject reason => exact .refused _
    | _ => exact hsame
  | minting grant hp haccept =>
    cases e with
    | minted now tokenId verdict =>
      rcases verdict with _ | _ | token
      · exact .failed
      · exact .refused _
      obtain ⟨hlt, -, -, -, rfl⟩ := (mints_iff ht).1 (he grant token rfl rfl)
      exact .granted grant now tokenId _ hp haccept hmem hlt rfl
    | _ => exact hsame
  -- nothing happens after an answer or a failure
  | _ => exact hsame

end WireMesh.TypeScript.CapabilityRequest
