import WireMesh.Async.Throws
import WireMesh.Membership
import WireMesh.Termination

/-!
# When a verification returns a verdict

What a verifier throws is what the check of a signature throws on the key of some token that it
comes to (`throws_verifyTokenChain`). If no such check throws, and no authorization refers back to
itself (`VerifyOptions.Conclusive`), there is a verdict (`Conclusive.exists_returns`).
-/

namespace WireMesh

open Relation Async

namespace TypeScript

/-! ## What the verifiers throw -/

/-- The evaluator answers on every predicate. -/
def Trilean.Total (trilean : Trilean) : Prop :=
  ∀ p resolve, ∃ t, trilean.evaluatePredicate p resolve = .ok t

theorem Trilean.sample_total : Trilean.sample.Total := fun _ _ => ⟨_, rfl⟩

/-- A search ends when its test answers on every item. -/
theorem exists_firstAsync_eq_ok {T : Type} {l : List T} {p : T → Except String Bool}
    (h : ∀ t, ∃ b, p t = .ok b) : ∃ x, firstAsync l p = .ok x := by
  choose f hf using h
  obtain rfl : p = fun t => pure (f t) := funext hf
  exact ⟨l.find? f, List.findM?_pure f l⟩

/-- A test of a predicate answers, if the evaluator does. -/
theorem Trilean.Total.test {trilean : Trilean} (ht : trilean.Total) (p : PredicateNode)
    (resolve : ResolveDelegate) :
    ∃ b, (do let result ← trilean.evaluatePredicate p resolve
             return decide (result ≠ some true) : Except String Bool) = .ok b := by
  obtain ⟨t, h⟩ := ht p resolve
  exact ⟨_, by rw [h]; rfl⟩

theorem Trilean.Total.evaluateConditions {trilean : Trilean} (ht : trilean.Total)
    (nodes : List PredicateNode) (claims : TokenClaims) (now : ℕ)
    (extraHandlers : String → Option TokenDelegateHandler) (subject : Option GrantSubject) :
    ∃ b, evaluateConditions trilean nodes claims now extraHandlers subject = .ok b := by
  obtain ⟨x, hx⟩ := exists_firstAsync_eq_ok (l := nodes) fun node =>
    ht.test node (resolveCondition extraHandlers { now, claims, subject })
  exact ⟨_, by rw [TypeScript.evaluateConditions, hx]; rfl⟩

theorem Trilean.Total.evaluateNarrowing {trilean : Trilean} (ht : trilean.Total)
    (parent : TokenClaims) (childIssuer : DeviceId) (candidate : NarrowingCandidate) :
    ∃ x, evaluateNarrowing trilean parent childIssuer candidate = .ok x :=
  exists_firstAsync_eq_ok fun _ => ht.test _ _

section Throws

variable {options : VerifyOptions} {ans : Query → Except String TokenVerdict → Prop} {e : String}

theorem throws_revocationEntryGrantsRevoke {entry : RevocationClaims} {target : TokenClaims} :
    ¬Throws ans (revocationEntryGrantsRevoke options entry target) e := by
  rw [revocationEntryGrantsRevoke]
  grind [throws_pure, throws_bind, throws_ask]

theorem throws_verifyConditions (ht : options.trilean.Total) {claims : TokenClaims}
    {subject : Option GrantSubject} :
    ¬Throws ans (verifyConditions options claims subject).run e := by
  rw [verifyConditions]
  split
  · exact throws_run_pure
  next bytes =>
    simp only [throws_run_bind, throws_run_orRefuse, throws_run_await, throws_ofExcept,
      throws_run_ensure, and_false, exists_false, or_false, false_or, not_exists, not_and]
    intro nodes _ h
    obtain ⟨b, hb⟩ := ht.evaluateConditions nodes claims options.now
      options.extraPredicateResolvers subject
    rw [hb] at h
    cases h

/-- The checks of a token on its own throw only as its key is. -/
theorem throws_verifyLink (ht : options.trilean.Total) {token : CapabilityToken} {payload : Bytes}
    {subject : Option GrantSubject}
    (h : Throws ans (verifyLink options token payload subject).run e) :
    ∃ claims, options.codec.claims payload = some claims ∧
      options.identity.verify claims.issuerKey (sig1ToBeSigned token.protectedHeader payload)
        token.signature = .error e := by
  rw [verifyLink] at h
  simp only [throws_run_bind, throws_run_orRefuse, throws_run_await, throws_ofExcept,
    throws_run_ensure, throws_run_pure, throws_verifyConditions ht, accepts_orRefuse, and_false,
    exists_false, or_false, false_or] at h
  obtain ⟨claims, hclaims, hkey | ⟨_, -, _, -, _, -, _, -, _, -, _, -, hsweep⟩⟩ := h
  · exact ⟨claims, hclaims, hkey⟩
  · obtain ⟨entry, -, hentry⟩ := hsweep.findM?
    exact absurd hentry throws_revocationEntryGrantsRevoke

/-- The walk throws only as the key of a token it comes to is checked. -/
theorem throws_verifyTokenChain (ht : options.trilean.Total) {hops : ℕ} {token : CapabilityToken}
    {subject : Option GrantSubject} {seen : List String}
    (h : Throws ans (verifyTokenChain options hops token subject seen).run e) :
    ∃ l, options.codec.toDecoder.Reaches token l ∧ options.identity.verify l.claims.issuerKey
      (sig1ToBeSigned l.token.protectedHeader l.payload) l.token.signature = .error e := by
  induction hops generalizing token subject seen with
  | zero => grind [verifyTokenChain, throws_run_bind, throws_run_orRefuse, throws_run_refuse]
  | succ hops ih =>
    rw [verifyTokenChain, verifyStep] at h
    simp only [throws_run_bind, throws_run_orRefuse, throws_run_ensure, accepts_orRefuse,
      false_or] at h
    obtain ⟨payload, hpayload, -, -, hthrows | ⟨claims, haccepts, h⟩⟩ := h
    · obtain ⟨claims, hclaims, hkey⟩ := throws_verifyLink ht hthrows
      exact ⟨{ token, payload, claims }, .of_reads ⟨rfl, hpayload, hclaims⟩, hkey⟩
    · have habove := above_of_accepts hpayload haccepts
      split at h
      next => exact absurd h throws_run_pure
      next bytes hup =>
        simp only [throws_run_bind, throws_run_orRefuse, throws_run_ensure, throws_run_adapt,
          throws_run_await, throws_ofExcept, throws_run_pure, accepts_orRefuse, false_or,
          and_false, exists_false, or_false] at h
        obtain ⟨upper, hupper, h | ⟨verdict, -, h⟩⟩ := h
        · grind [Decoder.Reaches.of_above]
        -- the narrowing checks are predicates, too
        · obtain ⟨x, hx⟩ := ht.evaluateNarrowing verdict.claims claims.issuer (.ofClaims claims)
          rw [hx] at h
          cases h
      next bytes hup =>
        simp only [throws_run_bind, throws_run_orRefuse, throws_run_ensure, throws_run_adapt,
          throws_run_pure, accepts_orRefuse, false_or, and_false, exists_false, or_false] at h
        grind [Decoder.Reaches.of_above]

theorem throws_verifyCapabilityToken (ht : options.trilean.Total) {query : Query}
    (h : Throws ans (verifyCapabilityToken options query) e) :
    ∃ l, options.codec.toDecoder.Reaches query.token l ∧ options.identity.verify l.claims.issuerKey
      (sig1ToBeSigned l.token.protectedHeader l.payload) l.token.signature = .error e := by
  change Throws ans (ExceptT.run (_ >>= _)) e at h
  grind [throws_run_bind, throws_run_ensure, throws_run_pure, throws_verifyTokenChain]

end Throws

/-! ## When there is a verdict -/

/-- The signatures of all tokens that the verification of the query may come to can be checked, and
    the authorizations of the entries against them do not refer to each other without end. -/
@[grind cases]
structure VerifyOptions.Conclusive (options : VerifyOptions) (query : Query) : Prop where
  descends : Acc (fun q' q => options.Cites q q') query
  checks : ∀ q, ReflTransGen options.Cites query q →
    ∀ l, options.codec.toDecoder.Reaches q.token l → ∃ answer,
      options.identity.verify l.claims.issuerKey (sig1ToBeSigned l.token.protectedHeader l.payload)
        l.token.signature = .ok answer

theorem VerifyOptions.Conclusive.exists_returns {options : VerifyOptions}
    {query : Query} (h : options.Conclusive query) (ht : options.trilean.Total) :
    ∃ verdict, options.Returns query verdict := by
  refine exists_returns_ok (fun _ _ => cites_of_calls) h.descends fun q hq e hthrows => ?_
  obtain ⟨l, hl, hkey⟩ := throws_verifyCapabilityToken ht hthrows
  obtain ⟨answer, hanswer⟩ := h.checks q hq l hl
  cases hanswer.symm.trans hkey

end TypeScript

end WireMesh
