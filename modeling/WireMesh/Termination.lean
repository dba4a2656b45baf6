import WireMesh.Async.Calls
import WireMesh.Rust.Revocation
import WireMesh.TypeScript.RevocationView

/-!
# Whether a verification ends

The verification of a token comes to verify the authorizations of the entries
recorded against the tokens of its chain. These are verified in turn, with a
bound on the depth and a record of what was seen that start afresh, so nothing
keeps a verification from coming back to itself.

A view holds finitely many entries, so a verification ends iff it does not come
back to itself. That is so when no authorization refers back to itself through
the tokens above it and the entries against them (`Cites`):

* `verify_terminates_iff`: when the verifications end;
* `verify_diverges`: one that does not, of an authority to revoke that its
  bearer uses to revoke the authority itself.
-/

namespace WireMesh

open Relation Async

/-- The tokens directly above one, of which the decoder knows one at most. -/
def Decoder.Above (d : Decoder) (lower upper : CapabilityToken) : Prop :=
  ∃ l kind bytes, d.Reads lower l ∧ l.claims.upward = some (kind, bytes) ∧
    d.token bytes = some upper

/-- The link is that of the token or of one above it. -/
def Decoder.Reaches (d : Decoder) (token : CapabilityToken) (l : Link) : Prop :=
  ∃ upper, ReflTransGen d.Above token upper ∧ d.Reads upper l

theorem Decoder.Reaches.of_reads {d : Decoder} {token : CapabilityToken} {l : Link}
    (h : d.Reads token l) : d.Reaches token l :=
  ⟨token, .refl, h⟩

theorem Decoder.Reaches.of_above {d : Decoder} {lower upper : CapabilityToken} {l : Link}
    (h : d.Above lower upper) (hl : d.Reaches upper l) : d.Reaches lower l := by
  obtain ⟨top, htop, hreads⟩ := hl
  exact ⟨top, .head h htop, hreads⟩

theorem Decoder.Reaches.eq_of_root {d : Decoder} {token : CapabilityToken} {l root : Link}
    (h : d.Reaches token l) (hroot : d.Reads token root) (hup : root.claims.upward = none) :
    l = root := by
  obtain ⟨upper, habove, hl⟩ := h
  rcases ReflTransGen.cases_head habove with rfl | ⟨_, ⟨l', kind, bytes, hl', hup', -⟩, -⟩
  · exact hl.unique hroot
  · rw [hl'.unique hroot, hup] at hup'
    cases hup'

/-! ## In TypeScript -/

namespace TypeScript

/-- The entry needs its authorization to revoke the target, which the query asks about. -/
def VerifyOptions.Defers (options : VerifyOptions) (entry : RevocationClaims)
    (target : TokenClaims) (query : Query) : Prop :=
  entry.issuer ≠ target.issuer ∧ ∃ bytes ∈ entry.authorization, ∃ authorization,
    options.codec.token bytes = some authorization ∧
    query = { token := authorization, expectedBearer := some entry.issuer }

/-- The second query is about the authorization of an entry against a token of the chain of
    the first one. -/
def VerifyOptions.Cites (options : VerifyOptions) (query query' : Query) : Prop :=
  ∃ l, options.codec.toDecoder.Reaches query.token l ∧
    ∃ entry ∈ options.entriesFor l.claims.tokenId, options.Defers entry l.claims query'

section

variable {options : VerifyOptions} {ans : Query → Except String TokenVerdict → Prop}
  {query : Query}

theorem asks_revocationEntryGrantsRevoke {entry : RevocationClaims} {target : TokenClaims} :
    Asks ans (revocationEntryGrantsRevoke options entry target) query ↔
      options.Defers entry target query := by
  rw [revocationEntryGrantsRevoke, VerifyOptions.Defers]
  split_ifs with hissuer
  · simp [hissuer]
  · cases entry.authorization with
    | none => simp
    | some bytes =>
      cases htoken : options.codec.token bytes with
      | none => simp [htoken]
      | some authorization =>
        simp only [htoken]
        rw [asks_bind, asks_ask]
        constructor
        · rintro (rfl | ⟨verdict, -, h⟩)
          · exact ⟨hissuer, bytes, rfl, authorization, htoken, rfl⟩
          · cases verdict <;> simp at h
        · grind

theorem asks_verifyConditions {claims : TokenClaims} {subject : Option GrantSubject} :
    ¬Asks ans (verifyConditions options claims subject).run query := by
  rw [verifyConditions]
  grind [asks_run_pure, asks_run_bind, asks_run_orRefuse, asks_run_await, asks_ofExcept,
    asks_run_ensure]

/-- A token passed its own checks up to the sweep of its entries when a question comes up. -/
theorem asks_verifyLink {token : CapabilityToken} {payload : Bytes}
    {subject : Option GrantSubject} :
    Asks ans (verifyLink options token payload subject).run query ↔
      ∃ claims, options.codec.claims payload = some claims ∧
        options.identity.Vouches { token, payload, claims } ∧ claims.CurrentAt options.now ∧
        ∃ before entry after, options.entriesFor claims.tokenId = before ++ entry :: after ∧
          (∀ e ∈ before,
            Settles ans (revocationEntryGrantsRevoke options e claims) (.ok false)) ∧
          options.Defers entry claims query := by
  rw [verifyLink]
  simp only [asks_run_bind, asks_run_orRefuse, asks_run_ensure, asks_run_await, asks_ofExcept,
    asks_run_pure, asks_verifyConditions, accepts_orRefuse, accepts_await, settles_ofExcept,
    accepts_ensure, firstAsync, asks_findM?, asks_revocationEntryGrantsRevoke, false_or, and_false,
    exists_false, or_false, exists_const]
  constructor
  · rintro ⟨claims, hclaims, _, hsigned, rfl, hissuer, hexpires, hbefore, huntil, h⟩
    exact ⟨claims, hclaims, ⟨hsigned, hissuer⟩,
      TokenClaims.currentAt_iff.2 ⟨hexpires, hbefore, huntil⟩, h⟩
  · grind [TokenClaims.currentAt_iff]

/-- The walk goes on to a token above. -/
theorem above_of_accepts {token : CapabilityToken} {payload : Bytes}
    {subject : Option GrantSubject} {claims : TokenClaims} (hpayload : token.payload = some payload)
    (h : Accepts ans (verifyLink options token payload subject) claims) (kind : LinkKind)
    (bytes : Bytes) (upper : CapabilityToken) (hup : claims.upward = some (kind, bytes))
    (hupper : options.codec.token bytes = some upper) :
    options.codec.toDecoder.Above token upper :=
  ⟨{ token, payload, claims }, kind, bytes, ⟨rfl, hpayload, (verifyLink_accepts.1 h).1⟩, hup,
    hupper⟩

/-- Every question of the walk is about an entry against a token it has come to. -/
theorem reaches_of_asks_verifyTokenChain {hops : ℕ} {token : CapabilityToken}
    {subject : Option GrantSubject} {seen : List String}
    (h : Asks ans (verifyTokenChain options hops token subject seen).run query) :
    ∃ l, options.codec.toDecoder.Reaches token l ∧
      ∃ entry ∈ options.entriesFor l.claims.tokenId, options.Defers entry l.claims query := by
  induction hops generalizing token subject seen with
  | zero => grind [verifyTokenChain, asks_run_bind, asks_run_orRefuse, asks_run_refuse]
  | succ hops ih =>
    rw [verifyTokenChain, verifyStep] at h
    simp only [asks_run_bind, asks_run_orRefuse, asks_run_ensure, accepts_orRefuse,
      accepts_ensure, false_or] at h
    obtain ⟨payload, hpayload, -, -, hask | ⟨claims, haccepts, h⟩⟩ := h
    -- the question is about the token itself
    · obtain ⟨claims, hclaims, -, -, before, entry, after, hentries, -, hdefers⟩ :=
        asks_verifyLink.1 hask
      exact ⟨{ token, payload, claims }, .of_reads ⟨rfl, hpayload, hclaims⟩, entry,
        by simp [hentries], hdefers⟩
    -- the question is about one above it
    · have habove := above_of_accepts hpayload haccepts
      split at h
      next => cases h
      next bytes hup =>
        simp only [asks_run_bind, asks_run_orRefuse, asks_run_ensure, asks_run_adapt,
          asks_run_await, asks_ofExcept, asks_run_pure, accepts_orRefuse, false_or, and_false,
          exists_false, or_false] at h
        grind [Decoder.Reaches.of_above]
      next bytes hup =>
        simp only [asks_run_bind, asks_run_orRefuse, asks_run_ensure, asks_run_adapt,
          asks_run_pure, accepts_orRefuse, false_or, and_false, exists_false, or_false] at h
        grind [Decoder.Reaches.of_above]

theorem cites_of_calls {query' : Query}
    (h : Calls (verifyCapabilityToken options) query query') : options.Cites query query' := by
  change Asks _ (ExceptT.run (_ >>= _)) query' at h
  simp only [asks_run_bind, asks_run_ensure, asks_run_pure, and_false, exists_false,
    or_false] at h
  exact reaches_of_asks_verifyTokenChain h

/-- The queries about the authorizations of the entries in a view. -/
def VerifyOptions.citations (options : VerifyOptions) (view : RevocationView) : List Query :=
  view.entriesByTokenId.values.filterMap fun entry =>
    (entry.authorization.bind options.codec.token).map fun authorization =>
      { token := authorization, expectedBearer := some entry.issuer }

theorem mem_citations_of_cites {view : RevocationView} {query' : Query}
    (h : (options.consulting view).Cites query query') : query' ∈ options.citations view := by
  obtain ⟨l, -, entry, hentry, -, bytes, hbytes, authorization, htoken, rfl⟩ := h
  replace hbytes : entry.authorization = some bytes := hbytes
  replace htoken : options.codec.token bytes = some authorization := htoken
  exact List.mem_filterMap.2 ⟨entry, Buckets.mem_values_of_mem_bucket hentry,
    by simp [hbytes, htoken]⟩

theorem terminates_iff {view : RevocationView} :
    Terminates (verifyCapabilityToken (options.consulting view)) query ↔
      ∀ q, ReflTransGen (Calls (verifyCapabilityToken (options.consulting view))) query q →
        ¬TransGen (Calls (verifyCapabilityToken (options.consulting view))) q q :=
  terminates_iff_acyclic (finite_reflTransGen fun _ _ h =>
    mem_citations_of_cites (cites_of_calls h))

/-- A token that passes its own checks up to the sweep of its entries comes to the first of
    them. -/
theorem calls_of_first_entry {query' : Query} {l : Link} {entry : RevocationClaims}
    {entries : List RevocationClaims} (hreads : options.codec.toDecoder.Reads query.token l)
    (hvouches : options.identity.Vouches l) (hcurrent : l.claims.CurrentAt options.now)
    (hentries : options.entriesFor l.claims.tokenId = entry :: entries)
    (hdefers : options.Defers entry l.claims query') :
    Calls (verifyCapabilityToken options) query query' := by
  obtain ⟨token, payload, claims⟩ := l
  obtain rfl : token = query.token := hreads.token_eq
  refine asks_run_bind.2 (.inl ?_)
  rw [maxChainDepth, verifyTokenChain, verifyStep]
  refine asks_run_bind.2 (.inr ⟨payload, accepts_orRefuse.2 hreads.payload_eq, ?_⟩)
  refine asks_run_bind.2 (.inr ⟨(), accepts_ensure.2 (by simp), ?_⟩)
  exact asks_run_bind.2 (.inl (asks_verifyLink.2 ⟨claims, hreads.claims_eq, hvouches, hcurrent,
    [], entry, entries, hentries, by simp, hdefers⟩))

end

end TypeScript

/-! ## In Rust -/

namespace Rust

/-- The entry needs its authorization to revoke the target, which the query asks about. -/
def Verifier.Defers (verifier : Verifier) (entry : RevocationClaims) (target : TokenClaims)
    (query : Query) : Prop :=
  entry.issuer ≠ target.issuer ∧ ∃ bytes ∈ entry.authorization, ∃ authorization,
    verifier.codec.token bytes = .ok authorization ∧
    query = { token := authorization, expectedBearer := none }

/-- The second query is about the authorization of an entry against a token of the chain of
    the first one. -/
def Verifier.Cites (verifier : Verifier) (query query' : Query) : Prop :=
  ∃ l, verifier.codec.toDecoder.Reaches query.token l ∧
    ∃ entry ∈ verifier.entriesFor l.claims.tokenId, verifier.Defers entry l.claims query'

section

variable {verifier : Verifier} {ans : Query → Except Empty TokenVerdict → Prop} {query : Query}

theorem asks_revocationEntryGrantsRevoke {entry : RevocationClaims} {target : TokenClaims} :
    Asks ans (revocationEntryGrantsRevoke verifier entry target) query ↔
      verifier.Defers entry target query := by
  rw [revocationEntryGrantsRevoke, Verifier.Defers]
  split_ifs with hissuer
  · simp [hissuer]
  · cases entry.authorization with
    | none => simp
    | some bytes =>
      cases htoken : verifier.codec.token bytes with
      | error => simp [htoken]
      | ok authorization =>
        simp only [htoken]
        rw [asks_bind, asks_ask]
        constructor
        · rintro (rfl | ⟨verdict, -, h⟩)
          · exact ⟨hissuer, bytes, rfl, authorization, htoken, rfl⟩
          · cases verdict <;> simp at h
        · grind

theorem asks_verifyEnvelope {token : CapabilityToken} {claims : TokenClaims} :
    ¬Asks ans (verifyEnvelope verifier token claims).run query := by
  grind [verifyEnvelope, asks_run_bind, asks_run_orRefuseWith, asks_run_orRefuse, asks_run_ensure]

theorem asks_verifyWindows {claims : TokenClaims} :
    ¬Asks ans (verifyWindows verifier claims).run query := by
  grind [verifyWindows, asks_run_bind, asks_run_ensure, asks_run_pure]

theorem asks_verifyLinks {claims : TokenClaims} :
    ¬Asks ans (verifyLinks claims).run query := by
  rw [verifyLinks]
  split <;> simp

theorem asks_verifyConditions {claims : TokenClaims} {subject : Option GrantSubject} :
    ¬Asks ans (verifyConditions verifier claims subject).run query := by
  grind [verifyConditions, asks_run_pure, asks_run_bind, asks_run_orRefuseWith, asks_run_ensure]

theorem asks_verifyChildLink {state : WalkState} {claims : TokenClaims} :
    ¬Asks ans (verifyChildLink state claims).run query := by
  rw [verifyChildLink]
  split
  next child kind _ _ =>
    rcases kind with _ | _ <;>
      grind [verifyObligations, asks_run_bind, asks_run_ensure]
  next => exact asks_run_pure

/-- A token is new and passed the checks of its envelope when a question comes up. -/
theorem asks_verifyLink {state : WalkState} :
    Asks ans (verifyLink verifier state).run query ↔
      ∃ payload claims, state.current.payload = some payload ∧
        verifier.codec.claims payload = .ok claims ∧ claims.tokenId ∉ state.seen ∧
        Grammatical claims ∧
        verifier.identity.Vouches { token := state.current, payload, claims } ∧
        ∃ before entry after, verifier.entriesFor claims.tokenId = before ++ entry :: after ∧
          (∀ e ∈ before,
            Settles ans (revocationEntryGrantsRevoke verifier e claims) (.ok false)) ∧
          verifier.Defers entry claims query := by
  rw [verifyLink]
  simp only [asks_run_bind, asks_run_orRefuseWith, asks_run_ensure, asks_run_await, asks_run_pure,
    asks_verifyEnvelope, asks_verifyWindows, asks_verifyLinks, asks_verifyConditions,
    asks_verifyChildLink, accepts_orRefuseWith, accepts_ensure, asks_findM?,
    asks_revocationEntryGrantsRevoke, decodeClaims_eq_ok_iff, false_or, and_false, exists_false,
    or_false, exists_const]
  constructor
  · grind [verifyEnvelope_accepts]
  · rintro ⟨payload, claims, hpayload, hclaims, hseen, hgrammar, hvouches, h⟩
    exact ⟨claims, ⟨payload, hpayload, hclaims⟩, hseen, (),
      (verifyEnvelope_accepts hpayload).2 ⟨hgrammar, hvouches⟩, h⟩

/-- Every question of the loop is about an entry against a token it has come to. -/
theorem reaches_of_asks_verifyLoop {bearer : Option DeviceId} {iterations : ℕ}
    {state : WalkState}
    (h : Asks ans (verifyLoop verifier bearer iterations state).run query) :
    ∃ l, verifier.codec.toDecoder.Reaches state.current l ∧
      ∃ entry ∈ verifier.entriesFor l.claims.tokenId, verifier.Defers entry l.claims query := by
  induction iterations generalizing state with
  | zero => cases h
  | succ iterations ih =>
    rw [verifyLoop, asks_run_bind] at h
    rcases h with hask | ⟨claims, haccepts, h⟩
    -- the question is about the token itself
    · obtain ⟨payload, claims, hpayload, hclaims, -, -, -, before, entry, after, hentries, -,
        hdefers⟩ := asks_verifyLink.1 hask
      exact ⟨{ token := state.current, payload, claims },
        .of_reads ⟨rfl, hpayload, toDecoder_claims.2 hclaims⟩, entry, by simp [hentries], hdefers⟩
    -- the question is about one above it
    · obtain ⟨payload, hpayload, hclaims, -⟩ := verifyLink_accepts.1 haccepts
      split at h
      next kind bytes hup =>
        simp only [asks_run_bind, asks_run_orRefuseWith, accepts_orRefuseWith, false_or] at h
        obtain ⟨upper, hupper, h⟩ := h
        obtain ⟨l, hl, hentry⟩ := ih h
        have habove : verifier.codec.toDecoder.Above state.current upper :=
          ⟨{ token := state.current, payload, claims }, kind, bytes,
            ⟨rfl, hpayload, toDecoder_claims.2 hclaims⟩, hup, toDecoder_token.2 hupper⟩
        exact ⟨l, .of_above habove hl, hentry⟩
      · grind [asks_run_bind, asks_run_ensure, asks_run_pure]

theorem cites_of_calls {query' : Query}
    (h : Calls (verifyCapabilityToken verifier) query query') : verifier.Cites query query' :=
  reaches_of_asks_verifyLoop h

/-- The queries about the authorizations of the entries in a view. -/
def Verifier.citations (verifier : Verifier) (view : RevocationView) : List Query :=
  view.entries.values.filterMap fun entry =>
    (entry.authorization.bind verifier.codec.toDecoder.token).map fun authorization =>
      { token := authorization, expectedBearer := none }

theorem mem_citations_of_cites {view : RevocationView} {query' : Query}
    (h : (verifier.consulting view).Cites query query') : query' ∈ verifier.citations view := by
  obtain ⟨l, -, entry, hentry, -, bytes, hbytes, authorization, htoken, rfl⟩ := h
  replace hbytes : entry.authorization = some bytes := hbytes
  replace htoken : verifier.codec.toDecoder.token bytes = some authorization :=
    toDecoder_token.2 htoken
  exact List.mem_filterMap.2 ⟨entry, Buckets.mem_values_of_mem_bucket hentry,
    by simp [hbytes, htoken]⟩

theorem terminates_iff {view : RevocationView} :
    Terminates (verifyCapabilityToken (verifier.consulting view)) query ↔
      ∀ q, ReflTransGen (Calls (verifyCapabilityToken (verifier.consulting view))) query q →
        ¬TransGen (Calls (verifyCapabilityToken (verifier.consulting view))) q q :=
  terminates_iff_acyclic (finite_reflTransGen fun _ _ h =>
    mem_citations_of_cites (cites_of_calls h))

/-- A token whose envelope is in order comes to the first of its entries. -/
theorem calls_of_first_entry {query' : Query} {l : Link} {entry : RevocationClaims}
    {entries : List RevocationClaims} (hreads : verifier.codec.toDecoder.Reads query.token l)
    (hgrammar : Grammatical l.claims) (hvouches : verifier.identity.Vouches l)
    (hentries : verifier.entriesFor l.claims.tokenId = entry :: entries)
    (hdefers : verifier.Defers entry l.claims query') :
    Calls (verifyCapabilityToken verifier) query query' := by
  obtain ⟨token, payload, claims⟩ := l
  obtain rfl : token = query.token := hreads.token_eq
  have hclaims : verifier.codec.claims payload = .ok claims :=
    toDecoder_claims.1 hreads.claims_eq
  exact asks_run_bind.2 (.inl (asks_verifyLink.2 ⟨payload, claims, hreads.payload_eq, hclaims,
    by simp [WalkState.start], hgrammar, hvouches, [], entry, entries, hentries, by simp,
    hdefers⟩))

end

end Rust

/-! ## An authority that revokes itself -/

namespace Sample

/-- An authority over files to revoke, from device 1 to device 2. -/
def authority : TokenClaims := .sample [1] 1 2 "manage:revoke"

/-- Device 2 revokes that authority, by virtue of it. -/
def selfRevocation : RevocationClaims :=
  .sample [1] 2 1000 (some (Link.sample 1 authority).token.encode)

/-- A token for files, which it may be used to revoke. -/
def revocable : TokenClaims := { TokenClaims.sample [2] 1 3 "fs:read" with notBefore := some 0 }

def revocables : List Link := [.sample 1 authority, .sample 1 revocable]

def revokeOptions : TypeScript.VerifyOptions := .sample revocables []

def revokeVerifier : Rust.Verifier := .sample revocables []

theorem revocables_claims_ne :
    (revocables.map Link.claims).Pairwise fun a b => a.encode ≠ b.encode := by
  decide +kernel

theorem revocables_tokens_ne :
    (revocables.map Link.token).Pairwise fun a b => a.encode ≠ b.encode := by
  decide +kernel

theorem authority_mem : Link.sample 1 authority ∈ revocables := List.mem_cons_self

theorem revocable_mem : Link.sample 1 revocable ∈ revocables := List.mem_cons_of_mem _ (by simp)

theorem revokeOptions_reads {claims : TokenClaims} (h : .sample 1 claims ∈ revocables) :
    revokeOptions.codec.toDecoder.Reads (Link.sample 1 claims).token (.sample 1 claims) ∧
      revokeOptions.codec.token (Link.sample 1 claims).token.encode =
        some (Link.sample 1 claims).token :=
  TypeScript.Codec.among_reads revocables_claims_ne revocables_tokens_ne h

theorem revokeVerifier_reads {claims : TokenClaims} (h : .sample 1 claims ∈ revocables) :
    revokeVerifier.codec.toDecoder.Reads (Link.sample 1 claims).token (.sample 1 claims) ∧
      revokeVerifier.codec.toDecoder.token (Link.sample 1 claims).token.encode =
        some (Link.sample 1 claims).token :=
  Rust.Codec.among_reads revocables_claims_ne revocables_tokens_ne h

/-- Device 2 revokes another token by virtue of the authority. -/
def otherRevocation : RevocationClaims :=
  .sample [2] 2 1000 (some (Link.sample 1 authority).token.encode)

theorem mem_options_entriesFor {claims entry : RevocationClaims} (hby : claims.IsBy 2)
    {tokenId : Bytes}
    (h : entry ∈ (revokeOptions.consulting (.sample 2 [claims])).entriesFor tokenId) :
    entry = claims ∧ claims.tokenId = tokenId := by
  grind [TypeScript.VerifyOptions.consulting_entriesFor,
    TypeScript.RevocationView.sample_entriesFor]

theorem mem_verifier_entriesFor {claims entry : RevocationClaims} (hby : claims.IsBy 2)
    {tokenId : Bytes}
    (h : entry ∈ (revokeVerifier.consulting (.sample 2 [claims])).entriesFor tokenId) :
    entry = claims ∧ claims.tokenId = tokenId := by
  rw [Rust.Verifier.consulting_entriesFor,
    Rust.RevocationView.sample_entriesFor (List.pairwise_singleton _ _)
      (List.forall_mem_singleton.2 hby)] at h
  have hmem := (LatestOf.nil.foldl _).mem_log entry h
  grind

/-- The authority is all that is cited, and nothing is recorded against it. -/
theorem revokeOptions_acyclic (query : TypeScript.Query) :
    ¬TransGen (revokeOptions.consulting (.sample 2 [otherRevocation])).Cites query query := by
  refine acyclic_of_last
    (l := .mk (Link.sample 1 authority).token (some otherRevocation.issuer)) ?_ ?_ query
  · rintro q q' ⟨l, -, entry, hentry, -, bytes, hbytes, authorization, htoken, rfl⟩
    obtain ⟨rfl, -⟩ := mem_options_entriesFor ⟨rfl, rfl⟩ hentry
    cases hbytes
    rw [Option.some.inj (htoken.symm.trans (revokeOptions_reads authority_mem).2)]
  · rintro q ⟨l, hl, entry, hentry, -⟩
    rw [hl.eq_of_root (revokeOptions_reads authority_mem).1 rfl] at hentry
    exact absurd (mem_options_entriesFor ⟨rfl, rfl⟩ hentry).2 (by decide)

theorem revokeVerifier_acyclic (query : Rust.Query) :
    ¬TransGen (revokeVerifier.consulting (.sample 2 [otherRevocation])).Cites query query := by
  refine acyclic_of_last (l := .mk (Link.sample 1 authority).token none) ?_ ?_ query
  · rintro q q' ⟨l, -, entry, hentry, -, bytes, hbytes, authorization, htoken, rfl⟩
    obtain ⟨rfl, -⟩ := mem_verifier_entriesFor ⟨rfl, rfl⟩ hentry
    cases hbytes
    have hauthority := (revokeVerifier_reads authority_mem).2
    rw [Option.some.inj ((Rust.toDecoder_token.2 htoken).symm.trans hauthority)]
  · rintro q ⟨l, hl, entry, hentry, -⟩
    rw [hl.eq_of_root (revokeVerifier_reads authority_mem).1 rfl] at hentry
    exact absurd (mem_verifier_entriesFor ⟨rfl, rfl⟩ hentry).2 (by decide)

end Sample

/-- The verification of an authority to revoke does not end when its bearer has revoked it
    by virtue of it, in an entry that the view itself verified. -/
theorem verify_diverges :
    (TypeScript.verifyRevocationEntry (.sample [Sample.selfRevocation])
        (.sample 2 Sample.selfRevocation) = .ok (.ok Sample.selfRevocation) ∧
      ¬Terminates (TypeScript.verifyCapabilityToken
          (Sample.revokeOptions.consulting (.sample 2 [Sample.selfRevocation])))
        { token := (Link.sample 1 Sample.authority).token, expectedBearer := none }) ∧
    (Rust.verifyEntry (.sample [Sample.selfRevocation])
        (.sample 2 Sample.selfRevocation) = .ok Sample.selfRevocation ∧
      ¬Terminates (Rust.verifyCapabilityToken
          (Sample.revokeVerifier.consulting (.sample 2 [Sample.selfRevocation])))
        { token := (Link.sample 1 Sample.authority).token, expectedBearer := none }) := by
  have hvouches : (Identity.sample 4).Vouches (.sample 1 Sample.authority) :=
    Identity.sample_vouches rfl rfl
  have hne : Sample.selfRevocation.issuer ≠ Sample.authority.issuer := by decide
  have hby : ∀ c ∈ [Sample.selfRevocation], c.IsBy 2 := List.forall_mem_singleton.2 ⟨rfl, rfl⟩
  have hknown := List.pairwise_singleton (fun a b : RevocationClaims => a.encode ≠ b.encode)
    Sample.selfRevocation
  obtain ⟨hreads, htoken⟩ := Sample.revokeOptions_reads Sample.authority_mem
  obtain ⟨hreads', htoken'⟩ := Sample.revokeVerifier_reads Sample.authority_mem
  refine ⟨⟨?_, ?_⟩, ?_, ?_⟩
  · exact TypeScript.verifyRevocationEntry_sample hknown (List.mem_singleton_self _) ⟨rfl, rfl⟩
  · have hcalls : ∀ bearer, Calls (TypeScript.verifyCapabilityToken
        (Sample.revokeOptions.consulting (.sample 2 [Sample.selfRevocation])))
        { token := (Link.sample 1 Sample.authority).token, expectedBearer := bearer }
        { token := (Link.sample 1 Sample.authority).token,
          expectedBearer := some Sample.selfRevocation.issuer } := fun bearer =>
      TypeScript.calls_of_first_entry hreads hvouches (by decide)
        (TypeScript.VerifyOptions.consulting_entriesFor.trans
          (TypeScript.RevocationView.sample_entriesFor hknown hby))
        ⟨hne, _, rfl, _, htoken, rfl⟩
    -- The first query names no bearer, the ones it leads to name device 2.
    exact not_terminates_of_cycle (.single (hcalls none)) (.single (hcalls _))
  · exact Rust.verifyEntry_sample hknown (List.mem_singleton_self _) ⟨rfl, rfl⟩
  · have hcalls : Calls (Rust.verifyCapabilityToken
        (Sample.revokeVerifier.consulting (.sample 2 [Sample.selfRevocation])))
        { token := (Link.sample 1 Sample.authority).token, expectedBearer := none }
        { token := (Link.sample 1 Sample.authority).token, expectedBearer := none } :=
      Rust.calls_of_first_entry hreads'
        ⟨by decide, by decide, by decide⟩ hvouches
        (Rust.Verifier.consulting_entriesFor.trans
          (Rust.RevocationView.sample_entriesFor hknown hby))
        ⟨hne, _, rfl, _, Rust.toDecoder_token.1 htoken', rfl⟩
    exact not_terminates_of_cycle .refl (.single hcalls)

/-- The verification of a token ends, whatever the view, iff it does not come to the
    verification of an authorization that comes back to itself. It ends when, among the
    authorizations of the entries against the chains, none leads back to itself. -/
theorem verify_terminates_iff (options : TypeScript.VerifyOptions)
    (view : TypeScript.RevocationView) (query : TypeScript.Query) (verifier : Rust.Verifier)
    (view' : Rust.RevocationView) (query' : Rust.Query) :
    (let verify := TypeScript.verifyCapabilityToken (options.consulting view)
      let cites := (options.consulting view).Cites
      (Terminates verify query ↔
        ∀ q, ReflTransGen (Calls verify) query q → ¬TransGen (Calls verify) q q) ∧
      ((∀ q, ReflTransGen cites query q → ¬TransGen cites q q) → Terminates verify query)) ∧
    (let verify := Rust.verifyCapabilityToken (verifier.consulting view')
      let cites := (verifier.consulting view').Cites
      (Terminates verify query' ↔
        ∀ q, ReflTransGen (Calls verify) query' q → ¬TransGen (Calls verify) q q) ∧
      ((∀ q, ReflTransGen cites query' q → ¬TransGen cites q q) → Terminates verify query')) := by
  refine ⟨⟨TypeScript.terminates_iff, fun h => ?_⟩, Rust.terminates_iff, fun h => ?_⟩
  · exact TypeScript.terminates_iff.2 (acyclic_mono (fun _ _ => TypeScript.cites_of_calls) h)
  · exact Rust.terminates_iff.2 (acyclic_mono (fun _ _ => Rust.cites_of_calls) h)

theorem verify_terminates_iff_sample :
    Terminates (TypeScript.verifyCapabilityToken
        (Sample.revokeOptions.consulting (.sample 2 [Sample.otherRevocation])))
      { token := (Link.sample 1 Sample.revocable).token, expectedBearer := none } ∧
    Terminates (Rust.verifyCapabilityToken
        (Sample.revokeVerifier.consulting (.sample 2 [Sample.otherRevocation])))
      { token := (Link.sample 1 Sample.revocable).token, expectedBearer := none } :=
  (verify_terminates_iff _ _ _ _ _ _).imp (fun h => h.2 fun q _ => Sample.revokeOptions_acyclic q)
    fun h => h.2 fun q _ => Sample.revokeVerifier_acyclic q

end WireMesh
