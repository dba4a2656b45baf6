import WireMesh.Async.Agreement
import WireMesh.Permanence
import WireMesh.Termination

/-!
# Views that revoke on the same authority

A verifier sweeps the entries against a token in the order in which its view
has them, and stops at the first that revokes it. The order matters only for
whether the sweep comes to an end: two views whose entries revoke on the same
authority give the same verdicts, when they give any
(`TypeScript.returns_eq_of_sameAuthority`, `Rust.returns_eq_of_sameAuthority`).
-/

namespace WireMesh

open Async

/-! ## In TypeScript -/

namespace TypeScript

variable {options : VerifyOptions} {entriesFor : Bytes → List RevocationClaims}
  {ans ans' : Query → Except String TokenVerdict → Prop}

/-- Nothing but its issuer and its authorization makes an entry revoke a token. -/
theorem revocationEntryGrantsRevoke_congr {e e' : RevocationClaims} {target : TokenClaims}
    (hissuer : e'.issuer = e.issuer) (hauthorization : e'.authorization = e.authorization) :
    revocationEntryGrantsRevoke { options with entriesFor } e' target =
      revocationEntryGrantsRevoke options e target := by
  rw [revocationEntryGrantsRevoke, revocationEntryGrantsRevoke, hissuer, hauthorization]

theorem agrees_verifyLink (hans : ∀ q a b, ans q (.ok a) → ans' q (.ok b) → a = b)
    (hsame : ∀ tokenId, SameAuthority (options.entriesFor tokenId) (entriesFor tokenId))
    {token : CapabilityToken} {payload : Bytes} {subject : Option GrantSubject} :
    Agrees ans ans' (verifyLink options token payload subject).run
      (verifyLink { options with entriesFor } token payload subject).run := by
  rw [verifyLink, verifyLink]
  refine .bind_run (agrees_self hans _) fun claims => ?_
  refine .bind_run (agrees_self hans _) fun _ => ?_
  refine .bind_run (agrees_self hans _) fun _ => ?_
  refine .bind_run (agrees_self hans _) fun _ => ?_
  refine .bind_run (agrees_self hans _) fun _ => ?_
  refine .bind_run (agrees_self hans _) fun _ => ?_
  refine .bind_run (agrees_self hans _) fun _ => ?_
  -- The checks before the sweep do not look at the view.
  obtain ⟨hcovered, hcovered'⟩ := hsame claims.tokenId
  refine agrees_ensure_findM?_none (fun _ _ => findM?_eq_none_iff (fun e he => ?_)
    fun e' he' => ?_) (agrees_self hans _)
  · obtain ⟨e', he', hissuer, hauthorization⟩ := hcovered e he
    grind [revocationEntryGrantsRevoke_congr, agrees_self]
  · obtain ⟨e, he, hissuer, hauthorization⟩ := hcovered' e' he'
    grind [revocationEntryGrantsRevoke_congr, agrees_self]

theorem agrees_verifyTokenChain (hans : ∀ q a b, ans q (.ok a) → ans' q (.ok b) → a = b)
    (hsame : ∀ tokenId, SameAuthority (options.entriesFor tokenId) (entriesFor tokenId))
    {hops : ℕ} {token : CapabilityToken} {subject : Option GrantSubject} {seen : List String} :
    Agrees ans ans' (verifyTokenChain options hops token subject seen).run
      (verifyTokenChain { options with entriesFor } hops token subject seen).run := by
  induction hops generalizing token subject seen with
  | zero => exact agrees_self hans _
  | succ hops ih =>
    rw [verifyTokenChain, verifyTokenChain, verifyStep, verifyStep]
    refine .bind_run (agrees_self hans _) fun payload => ?_
    refine .bind_run (agrees_self hans _) fun _ => ?_
    refine .bind_run (agrees_verifyLink hans hsame) fun claims => ?_
    rcases claims.upward with _ | ⟨_ | _, bytes⟩
    · exact agrees_self hans _
    · grind [Agrees.bind_run, agrees_self, Agrees.adapt]
    · grind [Agrees.bind_run, agrees_self, Agrees.adapt]

/-- Entries that revoke on the same authority give the same verdicts, if they give any. -/
theorem returns_eq_of_sameAuthority
    (hsame : ∀ tokenId, SameAuthority (options.entriesFor tokenId) (entriesFor tokenId))
    {query : Query} {verdict verdict' : TokenVerdict} (h : options.Returns query verdict)
    (h' : VerifyOptions.Returns { options with entriesFor } query verdict') :
    verdict = verdict' :=
  agrees_returns (fun _ _ hans _ => .bind_run (agrees_verifyTokenChain hans hsame) fun _ =>
    agrees_self hans _) h h'

end TypeScript

/-! ## In Rust -/

namespace Rust

variable {verifier : Verifier} {entriesFor : Bytes → List RevocationClaims}
  {ans ans' : Query → Except Empty TokenVerdict → Prop}

/-- Nothing but its issuer and its authorization makes an entry revoke a token. -/
theorem revocationEntryGrantsRevoke_congr {e e' : RevocationClaims} {target : TokenClaims}
    (hissuer : e'.issuer = e.issuer) (hauthorization : e'.authorization = e.authorization) :
    revocationEntryGrantsRevoke { verifier with entriesFor } e' target =
      revocationEntryGrantsRevoke verifier e target := by
  rw [revocationEntryGrantsRevoke, revocationEntryGrantsRevoke, hissuer, hauthorization]

/-- The sweeps of the entries against a token find an entry that revokes it, or both find
    none. -/
def Verifier.SweepsAgree (ans ans' : Query → Except Empty TokenVerdict → Prop)
    (verifier : Verifier) (entriesFor : Bytes → List RevocationClaims) (claims : TokenClaims) :
    Prop :=
  ∀ found found', Settles ans ((verifier.entriesFor claims.tokenId).findM? fun entry =>
      revocationEntryGrantsRevoke verifier entry claims) (.ok found) →
    Settles ans' ((entriesFor claims.tokenId).findM? fun entry =>
      revocationEntryGrantsRevoke { verifier with entriesFor } entry claims) (.ok found') →
    (found = none ↔ found' = none)

theorem sweepsAgree_of_sameAuthority (hans : ∀ q a b, ans q (.ok a) → ans' q (.ok b) → a = b)
    {claims : TokenClaims}
    (hsame : SameAuthority (verifier.entriesFor claims.tokenId) (entriesFor claims.tokenId)) :
    verifier.SweepsAgree ans ans' entriesFor claims := by
  obtain ⟨hcovered, hcovered'⟩ := hsame
  refine fun _ _ => findM?_eq_none_iff (fun e he => ?_) fun e' he' => ?_
  · obtain ⟨e', he', hissuer, hauthorization⟩ := hcovered e he
    grind [revocationEntryGrantsRevoke_congr, agrees_self]
  · obtain ⟨e, he, hissuer, hauthorization⟩ := hcovered' e' he'
    grind [revocationEntryGrantsRevoke_congr, agrees_self]

theorem agrees_verifyLink (hans : ∀ q a b, ans q (.ok a) → ans' q (.ok b) → a = b)
    (hsweeps : ∀ claims, verifier.SweepsAgree ans ans' entriesFor claims) {state : WalkState} :
    Agrees ans ans' (verifyLink verifier state).run
      (verifyLink { verifier with entriesFor } state).run := by
  rw [verifyLink, verifyLink]
  refine .bind_run (agrees_self hans _) fun claims => ?_
  refine .bind_run (agrees_self hans _) fun _ => ?_
  refine .bind_run (agrees_self hans _) fun _ => ?_
  exact agrees_ensure_findM?_none (hsweeps claims) (agrees_self hans _)

theorem agrees_verifyCapabilityToken (hans : ∀ q a b, ans q (.ok a) → ans' q (.ok b) → a = b)
    (hsweeps : ∀ claims, verifier.SweepsAgree ans ans' entriesFor claims) (query : Query) :
    Agrees ans ans' (verifyCapabilityToken verifier query)
      (verifyCapabilityToken { verifier with entriesFor } query) := by
  suffices hloop : ∀ iterations state,
      Agrees ans ans' (verifyLoop verifier query.expectedBearer iterations state).run
        (verifyLoop { verifier with entriesFor } query.expectedBearer iterations state).run from
    hloop _ _
  intro iterations
  induction iterations with
  | zero => exact fun state => agrees_self hans _
  | succ iterations ih =>
    intro state
    rw [verifyLoop, verifyLoop]
    refine .bind_run (agrees_verifyLink hans hsweeps) fun claims => ?_
    rcases claims.upward with _ | ⟨kind, bytes⟩
    · exact agrees_self hans _
    · exact .bind_run (agrees_self hans _) fun next => ih _

/-- Entries that revoke on the same authority give the same verdicts, if they give any. -/
theorem returns_eq_of_sameAuthority
    (hsame : ∀ tokenId, SameAuthority (verifier.entriesFor tokenId) (entriesFor tokenId))
    {query : Query} {verdict verdict' : TokenVerdict} (h : verifier.Returns query verdict)
    (h' : Verifier.Returns { verifier with entriesFor } query verdict') : verdict = verdict' :=
  agrees_returns (fun _ _ hans => agrees_verifyCapabilityToken hans fun claims =>
    sweepsAgree_of_sameAuthority hans (hsame claims.tokenId)) h h'

/-! ### The latest entries -/

/-- Among what the entries claim, these claims are the latest of their issuer about their
    token. -/
def EntryVerifier.Latest (entryVerifier : EntryVerifier) (entries : List RevocationEntry)
    (claims : RevocationClaims) : Prop :=
  (∃ entry ∈ entries, verifyEntry entryVerifier entry = .ok claims) ∧
    ∀ entry ∈ entries, ∀ c, verifyEntry entryVerifier entry = .ok c →
      c.tokenId = claims.tokenId → c.issuer = claims.issuer → c.revokedAt ≤ claims.revokedAt

variable {entryVerifier : EntryVerifier} {entries entries' : List RevocationEntry}

theorem RevocationView.mem_claimsAbout_iff {tokenId : Bytes} {claims : RevocationClaims} :
    claims ∈ claimsAbout (admitted entryVerifier) tokenId entries ↔ claims.tokenId = tokenId ∧
      ∃ entry ∈ entries, verifyEntry entryVerifier entry = .ok claims := by
  simp only [mem_claimsAbout, admitted_eq_some_iff, verifyEntry_eq_ok_iff]

/-- A view holds the latest claims. -/
theorem RevocationView.latest_of_mem {tokenId : Bytes} {e : RevocationClaims}
    (h : e ∈ (insertAll entryVerifier .new entries).entriesFor tokenId) :
    e.tokenId = tokenId ∧ entryVerifier.Latest entries e := by
  obtain ⟨hid, hentry⟩ := mem_claimsAbout_iff.1 (latestOf_entriesFor.mem_log e h)
  refine ⟨hid, hentry, fun entry hmem c hc hcid hissuer => ?_⟩
  exact latestOf_entriesFor.stamp_le h
    (mem_claimsAbout_iff.2 ⟨hcid.trans hid, entry, hmem, hc⟩) hissuer

/-- Views of the same entries, admitted in any order, revoke on the same authority if the
    latest claims of each issuer about each token do. -/
theorem RevocationView.covered_of_subset (hsub : ∀ entry, entry ∈ entries ↔ entry ∈ entries')
    (hlatest : ∀ a b, entryVerifier.Latest entries a → entryVerifier.Latest entries b →
      a.tokenId = b.tokenId → a.issuer = b.issuer → a.authorization = b.authorization)
    {tokenId : Bytes} :
    Covered ((insertAll entryVerifier .new entries).entriesFor tokenId)
      ((insertAll entryVerifier .new entries').entriesFor tokenId) := by
  intro e he
  obtain ⟨hid, hl⟩ := latest_of_mem he
  obtain ⟨entry, hentry, hclaims⟩ := hl.1
  obtain ⟨e', he', hissuer, -⟩ := latestOf_entriesFor.covers e
    (mem_claimsAbout_iff.2 ⟨hid, entry, (hsub entry).1 hentry, hclaims⟩)
  obtain ⟨hid', hl'⟩ := latest_of_mem he'
  grind [EntryVerifier.Latest]

/-! ### What revokes a token -/

/-- The entry is recorded against the token and revokes it. -/
def Verifier.Revokes (verifier : Verifier) (entry : RevocationClaims) (claims : TokenClaims) :
    Prop :=
  entry ∈ verifier.entriesFor claims.tokenId ∧
    Settles (Async.Returns (verifyCapabilityToken verifier))
      (revocationEntryGrantsRevoke verifier entry claims) (.ok true)

/-- The entry is recorded against the token, and it is not found that it does not revoke
    it. -/
def Verifier.Doubts (verifier : Verifier) (entry : RevocationClaims) (claims : TokenClaims) :
    Prop :=
  entry ∈ verifier.entriesFor claims.tokenId ∧
    ¬Settles (Async.Returns (verifyCapabilityToken verifier))
      (revocationEntryGrantsRevoke verifier entry claims) (.ok false)

/-- An entry revokes by virtue of an authority that the verifier accepts. -/
theorem grants_of_authority {entry : RevocationClaims} {target : TokenClaims} {bytes : Bytes}
    {authorization : CapabilityToken} {valid : TokenValid}
    (hbytes : entry.authorization = some bytes)
    (htoken : verifier.codec.token bytes = .ok authorization)
    (hvalid : verifier.Returns { token := authorization, expectedBearer := none } (.ok valid))
    (hbearer : valid.claims.bearer = entry.issuer)
    (hcapability : valid.claims.capability = manageRevoke)
    (hscope : CapabilityScope.isWithin target.scope valid.claims.scope) :
    Settles (Returns (verifyCapabilityToken verifier))
      (revocationEntryGrantsRevoke verifier entry target) (.ok true) := by
  rw [revocationEntryGrantsRevoke, hbytes]
  by_cases hissuer : entry.issuer = target.issuer
  · rw [if_pos hissuer, settles_pure]
  · simp only [if_neg hissuer, htoken, settles_bind_ok, settles_ask]
    exact ⟨_, hvalid, by simp [hbearer, hcapability, hscope]⟩

/-- No token is accepted below one that is in doubt. -/
theorem Verifier.Doubts.not_returns {entry : RevocationClaims} {l : Link}
    (h : verifier.Doubts entry l.claims) {query : Query} {links : List Link}
    (hchain : ChainOf verifier.codec.toDecoder query.token links) (hl : l ∈ links)
    {v : TokenValid} : ¬verifier.Returns query (.ok v) := by
  intro hv
  obtain ⟨leaf, above, hchain', hacc, -⟩ := exists_accepted hv
  rw [hchain.unique hchain'] at hl
  exact h.2 ((hacc.admits l hl).unrevoked entry h.1)

/-- The first link of a walk, when it is in doubt, can be refused only as revoked. -/
theorem Verifier.Doubts.eq_revoked_of_refuses {entry : RevocationClaims} {l : Link}
    (h : verifier.Doubts entry l.claims) {token : CapabilityToken}
    (hreads : verifier.codec.toDecoder.Reads token l) (hgrammar : Grammatical l.claims)
    (hvouches : verifier.identity.Vouches l) {r : TokenRejection}
    (hrefuses : Refuses (Async.Returns (verifyCapabilityToken verifier))
      (verifyLink verifier (.start token)) r) : r = .revoked l.claims.tokenId := by
  obtain ⟨token', payload, claims⟩ := l
  obtain rfl : token' = token := hreads.token_eq
  have hdecode : decodeClaims verifier token' = .ok claims := decodeClaims_eq_ok_iff.2
    ⟨payload, hreads.payload_eq, toDecoder_claims.1 hreads.claims_eq⟩
  have henvelope : Accepts (Async.Returns (verifyCapabilityToken verifier))
      (verifyEnvelope verifier token' claims) () :=
    (verifyEnvelope_accepts hreads.payload_eq).2 ⟨hgrammar, hvouches⟩
  -- Neither the decoding nor the checks before the sweep refuse, so that the sweep does.
  rcases refuses_bind.1 hrefuses with hdecoded | ⟨c, hc, hrefuses⟩
  · obtain ⟨d, hd, -⟩ := refuses_orRefuseWith.1 hdecoded
    cases hdecode.symm.trans hd
  obtain rfl : claims = c := Except.ok.inj (hdecode.symm.trans (accepts_orRefuseWith.1 hc))
  rcases refuses_bind.1 hrefuses with hseen | ⟨_, -, hrefuses⟩
  · exact absurd (List.not_mem_nil) (refuses_ensure.1 hseen).1
  rcases refuses_bind.1 hrefuses with henvelope' | ⟨_, -, hrefuses⟩
  · cases henvelope.unique henvelope' fun _ _ _ => Returns.unique
  rcases refuses_bind.1 hrefuses with hsweep | ⟨found, hfound, hrefuses⟩
  · exact absurd hsweep refuses_await
  rcases refuses_bind.1 hrefuses with hrevoked | ⟨_, hnone, -⟩
  · exact (refuses_ensure.1 hrevoked).2
  · obtain rfl := accepts_ensure.1 hnone
    exact absurd (settles_findM?_none.1 (accepts_await.1 hfound) entry h.1) h.2

/-- A token whose envelope is in order, and that is in doubt, is rejected as revoked if it
    gets a verdict. -/
theorem Verifier.Doubts.eq_revoked {entry : RevocationClaims} {l : Link}
    (h : verifier.Doubts entry l.claims) {query : Query}
    (hreads : verifier.codec.toDecoder.Reads query.token l) (hgrammar : Grammatical l.claims)
    (hvouches : verifier.identity.Vouches l) {verdict : TokenVerdict}
    (hverdict : verifier.Returns query verdict) :
    verdict = .error (.revoked l.claims.tokenId) := by
  rcases verdict with r | v
  · rcases refuses_bind.1 (returns_iff.1 hverdict) with hrefuses | ⟨claims, haccepts, -⟩
    · exact congrArg Except.error (h.eq_revoked_of_refuses hreads hgrammar hvouches hrefuses)
    · obtain ⟨payload, hpayload, hclaims, -, hadmits, -⟩ := verifyLink_accepts.1 haccepts
      have hreads' : verifier.codec.toDecoder.Reads query.token
          { token := query.token, payload, claims } :=
        ⟨rfl, hpayload, toDecoder_claims.2 hclaims⟩
      obtain rfl := hreads.unique hreads'
      exact absurd (hadmits.unrevoked entry h.1) h.2
  · obtain ⟨leaf, above, hchain, hacc, -⟩ := exists_accepted hverdict
    obtain rfl := hreads.unique hchain.reads
    exact absurd ((hacc.admits l List.mem_cons_self).unrevoked entry h.1) h.2

/-- A token whose envelope is in order and that the first entry revokes is rejected as
    revoked. -/
theorem returns_revoked {query : Query} {l : Link}
    (hreads : verifier.codec.toDecoder.Reads query.token l) (hgrammar : Grammatical l.claims)
    (hvouches : verifier.identity.Vouches l) {entry : RevocationClaims}
    {entries : List RevocationClaims}
    (hentries : verifier.entriesFor l.claims.tokenId = entry :: entries)
    (hgrants : Settles (Returns (verifyCapabilityToken verifier))
      (revocationEntryGrantsRevoke verifier entry l.claims) (.ok true)) :
    verifier.Returns query (.error (.revoked l.claims.tokenId)) := by
  obtain ⟨token, payload, claims⟩ := l
  obtain rfl : token = query.token := hreads.token_eq
  refine returns_iff.2 (refuses_bind.2 (.inl ?_))
  refine refuses_bind.2 (.inr ⟨claims, accepts_orRefuseWith.2 (decodeClaims_eq_ok_iff.2
    ⟨payload, hreads.payload_eq, toDecoder_claims.1 hreads.claims_eq⟩), ?_⟩)
  refine refuses_bind.2 (.inr ⟨(), accepts_ensure.2 (by simp [WalkState.start]), ?_⟩)
  refine refuses_bind.2 (.inr ⟨(), (verifyEnvelope_accepts hreads.payload_eq).2
    ⟨hgrammar, hvouches⟩, ?_⟩)
  refine refuses_bind.2 (.inr ⟨some entry, accepts_await.2 ?_, ?_⟩)
  · rw [hentries]
    refine .findM?_head ?_
    exact hgrants
  · exact refuses_bind.2 (.inl (refuses_ensure.2 ⟨Option.some_ne_none _, rfl⟩))

/-! ### Admitting a further entry -/

/-- An entry with an authorization is not cleared while its authorization has no verdict. -/
theorem not_settles_false_of_unanswered {entry : RevocationClaims} {target : TokenClaims}
    {bytes : Bytes} {authorization : CapabilityToken}
    (hbytes : entry.authorization = some bytes)
    (htoken : verifier.codec.token bytes = .ok authorization)
    (hans : ∀ x, ¬ans { token := authorization, expectedBearer := none } x) :
    ¬Settles ans (revocationEntryGrantsRevoke verifier entry target) (.ok false) := by
  rw [revocationEntryGrantsRevoke, hbytes]
  by_cases hissuer : entry.issuer = target.issuer
  · simp [hissuer]
  · grind [settles_bind_ok, settles_ask]

/-- The verdict on the authorization of an entry against a token does not depend on what
    else is recorded against that token. -/
theorem authorization_verdict_eq {tokenId bytes : Bytes} {e e' : RevocationClaims}
    (he : e ∈ verifier.entriesFor tokenId) (he' : e' ∈ entriesFor tokenId)
    (hbytes : e.authorization = some bytes) (hbytes' : e'.authorization = some bytes)
    (hother : ∀ id, id ≠ tokenId → entriesFor id = verifier.entriesFor id)
    {authorization : CapabilityToken} (htoken : verifier.codec.token bytes = .ok authorization)
    {verdict verdict' : TokenVerdict}
    (h : verifier.Returns { token := authorization, expectedBearer := none } verdict)
    (h' : Verifier.Returns { verifier with entriesFor }
      { token := authorization, expectedBearer := none } verdict') : verdict = verdict' := by
  refine agrees_returns_at (fun ans ans' hans hno hno' =>
    agrees_verifyCapabilityToken hans fun claims => ?_) h h'
  by_cases hid : claims.tokenId = tokenId
  -- A sweep of the entries against that token would come back to the authorization.
  · rintro found found' hfound hfound'
    grind [not_settles_false_of_unanswered, settles_findM?_none]
  · refine sweepsAgree_of_sameAuthority hans ?_
    rw [hother _ hid]
    exact ⟨fun e he => ⟨e, he, rfl, rfl⟩, fun e he => ⟨e, he, rfl, rfl⟩⟩

/-- A token stays in doubt while an entry of the same issuer on the same authorization stays
    recorded against it, or any one of the issuer of the token. -/
theorem Verifier.Revokes.doubts {claims : TokenClaims} {e e' : RevocationClaims}
    (h : verifier.Revokes e claims) (he' : e' ∈ entriesFor claims.tokenId)
    (hissuer : e'.issuer = e.issuer)
    (hsame : e.issuer = claims.issuer ∨ e'.authorization = e.authorization)
    (hother : ∀ id, id ≠ claims.tokenId → entriesFor id = verifier.entriesFor id) :
    Doubts { verifier with entriesFor } e' claims := by
  refine ⟨he', fun hfalse => ?_⟩
  by_cases hown : e.issuer = claims.issuer
  · grind [revocationEntryGrantsRevoke, settles_pure]
  -- The entry of another device counts on its authorization, which has its verdict still.
  have hauthorization := hsame.resolve_left hown
  obtain ⟨he, hgrants⟩ := h
  rw [revocationEntryGrantsRevoke, if_neg hown] at hgrants
  rw [revocationEntryGrantsRevoke, if_neg (hissuer ▸ hown), hauthorization] at hfalse
  rcases hbytes : e.authorization with _ | bytes
  · simp [hbytes] at hgrants
  rcases htoken : verifier.codec.token bytes with d | authorization
  · simp [hbytes, htoken] at hgrants
  simp only [hbytes, htoken, settles_bind_ok, settles_ask] at hgrants hfalse
  obtain ⟨verdict, hverdict, hgrants⟩ := hgrants
  obtain ⟨verdict', hverdict', hfalse⟩ := hfalse
  obtain rfl := authorization_verdict_eq he he' hbytes (hauthorization.trans hbytes) hother htoken
    hverdict hverdict'
  grind [settles_pure]

variable {entry : RevocationEntry} {claims : RevocationClaims} {tokenId : Bytes}

theorem RevocationView.entriesFor_verifyAndInsert_of_ok {view : RevocationView}
    (hentry : verifyEntry entryVerifier entry = .ok claims) :
    (verifyAndInsert entryVerifier view entry).1.entriesFor tokenId =
      if claims.tokenId = tokenId then
        admitLatest RevocationClaims.issuer RevocationClaims.revokedAt (view.entriesFor tokenId)
          claims
      else view.entriesFor tokenId := by grind [verifyAndInsert, entriesFor_insert]

/-- An admission keeps the entry of an issuer, or puts its own claims in its place. -/
theorem RevocationView.exists_kept {e : RevocationClaims}
    (he : e ∈ (insertAll entryVerifier .new entries).entriesFor tokenId)
    (hentry : verifyEntry entryVerifier entry = .ok claims) (hid : claims.tokenId = tokenId) :
    ∃ e' ∈ (verifyAndInsert entryVerifier (insertAll entryVerifier .new entries)
        entry).1.entriesFor tokenId,
      e'.issuer = e.issuer ∧ (e' = e ∨ e' = claims ∧ e.revokedAt ≤ claims.revokedAt) := by
  rw [entriesFor_verifyAndInsert_of_ok hentry, if_pos hid]
  rcases mem_admitLatest_or latestOf_entriesFor.nodup (a := claims) he with
    ⟨hkept, -⟩ | ⟨hclaims, hissuer, hle⟩
  · exact ⟨e, hkept, rfl, .inl rfl⟩
  · exact ⟨claims, hclaims, hissuer.symm, .inr ⟨rfl, hle⟩⟩

end Rust

/-! ## A revocation that is withdrawn -/

namespace Sample

/-- Device 2 revokes the same token at the same time, without its authorization. -/
def bareRevocation : RevocationClaims := .sample [2] 2 1000 none

/-- Device 2 had revoked it before, without its authorization. -/
def olderRevocation : RevocationClaims := .sample [2] 2 900 none

def rivals : List RevocationClaims := [otherRevocation, bareRevocation, olderRevocation]

theorem rivals_ne : rivals.Pairwise fun a b => a.encode ≠ b.encode := by
  decide +kernel

theorem rivals_isBy : ∀ c ∈ rivals, c.IsBy 2 := by
  simp only [rivals, List.forall_mem_cons]
  exact ⟨⟨rfl, rfl⟩, ⟨rfl, rfl⟩, ⟨rfl, rfl⟩, by simp⟩

theorem verifyEntry_rivals {claims : RevocationClaims} (h : claims ∈ rivals) :
    Rust.verifyEntry (.sample rivals) (.sample 2 claims) = .ok claims :=
  Rust.verifyEntry_sample rivals_ne h (rivals_isBy claims h)

/-- The Rust view of entries of device 2, in the given order. -/
def viewOf (claims : List RevocationClaims) : Rust.RevocationView :=
  .insertAll (.sample rivals) .new (claims.map (.sample 2))

theorem viewOf_entriesFor {claims : List RevocationClaims} (h : ∀ c ∈ claims, c ∈ rivals)
    {tokenId : Bytes} :
    (viewOf claims).entriesFor tokenId =
      (claims.filter fun c => c.tokenId = tokenId).foldl
        (admitLatest RevocationClaims.issuer RevocationClaims.revokedAt) [] := by
  refine Rust.RevocationView.entriesFor_insertAll_sample rivals_ne h fun c hc => ?_
  exact rivals_isBy c (h c hc)

/-- The authority is accepted in a view without entries against it. -/
theorem authority_accepted {view : Rust.RevocationView} (h : view.entriesFor [1] = []) :
    (revokeVerifier.consulting view).Returns
      { token := (Link.sample 1 authority).token, expectedBearer := none }
      (.ok (.ofChain (.start (Link.sample 1 authority).token) (.sample 1 authority) [])) := by
  refine Rust.returns_of_root (revokeVerifier_reads authority_mem).1 rfl ?_ ?_ (by simp)
  · exact Rust.admits_sample rfl rfl rfl (by decide) (by decide)
      (show authority.CurrentAt 1000 by decide) h (by decide)
  · exact Rust.holds_of_no_conditions rfl

theorem revocable_revoked {view : Rust.RevocationView} (hauthority : view.entriesFor [1] = [])
    (h : view.entriesFor [2] = [otherRevocation]) :
    (revokeVerifier.consulting view).Returns
      { token := (Link.sample 1 revocable).token, expectedBearer := none }
      (.error (.revoked [2])) := by
  have hgrammar : Rust.Grammatical revocable := ⟨by decide, by decide, by decide⟩
  have hvouches : (revokeVerifier.consulting view).identity.Vouches (.sample 1 revocable) :=
    Identity.sample_vouches rfl rfl
  exact Rust.returns_revoked (revokeVerifier_reads revocable_mem).1 hgrammar hvouches h
    (Rust.grants_of_authority rfl (Rust.toDecoder_token.1 (revokeVerifier_reads authority_mem).2)
      (authority_accepted hauthority) rfl rfl (by decide))

theorem revocable_accepted {view : Rust.RevocationView}
    (h : view.entriesFor [2] = [bareRevocation]) :
    (revokeVerifier.consulting view).Returns
      { token := (Link.sample 1 revocable).token, expectedBearer := none }
      (.ok (.ofChain (.start (Link.sample 1 revocable).token) (.sample 1 revocable) [])) := by
  refine Rust.returns_of_root (revokeVerifier_reads revocable_mem).1 rfl ?_
    (Rust.holds_of_no_conditions rfl) (by simp)
  refine ⟨Identity.sample_vouches rfl rfl, ⟨by decide, by decide, .inr rfl⟩,
    show revocable.CurrentAt 1000 by decide, fun entry hentry => ?_, by decide⟩
  have hentries : (revokeVerifier.consulting view).entriesFor revocable.tokenId =
      [bareRevocation] := h
  obtain rfl := List.mem_singleton.1 (hentries ▸ hentry)
  have hissuer : bareRevocation.issuer ≠ (Link.sample 1 revocable).claims.issuer := by decide
  rw [Rust.revocationEntryGrantsRevoke, if_neg hissuer]
  exact settles_pure.2 rfl

end Sample

/-- Two entries of one device against one token, of the same time, one with the authority
    to revoke it and one without. The token is revoked when the first is admitted last, and
    accepted when the other is, although both entries verify and the first revoked it. -/
theorem revocation_withdrawn :
    let a := RevocationEntry.sample 2 Sample.otherRevocation
    let b := RevocationEntry.sample 2 Sample.bareRevocation
    let inserted := Rust.RevocationView.insertAll (.sample Sample.rivals) .new
    let query : Rust.Query :=
      { token := (Link.sample 1 Sample.revocable).token, expectedBearer := none }
    (Rust.verifyEntry (.sample Sample.rivals) a = .ok Sample.otherRevocation ∧
      Rust.verifyEntry (.sample Sample.rivals) b = .ok Sample.bareRevocation) ∧
    ((Sample.revokeVerifier.consulting (inserted [b, a])).Returns query (.error (.revoked [2])) ∧
      ∃ v, (Sample.revokeVerifier.consulting (inserted [a, b])).Returns query (.ok v)) ∧
    ((Sample.revokeVerifier.consulting (inserted [a])).Returns query (.error (.revoked [2])) ∧
      ∃ v, (Sample.revokeVerifier.consulting
        (Rust.RevocationView.verifyAndInsert (.sample Sample.rivals) (inserted [a]) b).1).Returns
          query (.ok v)) := by
  have ha : ∀ c ∈ [Sample.otherRevocation], c ∈ Sample.rivals := by simp [Sample.rivals]
  have hab : ∀ c ∈ [Sample.otherRevocation, Sample.bareRevocation], c ∈ Sample.rivals :=
    by simp [Sample.rivals]
  have hba : ∀ c ∈ [Sample.bareRevocation, Sample.otherRevocation], c ∈ Sample.rivals := by
    simp [Sample.rivals]
  refine ⟨⟨?_, ?_⟩, ⟨?_, ?_⟩, ?_, ?_⟩
  · exact Sample.verifyEntry_rivals (hab _ (by simp))
  · exact Sample.verifyEntry_rivals (hab _ (by simp))
  · exact Sample.revocable_revoked ((Sample.viewOf_entriesFor hba).trans (by decide +kernel))
      ((Sample.viewOf_entriesFor hba).trans (by decide +kernel))
  · exact ⟨_, Sample.revocable_accepted
      ((Sample.viewOf_entriesFor hab).trans (by decide +kernel))⟩
  · exact Sample.revocable_revoked ((Sample.viewOf_entriesFor ha).trans (by decide +kernel))
      ((Sample.viewOf_entriesFor ha).trans (by decide +kernel))
  · exact ⟨_, Sample.revocable_accepted
      ((Sample.viewOf_entriesFor hab).trans (by decide +kernel))⟩

namespace Sample

theorem latest_eq {c : RevocationClaims}
    (h : (Rust.EntryVerifier.sample rivals).Latest
      [.sample 2 otherRevocation, .sample 2 olderRevocation] c) : c = otherRevocation := by
  have hother : Rust.verifyEntry (.sample rivals) (.sample 2 otherRevocation) = _ :=
    verifyEntry_rivals (by simp [rivals])
  have holder : Rust.verifyEntry (.sample rivals) (.sample 2 olderRevocation) = _ :=
    verifyEntry_rivals (by simp [rivals])
  obtain ⟨⟨entry, hentry, hc⟩, hlatest⟩ := h
  rcases List.mem_pair.1 hentry with rfl | rfl
  · exact Except.ok.inj (hc.symm.trans hother)
  · obtain rfl : c = olderRevocation := Except.ok.inj (hc.symm.trans holder)
    exact absurd (hlatest _ List.mem_cons_self _ hother rfl rfl) (by decide)

end Sample

/-- Views of the same entries, admitted in any order, give the same verdicts, when they give
    any, if the latest entries of each issuer about each token are on one authorization. A
    token that an entry revokes stays revoked when a further entry about it is admitted,
    unless that takes the place of the entry of another issuer than its own, on another
    authorization. -/
theorem revocation_converges (verifier : Rust.Verifier) (entryVerifier : Rust.EntryVerifier) :
    (∀ entries entries', entries.Perm entries' →
      (∀ a b, entryVerifier.Latest entries a → entryVerifier.Latest entries b →
        a.tokenId = b.tokenId → a.issuer = b.issuer → a.authorization = b.authorization) →
      ∀ query verdict verdict',
        (verifier.consulting (.insertAll entryVerifier .new entries)).Returns query verdict →
        (verifier.consulting (.insertAll entryVerifier .new entries')).Returns query verdict' →
        verdict = verdict') ∧
    (∀ entries (l : Link) e,
      let view := Rust.RevocationView.insertAll entryVerifier .new entries
      (verifier.consulting view).Revokes e l.claims →
      ∀ entry claims, Rust.verifyEntry entryVerifier entry = .ok claims →
      claims.tokenId = l.claims.tokenId →
      (e.issuer = l.claims.issuer ∨ claims.issuer ≠ e.issuer ∨ claims.revokedAt < e.revokedAt ∨
        claims.authorization = e.authorization) →
      let view' := (view.verifyAndInsert entryVerifier entry).1
      (∀ query links, ChainOf verifier.codec.toDecoder query.token links → l ∈ links →
        ∀ v, ¬(verifier.consulting view').Returns query (.ok v)) ∧
      ∀ query, verifier.codec.toDecoder.Reads query.token l → Rust.Grammatical l.claims →
        verifier.identity.Vouches l → ∀ verdict,
          (verifier.consulting view').Returns query verdict →
            verdict = .error (.revoked l.claims.tokenId)) := by
  constructor
  · intro entries entries' hperm hlatest query verdict verdict' h h'
    have hlatest' := hlatest
    simp only [Rust.EntryVerifier.Latest, hperm.mem_iff] at hlatest'
    refine Rust.returns_eq_of_sameAuthority (fun tokenId => ⟨?_, ?_⟩) h h'
    · exact Rust.RevocationView.covered_of_subset (fun _ => hperm.mem_iff) hlatest
    · exact Rust.RevocationView.covered_of_subset (fun _ => hperm.mem_iff.symm) hlatest'
  · intro entries l e view hrevokes entry claims hentry hid hkept view'
    obtain ⟨e', he', hissuer, hreplaced⟩ :=
      Rust.RevocationView.exists_kept hrevokes.1 hentry hid
    have hsame : e.issuer = l.claims.issuer ∨ e'.authorization = e.authorization := by
      rcases hreplaced with rfl | ⟨rfl, hle⟩
      · exact .inr rfl
      · exact hkept.imp_right fun h => (h.resolve_left (not_not.2 hissuer)).resolve_left
          (not_lt.2 hle)
    have hdoubts : (verifier.consulting view').Doubts e' l.claims :=
      hrevokes.doubts he' hissuer hsame fun id hne =>
        (Rust.RevocationView.entriesFor_verifyAndInsert_of_ok hentry).trans
          (if_neg (hid ▸ hne.symm))
    refine ⟨fun query links hchain hl v => ?_, fun query hreads hgrammar hvouches verdict h => ?_⟩
    · exact hdoubts.not_returns hchain hl
    · exact hdoubts.eq_revoked hreads hgrammar hvouches h

theorem revocation_converges_sample :
    let a := RevocationEntry.sample 2 Sample.otherRevocation
    let b := RevocationEntry.sample 2 Sample.olderRevocation
    let inserted := Rust.RevocationView.insertAll (.sample Sample.rivals) .new
    let query : Rust.Query :=
      { token := (Link.sample 1 Sample.revocable).token, expectedBearer := none }
    ((Sample.revokeVerifier.consulting (inserted [a, b])).Returns query (.error (.revoked [2])) ∧
      ∀ verdict, (Sample.revokeVerifier.consulting (inserted [b, a])).Returns query verdict →
        .error (.revoked [2]) = verdict) ∧
    ∀ v, ¬(Sample.revokeVerifier.consulting
      (Rust.RevocationView.verifyAndInsert (.sample Sample.rivals) (inserted [a]) b).1).Returns
        query (.ok v) := by
  have ha : ∀ c ∈ [Sample.otherRevocation], c ∈ Sample.rivals := by simp [Sample.rivals]
  have hab : ∀ c ∈ [Sample.otherRevocation, Sample.olderRevocation], c ∈ Sample.rivals := by
    simp [Sample.rivals]
  have hrevoked : (Sample.revokeVerifier.consulting (Sample.viewOf
      [Sample.otherRevocation, Sample.olderRevocation])).Returns
      { token := (Link.sample 1 Sample.revocable).token, expectedBearer := none }
      (.error (.revoked [2])) :=
    Sample.revocable_revoked ((Sample.viewOf_entriesFor hab).trans (by decide +kernel))
      ((Sample.viewOf_entriesFor hab).trans (by decide +kernel))
  refine ⟨⟨hrevoked, fun verdict h => ?_⟩, ?_⟩
  · refine (revocation_converges _ _).1 _ _ (.swap _ _ []) (fun x y hx hy _ _ => ?_) _ _ _
      hrevoked h
    rw [Sample.latest_eq hx, Sample.latest_eq hy]
  · have hnone : (Sample.viewOf [Sample.otherRevocation]).entriesFor [1] = [] :=
      (Sample.viewOf_entriesFor ha).trans (by decide +kernel)
    have hrevokes : (Sample.revokeVerifier.consulting (Sample.viewOf
        [Sample.otherRevocation])).Revokes Sample.otherRevocation
        (Link.sample 1 Sample.revocable).claims := by
      refine ⟨?_, Rust.grants_of_authority rfl
        (Rust.toDecoder_token.1 (Sample.revokeVerifier_reads Sample.authority_mem).2)
        (Sample.authority_accepted hnone) rfl rfl (by decide)⟩
      rw [Rust.Verifier.consulting_entriesFor, Sample.viewOf_entriesFor ha]
      decide +kernel
    have holder : Sample.olderRevocation ∈ Sample.rivals := by simp [Sample.rivals]
    have hstays := (revocation_converges Sample.revokeVerifier (.sample Sample.rivals)).2
      [.sample 2 Sample.otherRevocation] (.sample 1 Sample.revocable) Sample.otherRevocation
      hrevokes (.sample 2 Sample.olderRevocation) Sample.olderRevocation
      (Sample.verifyEntry_rivals holder) rfl (.inr (.inr (.inl (by decide))))
    exact hstays.1 _ _ (.root (Sample.revokeVerifier_reads Sample.revocable_mem).1 rfl)
      List.mem_cons_self

end WireMesh
