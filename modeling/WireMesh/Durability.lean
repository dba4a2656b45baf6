import WireMesh.Convergence
import WireMesh.TypeScript.RevocationStore
import WireMesh.Verdicts

/-!
# Revocations across a reload

The web console's view of revocations is rebuilt from its storage on a reload.
The view is a log, but the storage keeps one entry for each issuer and
token-id, so what the rebuilt view revokes on can differ from what the live one
did: an entry that comes without the authorization of an earlier one does not
touch the live view, and takes its place in the storage
(`revocation_lost_on_reload`). As long as no entry comes with another
authorization than the ones before it, the rebuilt view gives the same verdicts
(`revocations_survive_reload`): on every token whose verification neither throws
nor runs on without end, in whatever order the entries come.
-/

namespace WireMesh

open Async

/-! ## A revocation that is lost -/

namespace TypeScript

variable {options : VerifyOptions} {query : Query}

/-- An entry revokes by virtue of an authority that the verifier accepts. -/
theorem grants_of_authority {entry : RevocationClaims} {target : TokenClaims} {bytes : Bytes}
    {authorization : CapabilityToken} {accepted : TokenAccepted}
    (hbytes : entry.authorization = some bytes)
    (htoken : options.codec.token bytes = some authorization)
    (haccepted : options.Returns { token := authorization, expectedBearer := some entry.issuer }
      (.ok accepted))
    (hcapability : accepted.claims.capability = manageRevoke)
    (hscope : scopeNarrows accepted.claims.scope target.scope) :
    Settles (Returns (verifyCapabilityToken options))
      (revocationEntryGrantsRevoke options entry target) (.ok true) := by
  rw [revocationEntryGrantsRevoke, hbytes]
  by_cases hissuer : entry.issuer = target.issuer
  · rw [if_pos hissuer, settles_pure]
  · simp only [if_neg hissuer, htoken, settles_bind_ok, settles_ask]
    exact ⟨_, haccepted, by simp [hcapability, hscope]⟩

/-- A token in force that the first entry revokes is rejected as revoked. -/
theorem returns_revoked {l : Link} (hreads : options.codec.toDecoder.Reads query.token l)
    (hvouches : options.identity.Vouches l) (hcurrent : l.claims.CurrentAt options.now)
    {entry : RevocationClaims} {entries : List RevocationClaims}
    (hentries : options.entriesFor l.claims.tokenId = entry :: entries)
    (hgrants : Settles (Returns (verifyCapabilityToken options))
      (revocationEntryGrantsRevoke options entry l.claims) (.ok true)) :
    options.Returns query (.error .revoked) := by
  obtain ⟨token, payload, claims⟩ := l
  obtain rfl : token = query.token := hreads.token_eq
  obtain ⟨hexpires, hbefore, huntil⟩ := TokenClaims.currentAt_iff.1 hcurrent
  -- The first step of the walk passes all the checks before the sweep of the entries.
  refine returns_iff.2 (refuses_bind.2 (.inl ?_))
  rw [maxChainDepth, verifyTokenChain, verifyStep]
  refine refuses_bind.2 (.inr ⟨payload, accepts_orRefuse.2 hreads.payload_eq, ?_⟩)
  refine refuses_bind.2 (.inr ⟨(), accepts_ensure.2 (by simp), ?_⟩)
  refine refuses_bind.2 (.inl ?_)
  refine refuses_bind.2 (.inr ⟨claims, accepts_orRefuse.2 hreads.claims_eq, ?_⟩)
  refine refuses_bind.2 (.inr ⟨true, accepts_await.2 (settles_ofExcept.2 hvouches.signed), ?_⟩)
  refine refuses_bind.2 (.inr ⟨(), accepts_ensure.2 rfl, ?_⟩)
  refine refuses_bind.2 (.inr ⟨(), accepts_ensure.2 hvouches.issuer, ?_⟩)
  refine refuses_bind.2 (.inr ⟨(), accepts_ensure.2 hexpires, ?_⟩)
  refine refuses_bind.2 (.inr ⟨(), accepts_ensure.2 hbefore, ?_⟩)
  refine refuses_bind.2 (.inr ⟨(), accepts_ensure.2 huntil, ?_⟩)
  refine refuses_bind.2 (.inr ⟨some entry, accepts_await.2 ?_, ?_⟩)
  · rw [hentries]
    refine .findM?_head ?_
    exact hgrants
  · exact refuses_bind.2 (.inl (refuses_ensure.2 ⟨Option.some_ne_none _, rfl⟩))

end TypeScript

namespace Sample

/-- A console that can read the entries of device 2. -/
def storeOptions : TypeScript.RevocationStoreOptions where
  toVerifyRevocationEntryOptions := .sample rivals
  entry value :=
    (decodeAmong CoseSign1.encode (rivals.map (RevocationEntry.sample 2)) value).elim
      (.error .notEntry) .ok

theorem rivals_entries_ne :
    (rivals.map (RevocationEntry.sample 2)).Pairwise fun a b => a.encode ≠ b.encode := by
  decide +kernel

theorem storeOptions_entry {claims : RevocationClaims} (h : claims ∈ rivals) :
    storeOptions.entry (RevocationEntry.sample 2 claims).encode = .ok (.sample 2 claims) := by
  simp only [storeOptions, decodeAmong_eq rivals_entries_ne (List.mem_map_of_mem h),
    Option.elim_some]

theorem storeOptions_verifies {claims : RevocationClaims} (h : claims ∈ rivals) :
    TypeScript.verifyRevocationEntry storeOptions.toVerifyRevocationEntryOptions
      (.sample 2 claims) = .ok (.ok claims) :=
  TypeScript.verifyRevocationEntry_sample rivals_ne h (rivals_isBy claims h)

def freshStore : TypeScript.RevocationStore where
  view := .createRevocationView
  storage := ∅
  unreadable := []

/-- The store of a console that has ingested the entries of device 2. -/
def storeOf (claims : List RevocationClaims) : TypeScript.RevocationStore :=
  claims.foldl (fun store c => (store.ingest storeOptions (.sample 2 c)).1) freshStore

/-- The authority is accepted in a view without entries against it. -/
theorem authority_acceptedTS {view : TypeScript.RevocationView} {bearer : DeviceId}
    (h : view.entriesFor [1] = []) (hbearer : authority.bearer = bearer) :
    (revokeOptions.consulting view).Returns
      { token := (Link.sample 1 authority).token, expectedBearer := some bearer }
      (.ok (.ofChain (.sample 1 authority) [])) := by
  refine TypeScript.returns_of_root TypeScript.Trilean.sample_kleene
    (revokeOptions_reads authority_mem).1 rfl ?_ ?_ fun b hb => hbearer.trans (Option.some.inj hb)
  · exact TypeScript.admits_sample rfl rfl rfl (show authority.CurrentAt 1000 by decide) h
      (by decide)
  · exact TypeScript.holds_of_no_conditions rfl

theorem revocable_revokedTS {view : TypeScript.RevocationView} {entries : List RevocationClaims}
    (hauthority : view.entriesFor [1] = [])
    (h : view.entriesFor [2] = otherRevocation :: entries) :
    (revokeOptions.consulting view).Returns
      { token := (Link.sample 1 revocable).token, expectedBearer := none }
      (.error .revoked) := by
  have hvouches : (revokeOptions.consulting view).identity.Vouches (.sample 1 revocable) :=
    Identity.sample_vouches rfl rfl
  exact TypeScript.returns_revoked (revokeOptions_reads revocable_mem).1 hvouches
    (show revocable.CurrentAt 1000 by decide) h
    (TypeScript.grants_of_authority rfl (revokeOptions_reads authority_mem).2
      (authority_acceptedTS hauthority rfl) rfl (by decide))

theorem revocable_acceptedTS {view : TypeScript.RevocationView}
    (h : ∀ e ∈ view.entriesFor [2], e = bareRevocation) :
    (revokeOptions.consulting view).Returns
      { token := (Link.sample 1 revocable).token, expectedBearer := none }
      (.ok (.ofChain (.sample 1 revocable) [])) := by
  refine TypeScript.returns_of_root TypeScript.Trilean.sample_kleene
    (revokeOptions_reads revocable_mem).1 rfl ?_ (TypeScript.holds_of_no_conditions rfl) (by simp)
  refine ⟨Identity.sample_vouches rfl rfl, trivial, show revocable.CurrentAt 1000 by decide,
    fun entry hentry => ?_, by decide⟩
  obtain rfl := h entry hentry
  have hissuer : bareRevocation.issuer ≠ (Link.sample 1 revocable).claims.issuer := by decide
  rw [TypeScript.revocationEntryGrantsRevoke, if_neg hissuer]
  exact settles_pure.2 rfl

theorem storeOf_pair {a b : RevocationClaims} (ha : a ∈ rivals) (hb : b ∈ rivals) :
    storeOf [a, b] =
      { view := (TypeScript.RevocationView.createRevocationView.push a).push b
        storage := AList.insert (TypeScript.storageKey b) (RevocationEntry.sample 2 b).encode
          (AList.insert (TypeScript.storageKey a) (RevocationEntry.sample 2 a).encode ∅)
        unreadable := [] } := by
  rw [storeOf, List.foldl_cons, List.foldl_cons, List.foldl_nil,
    TypeScript.RevocationStore.ingest_of_ok (storeOptions_verifies ha),
    TypeScript.RevocationStore.ingest_of_ok (storeOptions_verifies hb), freshStore]

theorem storeOf_entriesFor {a b : RevocationClaims} (ha : a ∈ rivals) (hb : b ∈ rivals)
    {tokenId : Bytes} :
    (storeOf [a, b]).view.entriesFor tokenId = [a, b].filter fun c => c.tokenId = tokenId := by
  grind [storeOf_pair, TypeScript.RevocationView.entriesFor_push,
    TypeScript.RevocationView.entriesFor_create]

/-- Of two entries of device 2 against one token, the later one is stored, and no other. -/
theorem storeOf_stores {a b : RevocationClaims} (ha : a ∈ rivals) (hb : b ∈ rivals)
    (hkey : TypeScript.storageKey a = TypeScript.storageKey b) :
    TypeScript.Stores storeOptions (storeOf [a, b]).storage b ∧
      ∀ key ∈ (storeOf [a, b]).storage.keysFrom TypeScript.keyPrefix,
        key = TypeScript.storageKey b := by
  rw [storeOf_pair ha hb]
  refine ⟨⟨_, _, AList.lookup_insert _, storeOptions_entry hb, storeOptions_verifies hb⟩,
    fun key h => ?_⟩
  by_contra hne
  have h := TypeScript.mem_keysFrom_insert (TypeScript.mem_keysFrom_insert h hne) (hkey ▸ hne)
  simp [TypeScript.KeyValueStorage.keysFrom] at h

end Sample

/-- A device revokes a token by virtue of an authority, and then again without it. The live
    view keeps on rejecting the token, the one rebuilt from storage accepts it. -/
theorem revocation_lost_on_reload :
    let store := Sample.storeOf [Sample.otherRevocation, Sample.bareRevocation]
    let query : TypeScript.Query :=
      { token := (Link.sample 1 Sample.revocable).token, expectedBearer := none }
    TypeScript.RevocationStore.Reachable Sample.storeOptions
      (fun _ entry => Sample.storeOptions.entry entry.encode = .ok entry) store ∧
    (Sample.revokeOptions.consulting store.view).Returns query (.error .revoked) ∧
    ∀ keys, keys.Perm (store.storage.keysFrom TypeScript.keyPrefix) →
      ∃ rebuilt, TypeScript.createRevocationStore Sample.storeOptions store.storage keys =
          .ok rebuilt ∧
        ∃ v, (Sample.revokeOptions.consulting rebuilt.view).Returns query (.ok v) := by
  have ha : Sample.otherRevocation ∈ Sample.rivals := by simp [Sample.rivals]
  have hb : Sample.bareRevocation ∈ Sample.rivals := by simp [Sample.rivals]
  refine ⟨?_, ?_, fun keys hkeys => ?_⟩
  · exact .ingest (.ingest (.fresh rfl) (Sample.storeOptions_entry ha))
      (Sample.storeOptions_entry hb)
  · exact Sample.revocable_revokedTS ((Sample.storeOf_entriesFor ha hb).trans rfl)
      ((Sample.storeOf_entriesFor ha hb).trans rfl)
  · obtain ⟨hstores, honly⟩ := Sample.storeOf_stores ha hb (TypeScript.storageKey_inj.2 ⟨rfl, rfl⟩)
    obtain ⟨view, hcreate, hmem⟩ := TypeScript.mem_entriesFor_create hkeys fun key hkey =>
      ⟨_, honly key hkey, hstores⟩
    refine ⟨_, hcreate, _, Sample.revocable_acceptedTS fun e he => ?_⟩
    obtain ⟨-, he⟩ := (hmem _ _).1 he
    exact he.unique hstores (honly _ he.mem_keysFrom)

theorem Sample.repeats_of_eq {store : TypeScript.RevocationStore} {claims : RevocationClaims}
    (h : claims ∈ Sample.rivals) (hview : ∀ c ∈ store.view.entriesFor claims.tokenId, c = claims) :
    store.Repeats Sample.storeOptions (.sample 2 claims) := by
  constructor <;> grind [storeOptions_entry, storeOptions_verifies]

/-- Views that revoke on the same authority cite the same authorizations. -/
theorem TypeScript.VerifyOptions.Conclusive.of_covered {options : TypeScript.VerifyOptions}
    {view view' : TypeScript.RevocationView} {query : TypeScript.Query}
    (hsame : ∀ tokenId, Covered (view'.entriesFor tokenId) (view.entriesFor tokenId))
    (h : (options.consulting view).Conclusive query) :
    (options.consulting view').Conclusive query := by
  have hcites : ∀ q q', (options.consulting view').Cites q q' →
      (options.consulting view).Cites q q' := by
    rintro q q' ⟨l, hl, entry, hentry, hissuer, hdefers⟩
    obtain ⟨e, he, hissuer', hauthorization⟩ := hsame _ entry hentry
    exact ⟨l, hl, e, he, hissuer' ▸ hissuer, by rwa [hissuer', hauthorization]⟩
  refine ⟨Subrelation.accessible (fun h => hcites _ _ h) h.descends, fun q hq => ?_⟩
  exact h.checks q (Relation.ReflTransGen.mono (fun _ _ => hcites _ _) _ _ hq)

/-- A store rebuilt from what a console has stored gives the same verdicts as the console, if every
    entry that came to it had the authorization of those before it of the same issuer about the
    same token: both give one, if the signatures can be checked and the authorizations do not refer
    to each other without end. -/
theorem revocations_survive_reload (options : TypeScript.VerifyOptions)
    (ht : options.trilean.Total)
    (storeOptions : TypeScript.RevocationStoreOptions) (store : TypeScript.RevocationStore)
    (h : TypeScript.RevocationStore.Reachable storeOptions
      (TypeScript.RevocationStore.Repeats storeOptions) store)
    (keys : List String) (hkeys : keys.Perm (store.storage.keysFrom TypeScript.keyPrefix)) :
    ∃ rebuilt, TypeScript.createRevocationStore storeOptions store.storage keys = .ok rebuilt ∧
      rebuilt.unreadable = [] ∧
      (∀ query, (options.consulting store.view).Conclusive query →
        ∃ verdict, (options.consulting store.view).Returns query verdict ∧
          (options.consulting rebuilt.view).Returns query verdict) ∧
      ∀ query verdict verdict', (options.consulting store.view).Returns query verdict →
        (options.consulting rebuilt.view).Returns query verdict' → verdict = verdict' := by
  obtain ⟨rebuilt, hcreate, hmirrors, hsame⟩ := h.mirrors.create hkeys
  have heq : ∀ query verdict verdict', (options.consulting store.view).Returns query verdict →
      (options.consulting rebuilt.view).Returns query verdict' → verdict = verdict' :=
    fun query verdict verdict' => TypeScript.returns_eq_of_sameAuthority hsame
  refine ⟨rebuilt, hcreate, hmirrors.readable, fun query hquery => ?_, heq⟩
  obtain ⟨verdict, hlive⟩ := hquery.exists_returns ht
  obtain ⟨verdict', hrebuilt⟩ :=
    (hquery.of_covered fun tokenId => (hsame tokenId).2).exists_returns ht
  exact ⟨verdict, hlive, heq query _ _ hlive hrebuilt ▸ hrebuilt⟩

/-- The authority by which device 2 revokes the token is not revoked itself. -/
theorem Sample.conclusive_revocable {view : TypeScript.RevocationView}
    (hother : ∀ e ∈ view.entriesFor [2], e = otherRevocation) (hself : view.entriesFor [1] = [])
    (bearer : Option DeviceId) :
    (revokeOptions.consulting view).Conclusive
      { token := (Link.sample 1 revocable).token, expectedBearer := bearer } := by
  have hroot : ∀ {claims : TokenClaims}, .sample 1 claims ∈ revocables → claims.upward = none →
      ∀ l, revokeOptions.codec.toDecoder.Reaches (Link.sample 1 claims).token l →
        l = .sample 1 claims :=
    fun hmem hup l hl => hl.eq_of_root (revokeOptions_reads hmem).1 hup
  refine ⟨⟨_, fun q' hq' => ?_⟩, fun q hq l hl => ⟨_, rfl⟩⟩
  obtain ⟨l, hl, entry, hentry, -, bytes, hbytes, authorization, htoken, rfl⟩ := hq'
  obtain rfl := hroot revocable_mem rfl l hl
  obtain rfl := hother entry hentry
  cases hbytes
  cases (revokeOptions_reads authority_mem).2.symm.trans htoken
  refine ⟨_, fun q'' hq'' => ?_⟩
  obtain ⟨l, hl, entry, hentry, -⟩ := hq''
  obtain rfl := hroot authority_mem rfl l hl
  rw [TypeScript.VerifyOptions.consulting_entriesFor] at hentry
  exact absurd (hself ▸ hentry : entry ∈ []) List.not_mem_nil

theorem revocations_survive_reload_sample :
    let store := Sample.storeOf [Sample.otherRevocation, Sample.otherRevocation]
    let query : TypeScript.Query :=
      { token := (Link.sample 1 Sample.revocable).token, expectedBearer := none }
    ∃ rebuilt, TypeScript.createRevocationStore Sample.storeOptions store.storage
        (store.storage.keysFrom TypeScript.keyPrefix) = .ok rebuilt ∧
      (Sample.revokeOptions.consulting rebuilt.view).Returns query (.error .revoked) := by
  have ha : Sample.otherRevocation ∈ Sample.rivals := by simp [Sample.rivals]
  have hlive := Sample.revocable_revokedTS ((Sample.storeOf_entriesFor ha ha).trans rfl)
    ((Sample.storeOf_entriesFor ha ha).trans rfl)
  have hreachable : TypeScript.RevocationStore.Reachable Sample.storeOptions
      (TypeScript.RevocationStore.Repeats Sample.storeOptions)
      (Sample.storeOf [Sample.otherRevocation, Sample.otherRevocation]) := by
    refine .ingest (.ingest (.fresh rfl) (Sample.repeats_of_eq ha ?_)) (Sample.repeats_of_eq ha ?_)
    · exact fun c hc => absurd hc List.not_mem_nil
    · beta_reduce
      rw [TypeScript.RevocationStore.ingest_of_ok (Sample.storeOptions_verifies ha)]
      intro c hc
      rw [TypeScript.RevocationView.entriesFor_push, Sample.freshStore,
        TypeScript.RevocationView.entriesFor_create, List.nil_append] at hc
      exact List.mem_singleton.1 (List.mem_of_mem_filter hc)
  obtain ⟨rebuilt, hcreate, -, hboth, hsame⟩ := revocations_survive_reload Sample.revokeOptions
    TypeScript.Trilean.sample_total _ _ hreachable _ (.refl _)
  obtain ⟨verdict, -, hrebuilt⟩ := hboth _ (Sample.conclusive_revocable
    (fun e he => by
      rw [Sample.storeOf_entriesFor ha ha] at he
      simpa using List.mem_of_mem_filter he)
    ((Sample.storeOf_entriesFor ha ha).trans rfl) none)
  exact ⟨rebuilt, hcreate, hsame _ _ _ hlive hrebuilt ▸ hrebuilt⟩

end WireMesh
