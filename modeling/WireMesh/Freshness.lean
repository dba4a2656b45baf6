import WireMesh.TypeScript.RelayMaps
import WireMesh.TypeScript.RelaySteps

/-!
# The adverts of the relay hub

Every advert that the hub registers, forwards or replays has passed the checks, although
these are made across awaits and through a cache of verdicts that is shared with others:
a verdict may be that on another advert, but one with the same signed bytes, and these
tell all that the checks depend on. The registration of a device only gets newer, and
moves to another connection only with a strictly newer advert
(`registrations_fresh`).
-/

namespace WireMesh.TypeScript.RelayHub

variable {Conn Value : Type} {options : RelayHubOptions Value}

/-! ## Verification -/

/-- The advert passes the checks. -/
def Verifies (options : RelayHubOptions Value) (advert : PeerAdvert Value) : Prop :=
  ∃ signedBytes, peerAdvertSigningInput options.encoding advert = some signedBytes ∧
    checkPeerAdvert options.identity advert signedBytes = some true

/-- The advert passes the checks, and the policy allows it. -/
def Passed (options : RelayHubOptions Value) (advert : PeerAdvert Value) : Prop :=
  Verifies options advert ∧ Allowed options.extensionPolicy advert

/-- The verdict on the advert is that of the computation with the given number. -/
def Requested (options : RelayHubOptions Value) (cache : VerdictCache (PeerAdvert Value))
    (advert : PeerAdvert Value) (n : ℕ) : Prop :=
  (peerAdvertSigningInput options.encoding advert).isSome ∧
    ∃ c : Computation (PeerAdvert Value), cache.computations[n]? = some c ∧
      requestParts options c.arg = requestParts options advert

variable {cache cache' : VerdictCache (PeerAdvert Value)} {advert : PeerAdvert Value} {n : ℕ}

theorem Requested.extends (h : Requested options cache advert n) (hcache : cache.Extends cache') :
    Requested options cache' advert n := by
  obtain ⟨hsome, c, hc, hparts⟩ := h
  obtain ⟨c', hc', harg⟩ := hcache n c hc
  exact ⟨hsome, c', hc', by rw [harg, hparts]⟩

theorem signingInput_ne_nil {input : Bytes}
    (h : peerAdvertSigningInput options.encoding advert = some input) : input ≠ [] := by
  simp only [peerAdvertSigningInput, bind, Option.bind_eq_some_iff, pure, Option.some.injEq] at h
  obtain ⟨entries, -, rfl⟩ := h
  have hcontext : peerAdvertSigningContext ≠ [] := by decide
  simp [hcontext]

/-- A verdict that is given for an advert is that of its own checks. -/
theorem Requested.verdict (h : Requested options cache advert n)
    (hsound : cache.Sound (requestParts options) (check options)) {v : Bool}
    (hanswer : cache.answer n = some v) : v = (check options advert).getD false := by
  obtain ⟨hsome, c, hc, hparts⟩ := h
  obtain ⟨input, hinput⟩ := Option.isSome_iff_exists.1 hsome
  obtain ⟨hsignature, hbytes⟩ : c.arg.signature = advert.signature ∧
      signedBytes options c.arg = signedBytes options advert := by
    simpa [requestParts] using hparts
  rw [signedBytes, signedBytes, hinput, Option.getD_some] at hbytes
  -- What the computation is on can be encoded too, as its signed bytes are not empty.
  have hinput' : peerAdvertSigningInput options.encoding c.arg = some input := by
    cases hc : peerAdvertSigningInput options.encoding c.arg with
    | none => grind [signingInput_ne_nil]
    | some input' =>
      rw [hc, Option.getD_some] at hbytes
      rw [hbytes]
  grind [VerdictCache.Sound.answer, check, signedBytes, checkPeerAdvert_congr]

theorem Requested.verifies (h : Requested options cache advert n)
    (hsound : cache.Sound (requestParts options) (check options))
    (hanswer : cache.answer n = some true) : Verifies options advert := by
  obtain ⟨input, hinput⟩ := Option.isSome_iff_exists.1 h.1
  have hverdict := h.verdict hsound hanswer
  refine ⟨input, hinput, ?_⟩
  rw [check, signedBytes, hinput, Option.getD_some] at hverdict
  cases hresult : checkPeerAdvert options.identity advert input with
  | none => simp [hresult] at hverdict
  | some b => grind

theorem verifyPeerAdvert_spec (h : cache.Sound (requestParts options) (check options))
    (advert : PeerAdvert Value) :
    let after := verifyPeerAdvert options cache advert
    after.1.Sound (requestParts options) (check options) ∧ cache.Extends after.1 ∧
      ∀ n, after.2 = some n → Requested options after.1 advert n := by
  rw [verifyPeerAdvert]
  split
  next => exact ⟨h, .refl _, by simp⟩
  next input hinput =>
    obtain ⟨hsound, hextends, hcall⟩ := h.call peerAdvertVerdictBudgetBytes advert
    refine ⟨hsound, hextends, ?_⟩
    rintro n hn
    cases hn
    exact ⟨by rw [hinput]; rfl, hcall⟩

theorem verifyAll_spec (h : cache.Sound (requestParts options) (check options))
    (peers : List (PeerAdvert Value)) :
    let after := verifyAll options cache peers
    after.1.Sound (requestParts options) (check options) ∧ cache.Extends after.1 ∧
      ∀ advert n, (advert, some n) ∈ after.2 → Requested options after.1 advert n := by
  induction peers generalizing cache with
  | nil => exact ⟨h, .refl _, by simp [verifyAll]⟩
  | cons peer peers ih =>
    obtain ⟨hsound, hextends, hpeer⟩ := verifyPeerAdvert_spec h peer
    obtain ⟨hsound', hextends', hpeers⟩ := ih hsound
    refine ⟨hsound', hextends.trans hextends', ?_⟩
    rintro advert n hmem
    rcases List.mem_cons.1 hmem with heq | hmem
    · obtain ⟨rfl, hn⟩ := Prod.mk.inj heq
      exact (hpeer n hn.symm).extends hextends'
    · exact hpeers advert n hmem

/-- What has passed was asked for, and the verdict was in its favour. -/
theorem mem_verified {requests : List (PeerAdvert Value × Option ℕ)}
    {adverts : List (PeerAdvert Value)} (h : verified cache requests = some adverts)
    (hadvert : advert ∈ adverts) :
    ∃ n, (advert, some n) ∈ requests ∧ cache.answer n = some true := by
  induction requests generalizing adverts with
  | nil =>
    cases h
    cases hadvert
  | cons request requests ih =>
    obtain ⟨peer, _ | n⟩ := request
    · obtain ⟨n, hmem, hanswer⟩ := ih h hadvert
      exact ⟨n, List.mem_cons_of_mem _ hmem, hanswer⟩
    · simp only [verified, bind, Option.bind_eq_some_iff, pure, Option.some.injEq] at h
      grind

/-! ## Runs -/

variable [DecidableEq Conn] {s : State Conn Value} {e : Event Conn Value}

/-- All the adverts that the hub has registered or is forwarding have passed, and those that are
    being verified wait for a verdict on them. -/
@[grind cases]
structure Checked (options : RelayHubOptions Value) (s : State Conn Value) : Prop where
  cache : s.cache.Sound (requestParts options) (check options)
  requested : ∀ c requests, .verifying c requests ∈ s.tasks → ∀ advert n,
    (advert, some n) ∈ requests → Requested options s.cache advert n
  forwarded : ∀ c accepted position, .forwarding c accepted position ∈ s.tasks →
    ∀ advert ∈ accepted, Passed options advert
  registered : ∀ device r, s.maps.devices.get device = some r → Passed options r.advert

theorem cache_sound_next (h : s.cache.Sound (requestParts options) (check options))
    (e : Event Conn Value) :
    (next options s e).cache.Sound (requestParts options) (check options) ∧
      s.cache.Extends (next options s e).cache := by
  grind [cache_next, verifyAll_spec, verifyPeerAdvert_spec, VerdictCache.Sound.resolve,
    VerdictCache.Sound.settle, VerdictCache.Extends.refl]

namespace Checked

/-- What a verified gossip frame has accepted has passed. -/
theorem accepted (h : Checked options s) {i : ℕ} {c : Conn} {adverts : List (PeerAdvert Value)}
    (hverified : Verified s i c adverts) :
    ∀ advert ∈ (s.maps.gossiped options.extensionPolicy c adverts).accepted,
      Passed options advert := by
  obtain ⟨requests, htask, hrequests⟩ := hverified
  intro advert hadvert
  obtain ⟨hmem, hallowed⟩ :=
    (Maps.gossiped_registers s.maps options.extensionPolicy c adverts).accepted advert hadvert
  obtain ⟨n, hrequest, hanswer⟩ := mem_verified hrequests hmem
  have hrequested := h.requested c requests (List.mem_of_getElem? htask) advert n hrequest
  exact ⟨hrequested.verifies h.cache hanswer, hallowed⟩

theorem forwards (h : Checked options s) {c : Conn} {accepted : List (PeerAdvert Value)}
    (hforwards : Forwards options s c accepted) : ∀ advert ∈ accepted, Passed options advert := by
  rcases hforwards with ⟨i, adverts, hverified, rfl⟩ | ⟨position, htask⟩
  · exact h.accepted hverified
  · exact h.forwarded c accepted position htask

theorem registered_next (h : Checked options s) (e : Event Conn Value) (device : DeviceId)
    (r : Registration Conn Value) (hr : (next options s e).maps.devices.get device = some r) :
    Passed options r.advert := by
  have hstep := mapsStep options s e
  generalize (next options s e).maps = m at hstep hr
  cases hstep with
  | @acts _ c _ hactor hacts =>
    cases hacts with
    | @gossips i adverts hverified => grind [Maps.gossip_get, accepted]
    | _ => exact h.registered device r hr
  | forget c => grind [Maps.forgotten_forgetConnection, Directory.get_filter]
  | stop => cases hr
  | same => exact h.registered device r hr

theorem next (h : Checked options s) (e : Event Conn Value) :
    Checked options (next options s e) := by
  obtain ⟨hsound, hextends⟩ := cache_sound_next h.cache e
  refine ⟨hsound, ?_, ?_, h.registered_next e⟩
  · intro c requests htask advert n hmem
    rcases tasks_next htask with htask | ⟨-, hnew⟩
    · exact (h.requested c requests htask advert n hmem).extends hextends
    · cases hnew with
      | verifying c peers =>
        obtain ⟨-, -, hrequested⟩ := verifyAll_spec h.cache peers
        exact hrequested advert n hmem
  · intro c accepted position htask
    rcases tasks_next htask with htask | ⟨-, hnew⟩
    · exact h.forwarded c accepted position htask
    · cases hnew with
      | forwarding hforwards => exact h.forwards hforwards

end Checked

theorem checked_run (options : RelayHubOptions Value) (storage : KeyValueStorage)
    (events : List (Event Conn Value)) :
    Checked options (Machine.run (next options) (State.init storage) events) := by
  refine Machine.run_invariant ?_ (fun _ e h => h.next e) events
  exact ⟨VerdictCache.sound_empty, by simp [State.init], by simp [State.init],
    by simp [State.init, Maps.empty]⟩

/-- A device that stays registered through an event keeps its registration, or gets one that
    supersedes it. -/
theorem registration_next (options : RelayHubOptions Value) (s : State Conn Value)
    (e : Event Conn Value) {device : DeviceId} {r r' : Registration Conn Value}
    (hr : s.maps.devices.get device = some r)
    (hr' : (next options s e).maps.devices.get device = some r') :
    r' = r ∨ supersedes r r'.advert r'.connection := by
  have hsame {devices : Directory Conn Value} (heq : devices.get device = s.maps.devices.get device)
      (hr' : devices.get device = some r') : r' = r := by
    rw [heq, hr] at hr'
    exact (Option.some.inj hr').symm
  have hstep := mapsStep options s e
  generalize (next options s e).maps = m at hstep hr'
  cases hstep with
  | @acts _ c _ hactor hacts =>
    cases hacts with
    | @gossips i adverts hverified => grind [Maps.gossip_get]
    | _ => exact .inl (hsame rfl hr')
  | forget c => grind [Maps.forgotten_forgetConnection, Directory.get_filter]
  | stop => cases hr'
  | same => exact .inl (hsame rfl hr')

/-- While a device stays registered, its adverts do not get older. -/
theorem snapshotSeconds_run (options : RelayHubOptions Value) (s : State Conn Value)
    {events : List (Event Conn Value)} {device : DeviceId} {r r' : Registration Conn Value}
    (hr : s.maps.devices.get device = some r)
    (hr' : (Machine.run (next options) s events).maps.devices.get device = some r')
    (h : ∀ before, before <+: events →
      ((Machine.run (next options) s before).maps.devices.get device).isSome) :
    r.advert.snapshotSeconds ≤ r'.advert.snapshotSeconds := by
  induction events using List.reverseRecOn generalizing r' with
  | nil => grind [Machine.run_nil]
  | append_singleton events e ih =>
    obtain ⟨r₁, hr₁⟩ := Option.isSome_iff_exists.1 (h events (List.prefix_append _ _))
    have hle := ih hr₁ fun before hbefore => h before (hbefore.trans (List.prefix_append _ _))
    rw [Machine.run_append, Machine.run_cons, Machine.run_nil] at hr'
    rcases registration_next options _ e hr₁ hr' with rfl | hsupersedes
    · exact hle
    · exact hle.trans hsupersedes.le

/-- While a device stays registered, its adverts do not get older, and its registration moves to
    another connection only with a newer one. Whatever the hub registers, forwards or replays
    has passed the checks, and the policy of the hub allows it. -/
theorem registrations_fresh (options : RelayHubOptions Value) (storage : KeyValueStorage)
    (events : List (Event Conn Value)) :
    let hub := Machine.run (next options) (State.init storage)
    (∀ later device r r', (hub events).maps.devices.get device = some r →
      (hub (events ++ later)).maps.devices.get device = some r' →
      (∀ between, between <+: later →
        ((hub (events ++ between)).maps.devices.get device).isSome) →
      r.advert.snapshotSeconds ≤ r'.advert.snapshotSeconds) ∧
    (∀ e device r r', (hub events).maps.devices.get device = some r →
      (hub (events ++ [e])).maps.devices.get device = some r' → r'.connection ≠ r.connection →
      r.advert.snapshotSeconds < r'.advert.snapshotSeconds) ∧
    (∀ device r, (hub events).maps.devices.get device = some r → Passed options r.advert) ∧
    ∀ e cause recipient peers, .send cause recipient (.gossip peers) ∈
      (step options (hub events) e).2 → ∀ advert ∈ peers, Passed options advert := by
  intro hub
  have hchecked := checked_run options storage events
  refine ⟨?_, ?_, hchecked.registered, ?_⟩
  · intro later device r r' hr hr' hregistered
    simp only [hub, Machine.run_append] at hr hr' hregistered
    exact snapshotSeconds_run options _ hr hr' hregistered
  · intro e device r r' hr hr' hne
    simp only [hub, Machine.run_append, Machine.run_cons, Machine.run_nil] at hr hr'
    rcases registration_next options _ e hr hr' with rfl | hsupersedes
    · exact absurd rfl hne
    · exact hsupersedes.lt hne.symm
  · intro e cause recipient peers hsend
    have hregistered : ∀ r ∈ (hub events).maps.devices.values, Passed options r.advert :=
      fun r hr => hchecked.registered _ r (Directory.mem_values.1 hr)
    cases sends_step hsend with
    | relays hrelays => cases hrelays
    | forwards hforwards => exact hchecked.forwards hforwards
    | catchesUp =>
      intro advert hadvert
      obtain ⟨r, hr, rfl⟩ := List.mem_map.1 hadvert
      exact hregistered r (List.mem_of_mem_filter hr)
    | announces =>
      intro advert hadvert
      obtain ⟨r, hr, rfl⟩ := List.mem_map.1 hadvert
      exact hregistered r hr

end WireMesh.TypeScript.RelayHub
