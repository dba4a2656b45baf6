import WireMesh.TypeScript.ChannelSteps

/-!
# Forgetting a peer

A session forgets a device, or all of them, when the connection that their channels were set
up on is gone. No channel from before is used for the device again, provided that no hello of
it is being handled at that moment (`forgotten_for_good`): the call that handles one stores its
channel after three awaits, whatever has happened meanwhile (`stored_after_reset`).
-/

namespace WireMesh.TypeScript.RelayChannels

open SecureChannel Machine

variable {PrivateKey Key Frame : Type} {identity : Identity} {crypto : KeyAgreement PrivateKey Key}
  {e : Event PrivateKey Frame} {v v' : View PrivateKey Key} {peer : DeviceId} {handshakes calls : ℕ}

/-- A call for a hello of `peer` was made, and its handshake begun, from the given numbers on. -/
def Later (identity : Identity) (peer : DeviceId) (handshakes calls i : ℕ) (hello : SecureHello) :
    Stage Key → Prop
  | .verifying => From identity hello peer → calls ≤ i
  | .beginning peer' n => peer' = peer → handshakes ≤ n ∧ calls ≤ i
  | .establishing peer' n _ => peer' = peer → handshakes ≤ n ∧ calls ≤ i
  | .done => True

/-- All that is there for `peer` is from handshakes and calls with at least the given numbers. -/
@[grind cases]
structure Since (identity : Identity) (peer : DeviceId) (handshakes calls : ℕ)
    (v : View PrivateKey Key) : Prop where
  handshakes_le : handshakes ≤ v.handshakes.length
  calls_le : calls ≤ v.calls.length
  awaited : ∀ n, v.channels peer = some (.awaiting n) → handshakes ≤ n
  established : ∀ m, v.channels peer = some (.established m) →
    ∃ x, v.established[m]? = some x ∧ handshakes ≤ x.handshake ∧ calls ≤ x.call
  call : ∀ (i : ℕ) hello stage, v.calls[i]? = some ⟨hello, stage⟩ →
    Later identity peer handshakes calls i hello stage

namespace Since

theorem call_change (h : Since identity peer handshakes calls v)
    (hchange : Change identity crypto e v v') :
    ∀ (i : ℕ) hello stage, v'.calls[i]? = some ⟨hello, stage⟩ →
      Later identity peer handshakes calls i hello stage := by
  cases hchange with
  | drop | begin | start => exact h.call
  | call => exact View.forall_concat h.call fun _ => h.calls_le
  | refuse hcall | fail hcall => exact View.forall_setStage hcall h.call trivial
  | abandon hcall => exact View.forall_setStage hcall h.call trivial
  | store hcall => exact View.forall_setStage hcall h.call trivial
  | await hcall hverified hawaiting =>
    refine View.forall_setStage hcall h.call ?_
    rintro rfl
    exact ⟨h.awaited _ hawaiting, h.call _ _ _ hcall ⟨_, hverified, rfl⟩⟩
  | answer hcall hverified =>
    refine View.forall_setStage hcall h.call ?_
    rintro rfl
    exact ⟨h.handshakes_le, h.call _ _ _ hcall ⟨_, hverified, rfl⟩⟩
  | establish hcall =>
    have hlater := h.call _ _ _ hcall
    exact View.forall_setStage hcall h.call hlater

theorem awaited_change (h : Since identity peer handshakes calls v)
    (hchange : Change identity crypto e v v') {n : ℕ}
    (hn : v'.channels peer = some (.awaiting n)) : handshakes ≤ n := by
  cases hchange with
  | drop hdrops => exact h.awaited n (hdrops.awaiting hn)
  | begin _ hdrops => exact h.awaited n (hdrops.awaiting hn)
  | abandon _ hdrops => exact h.awaited n (hdrops.awaiting hn)
  | call | refuse | await | establish | fail => exact h.awaited n hn
  | start | answer =>
    rcases channels_update hn with ⟨-, heq⟩ | ⟨-, hn⟩
    · cases heq
      exact h.handshakes_le
    · exact h.awaited n hn
  | store =>
    rcases channels_update hn with ⟨-, heq⟩ | ⟨-, hn⟩
    · cases heq
    · exact h.awaited n hn

theorem established_change (h : Since identity peer handshakes calls v)
    (hchange : Change identity crypto e v v') {m : ℕ}
    (hm : v'.channels peer = some (.established m)) :
    ∃ x, v'.established[m]? = some x ∧ handshakes ≤ x.handshake ∧ calls ≤ x.call := by
  cases hchange with
  | drop hdrops => exact h.established m (hdrops.awaiting hm)
  | begin _ hdrops => exact h.established m (hdrops.awaiting hm)
  | abandon _ hdrops => exact h.established m (hdrops.awaiting hm)
  | call | refuse | await | establish | fail => exact h.established m hm
  | start | answer =>
    rcases channels_update hm with ⟨-, heq⟩ | ⟨-, hm⟩
    · cases heq
    · exact h.established m hm
  | store hcall =>
    rcases channels_update hm with ⟨rfl, heq⟩ | ⟨-, hm⟩
    · cases heq
      exact ⟨_, List.getElem?_concat_length, h.call _ _ _ hcall rfl⟩
    · grind [View.setStage, View.store]

theorem change (h : Since identity peer handshakes calls v)
    (hchange : Change identity crypto e v v') : Since identity peer handshakes calls v' where
  handshakes_le := h.handshakes_le.trans hchange.grows.handshakes_le
  calls_le := h.calls_le.trans hchange.grows.calls_le
  awaited _ := h.awaited_change hchange
  established _ := h.established_change hchange
  call := h.call_change hchange

end Since

/-- Without its entry, and when no hello of it is being handled, there is nothing for a device. -/
theorem since_forgotten (h : Derived identity crypto v)
    (hidle : ∀ call ∈ v.calls, From identity call.hello peer → call.stage.isDone)
    {channels : DeviceId → Option ChannelState} (hpeer : channels peer = none) :
    Since identity peer v.handshakes.length v.calls.length { v with channels } := by
  refine ⟨le_rfl, le_rfl, by simp [hpeer], by simp [hpeer], ?_⟩
  intro i hello stage hi
  have hdone : From identity hello peer → stage.isDone := hidle _ (List.mem_of_getElem? hi)
  have hheld := h.call i hello stage hi
  cases stage with
  | verifying => exact fun hfrom => absurd (hdone hfrom) Bool.false_ne_true
  | beginning peer' n =>
    rintro rfl
    exact absurd (hdone hheld.1) Bool.false_ne_true
  | establishing peer' n channel =>
    rintro rfl
    exact absurd (hdone hheld.1) Bool.false_ne_true
  | done => trivial

/-- After a device is forgotten, alone or with all others, the channel that is stored for it is
    from a handshake that was begun and a hello that was given after that, if no hello of the
    device was being handled then. -/
theorem forgotten_for_good (identity : Identity) (crypto : KeyAgreement PrivateKey Key)
    (codec : FrameCodec Frame) (before after : List (Event PrivateKey Frame)) (peer : DeviceId)
    {e : Event PrivateKey Frame} (he : e = .forget peer ∨ ∃ reason, e = .reset reason)
    (hidle : ∀ call ∈ (run (next identity crypto codec) .init before).calls,
      From identity call.hello peer → call.stage.isDone) :
    let s := run (next identity crypto codec) .init before
    let t := run (next identity crypto codec) .init (before ++ e :: after)
    ∀ m, t.channels peer = some (.established m) →
      ∃ x, t.established[m]? = some x ∧ s.handshakes.length ≤ x.handshake ∧
        s.calls.length ≤ x.call := by
  intro s t m hm
  have hforgotten : Since identity peer s.view.handshakes.length s.view.calls.length
      (next identity crypto codec s e).view := by
    have hderived := derived_run identity crypto codec before
    rcases he with rfl | ⟨reason, rfl⟩
    · rw [next, step, view_forget]
      exact since_forgotten hderived hidle (Function.update_self _ _ _)
    · rw [next, step, view_reset]
      exact since_forgotten hderived hidle rfl
  have hsince : Since identity peer s.view.handshakes.length s.view.calls.length t.view := by
    simp only [t, run_append, run_cons]
    exact run_view hforgotten (fun e v v' h hchange => h.change hchange) after
  obtain ⟨x, hx, hhandshake, hcall⟩ := hsince.established m hm
  simp only [State.view, List.getElem?_map, Option.map_eq_some_iff] at hx
  obtain ⟨y, hy, rfl⟩ := hx
  simp only [State.view, List.length_map] at hhandshake hcall
  exact ⟨y, hy, hhandshake, hcall⟩

/-- Forgetting a device after a channel with it was set up, and setting up another one. -/
theorem forgotten_for_good_sample :
    let s := run (next (sampleIdentity 1) sampleCrypto sampleCodec) .init sampleSetUp
    let t := run (next (sampleIdentity 1) sampleCrypto sampleCodec) .init (sampleSetUp ++
      .reset "the connection changed" :: [.applyHello (sampleHello 2 1 8 3), .resume 1,
        .begun 1 6 (List.replicate nonceByteLength 4), .resume 1, .resume 1])
    t.channels (sampleIdentity 2).deviceId = some (.established 1) ∧
      ∃ x, t.established[1]? = some x ∧ s.handshakes.length ≤ x.handshake ∧
        s.calls.length ≤ x.call := by
  have hdone : ((run (next (sampleIdentity 1) sampleCrypto sampleCodec) .init
      sampleSetUp).calls.all fun call => call.stage.isDone) = true := by decide +kernel
  intro s t
  have hstored : t.channels (sampleIdentity 2).deviceId = some (.established 1) := by
    decide +kernel
  exact ⟨hstored, forgotten_for_good _ _ _ sampleSetUp _ _ (.inr ⟨_, rfl⟩)
    (fun call hcall _ => List.all_eq_true.1 hdone call hcall) 1 hstored⟩

/-- The session is reset while a channel is being derived, from a handshake and a hello from
    before: the channel is stored all the same. -/
theorem stored_after_reset :
    let s := run (next (sampleIdentity 1) sampleCrypto sampleCodec) .init sampleDerivation
    let t := run (next (sampleIdentity 1) sampleCrypto sampleCodec) .init (sampleDerivation ++
      .reset "the connection changed" :: [.resume 0])
    t.channels (sampleIdentity 2).deviceId = some (.established 0) ∧
      ∃ x, t.established[0]? = some x ∧ x.handshake < s.handshakes.length ∧
        x.call < s.calls.length := by
  intro s t
  have hx : t.established[0]?.any (fun x =>
      x.handshake < s.handshakes.length && x.call < s.calls.length) = true := by decide +kernel
  obtain ⟨x, hx, hlt⟩ := (Option.any_eq_true _ _).1 hx
  simp only [Bool.and_eq_true, decide_eq_true_eq] at hlt
  exact ⟨by decide +kernel, x, hx, hlt⟩

end WireMesh.TypeScript.RelayChannels
