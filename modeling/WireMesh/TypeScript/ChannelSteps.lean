import WireMesh.TypeScript.RelayChannels

/-!
# The steps of the channels of a session

What an event can do, said once for all that is proved about the runs of a session. The view
of a state (`State.view`) leaves out who waits for a handshake and what a channel seals.

* `change_next`: how the view changes.
* `derived_run`: every channel is the one that its handshake and its hello derive.
-/

namespace WireMesh.TypeScript.RelayChannels

open SecureChannel

/-! ## Views -/

/-- What a channel is from: the number of the handshake, and that of the call. -/
structure Origin (Key : Type) where
  handshake : ℕ
  call : ℕ
  channel : Channel Key

structure View (PrivateKey Key : Type) where
  channels : DeviceId → Option ChannelState
  /-- The handshakes: who each is with, and how far its beginning is. -/
  handshakes : List (DeviceId × Pending PrivateKey)
  calls : List (HelloCall Key)
  established : List (Origin Key)

variable {PrivateKey Key Frame : Type}

def State.view (s : State PrivateKey Key Frame) : View PrivateKey Key where
  channels := s.channels
  handshakes := s.handshakes.map fun h => (h.peer, h.pending)
  calls := s.calls
  established := s.established.map fun x => ⟨x.handshake, x.call, x.channel⟩

namespace View

def start (v : View PrivateKey Key) (peer : DeviceId) : View PrivateKey Key :=
  { v with
    channels := Function.update v.channels peer (some (.awaiting v.handshakes.length))
    handshakes := v.handshakes ++ [(peer, .generating)] }

def setStage (v : View PrivateKey Key) (call : ℕ) (stage : Stage Key) : View PrivateKey Key :=
  { v with calls := v.calls.modify call fun c => { c with stage } }

def store (v : View PrivateKey Key) (peer : DeviceId) (x : Origin Key) : View PrivateKey Key :=
  { v with
    channels := Function.update v.channels peer (some (.established v.established.length))
    established := v.established ++ [x] }

end View

/-- Entries may have been removed. -/
def Drops (channels channels' : DeviceId → Option ChannelState) : Prop :=
  ∀ peer, channels' peer = channels peer ∨ channels' peer = none

section Changes

variable (identity : Identity) (crypto : KeyAgreement PrivateKey Key)

/-- What an event may do. -/
inductive Change (e : Event PrivateKey Frame) (v : View PrivateKey Key) :
    View PrivateKey Key → Prop
  | drop {channels} (hdrops : Drops v.channels channels) : Change e v { v with channels }
  | begin {n peer pending channels} (h : v.handshakes[n]? = some (peer, .generating))
      (hdrops : Drops v.channels channels) :
      Change e v { v with channels, handshakes := v.handshakes.set n (peer, pending) }
  | start {peer} (h : v.channels peer = none) : Change e v (v.start peer)
  | call {hello} (h : e = .applyHello hello) : Change e v { v with calls := v.calls ++ [{ hello }] }
  | refuse {i hello} (hcall : v.calls[i]? = some ⟨hello, .verifying⟩) :
      Change e v (v.setStage i .done)
  | await {i hello peer n} (hcall : v.calls[i]? = some ⟨hello, .verifying⟩)
      (hverified : verifyHello identity hello = .ok peer)
      (h : v.channels peer.deviceId = some (.awaiting n)) :
      Change e v (v.setStage i (.beginning peer.deviceId n))
  | answer {i hello peer} (hcall : v.calls[i]? = some ⟨hello, .verifying⟩)
      (hverified : verifyHello identity hello = .ok peer)
      (h : ∀ n, v.channels peer.deviceId ≠ some (.awaiting n)) :
      Change e v ((v.start peer.deviceId).setStage i (.beginning peer.deviceId v.handshakes.length))
  | establish {i hello peer n peer' own privateKey}
      (hcall : v.calls[i]? = some ⟨hello, .beginning peer n⟩)
      (h : v.handshakes[n]? = some (peer', .ready own privateKey)) :
      Change e v (v.setStage i (.establishing peer n (establishChannel crypto identity.deviceId
        ⟨own.toSecureHelloFrame, privateKey⟩ hello.toSecureHelloFrame peer)))
  | fail {i hello peer n} (hcall : v.calls[i]? = some ⟨hello, .beginning peer n⟩) :
      Change e v (v.setStage i .done)
  | abandon {i hello peer n channels}
      (hcall : v.calls[i]? = some ⟨hello, .establishing peer n none⟩)
      (hdrops : Drops v.channels channels) (h : channels peer ≠ some (.awaiting n)) :
      Change e v ({ v with channels }.setStage i .done)
  | store {i hello peer n channel}
      (hcall : v.calls[i]? = some ⟨hello, .establishing peer n (some channel)⟩) :
      Change e v ((v.store peer ⟨n, i, channel⟩).setStage i .done)

end Changes

theorem drops_refl (channels : DeviceId → Option ChannelState) : Drops channels channels :=
  fun _ => .inl rfl

theorem drops_update (channels : DeviceId → Option ChannelState) (peer : DeviceId) :
    Drops channels (Function.update channels peer none) := by
  intro peer'
  grind

/-! ## The views of the operations -/

section Views

variable (s : State PrivateKey Key Frame)

theorem map_modify_self {α β : Type} {f : α → α} {g : α → β} (h : ∀ a, g (f a) = g a)
    (l : List α) (n : ℕ) : (l.modify n f).map g = l.map g := by
  refine List.ext_getElem? fun m => ?_
  grind

@[simp]
theorem view_settle (n : ℕ) (result : Except String ℕ) : (s.settle n result).view = s.view := by
  have h : (s.settle n result).handshakes.map (fun h => (h.peer, h.pending)) =
      s.handshakes.map fun h => (h.peer, h.pending) := by
    apply map_modify_self
    exact fun _ => rfl
  rw [State.view, h]
  rfl

@[simp]
theorem view_setChannel (peer : DeviceId) (state : Option ChannelState) :
    (s.setChannel peer state).view =
      { s.view with channels := Function.update s.channels peer state } := rfl

@[simp]
theorem view_start (peer : DeviceId) : (s.start peer).view = s.view.start peer := by
  simp [State.view, State.start, View.start, State.setChannel]

@[simp]
theorem view_setStage (call : ℕ) (stage : Stage Key) :
    (s.setStage call stage).view = s.view.setStage call stage := rfl

@[simp]
theorem view_store (peer : DeviceId) (x : Established Key Frame) :
    (s.store peer x).view = s.view.store peer ⟨x.handshake, x.call, x.channel⟩ := by
  have h : (s.store peer x).handshakes.map (fun h => (h.peer, h.pending)) =
      s.handshakes.map fun h => (h.peer, h.pending) := by
    apply map_modify_self
    exact fun _ => rfl
  rw [State.view, h]
  simp [State.view, State.store, View.store, State.settle, State.setChannel]

@[simp]
theorem view_setSealing (channel : ℕ) (f : Sealing Frame → Sealing Frame) :
    (s.setSealing channel f).view = s.view := by
  have h : (s.setSealing channel f).established.map
      (fun x => (⟨x.handshake, x.call, x.channel⟩ : Origin Key)) =
      s.established.map fun x => ⟨x.handshake, x.call, x.channel⟩ := by
    apply map_modify_self
    exact fun _ => rfl
  rw [State.view, h]
  rfl

theorem view_setPending {n : ℕ} {h : Handshake PrivateKey} (hn : s.handshakes[n]? = some h)
    (pending : Pending PrivateKey) :
    { s with handshakes := s.handshakes.modify n fun h => { h with pending } }.view =
      { s.view with handshakes := s.view.handshakes.set n (h.peer, pending) } := by
  grind [State.view, List.modify_eq_set_getElem?, List.map_set]

/-- Giving up a handshake removes at most its entry. -/
theorem view_abandon (peer : DeviceId) (n : ℕ) (reason : String) :
    ∃ channels, Drops s.channels channels ∧ channels peer ≠ some (.awaiting n) ∧
      (s.abandon peer n reason).view = { s.view with channels } := by
  rw [State.abandon]
  dsimp only
  by_cases h : s.channels peer = some (.awaiting n)
  · rw [if_pos h, view_setChannel, view_settle]
    exact ⟨_, drops_update _ peer, by simp, rfl⟩
  · rw [if_neg h, view_settle]
    exact ⟨s.channels, drops_refl _, h, rfl⟩

theorem view_forget (peer : DeviceId) :
    (s.forget peer).view = { s.view with channels := Function.update s.channels peer none } := by
  rw [State.forget]
  split
  · rw [view_setChannel, view_settle]
    rfl
  · rfl

theorem view_reset (reason : String) :
    (s.reset reason).view = { s.view with channels := fun _ => none } := by
  have h : (s.reset reason).handshakes.map (fun h => (h.peer, h.pending)) =
      s.handshakes.map fun h => (h.peer, h.pending) := by
    refine List.ext_getElem? fun m => ?_
    rw [List.getElem?_map, List.getElem?_map, State.reset, List.getElem?_mapIdx, Option.map_map]
    congr 1
    funext h
    simp only [Function.comp_apply]
    split <;> rfl
  rw [State.view, h]
  rfl

end Views

/-! ## Changes -/

section Next

variable {s : State PrivateKey Key Frame} {identity : Identity}
  {crypto : KeyAgreement PrivateKey Key} {codec : FrameCodec Frame} {e : Event PrivateKey Frame}

theorem change_refl (v : View PrivateKey Key) : Change identity crypto e v v :=
  .drop (drops_refl _)

theorem change_abandon (peer : DeviceId) (n : ℕ) (reason : String) :
    Change identity crypto e s.view (s.abandon peer n reason).view := by
  obtain ⟨channels, hdrops, -, heq⟩ := view_abandon s peer n reason
  rw [heq]
  exact .drop hdrops

theorem change_ensure (peer : DeviceId) :
    Change identity crypto e s.view (s.ensure peer).view := by
  rw [State.ensure]
  split
  next => exact change_refl _
  next => exact change_refl _
  next h =>
    change Change identity crypto e s.view (s.start peer).view
    rw [view_start]
    exact .start h

theorem change_begin (n : ℕ) (privateKey : PrivateKey) (nonce : Bytes) :
    Change identity crypto e s.view (s.begin identity crypto n privateKey nonce).1.view := by
  rw [State.begin]
  split
  next peer settled hn =>
    rw [view_setPending s hn]
    exact .begin (by simp [State.view, hn]) (drops_refl _)
  next => exact change_refl _

theorem change_failBegin (n : ℕ) (reason : String) :
    Change identity crypto e s.view (s.failBegin n reason).view := by
  rw [State.failBegin]
  split
  next peer settled hn =>
    obtain ⟨channels, hdrops, -, heq⟩ := view_abandon { s with
      handshakes := s.handshakes.modify n fun h => { h with pending := .failed } } peer n reason
    rw [heq, view_setPending s hn]
    exact .begin (by simp [State.view, hn]) hdrops
  next => exact change_refl _

theorem change_failSend (n : ℕ) (reason : String) :
    Change identity crypto e s.view (s.failSend n reason).view := by
  grind [State.failSend, change_abandon, change_refl]

theorem change_resume (call : ℕ) :
    Change identity crypto e s.view (s.resume identity crypto call).view := by
  rw [State.resume]
  split
  next => exact change_refl _
  next hello hcall =>
    split
    next => exact .refuse hcall
    next peer hverified =>
      rw [State.answer]
      split
      next n h => exact .await hcall hverified h
      next h =>
        rw [view_setStage, view_start, ← List.length_map]
        exact .answer hcall hverified h
  next hello peer n hcall =>
    rw [State.establish]
    split
    next own privateKey h =>
      obtain ⟨x, hx, hpending⟩ := Option.map_eq_some_iff.1 h
      have hn : s.view.handshakes[n]? = some (x.peer, .ready own privateKey) := by
        simp [State.view, hx, hpending]
      exact .establish hcall hn
    next => exact .fail hcall
    next => exact change_refl _
  next hello peer n channel hcall =>
    cases channel with
    | none =>
      obtain ⟨channels, hdrops, hne, heq⟩ :=
        view_abandon s peer n "the peer sent an unusable ephemeral key"
      rw [State.complete, view_setStage, heq]
      exact .abandon hcall hdrops hne
    | some channel =>
      rw [State.complete, view_setStage, view_store]
      exact .store hcall
  next => exact change_refl _

theorem change_next (s : State PrivateKey Key Frame) (e : Event PrivateKey Frame) :
    Change identity crypto e s.view (next identity crypto codec s e).view := by
  cases e with
  | ensure peer => exact change_ensure peer
  | applyHello hello => exact .call rfl
  | forget peer =>
    rw [next, step, view_forget]
    exact .drop (drops_update _ peer)
  | reset reason =>
    rw [next, step, view_reset]
    exact .drop fun _ => .inr rfl
  | begun n privateKey nonce => exact change_begin n privateKey nonce
  | beginFailed n reason => exact change_failBegin n reason
  | sendFailed n reason => exact change_failSend n reason
  | resume call => exact change_resume call
  | callSeal channel frame =>
    rw [next, step, view_setSealing]
    exact change_refl _
  | startSeal channel =>
    grind [State.startSeal, State.view, view_setSealing, next, step, change_refl]
  | finishSeal channel =>
    rw [next, step, view_setSealing]
    exact change_refl _

end Next

/-! ## What stays -/

/-- The handshakes and the calls of a view are still there in the other one. -/
@[grind cases]
structure View.Grows (v v' : View PrivateKey Key) : Prop where
  handshake : ∀ (n : ℕ) peer pending, v.handshakes[n]? = some (peer, pending) →
    ∃ pending', v'.handshakes[n]? = some (peer, pending') ∧
      ∀ own privateKey, pending = .ready own privateKey → pending' = .ready own privateKey
  call : ∀ (i : ℕ) hello stage, v.calls[i]? = some ⟨hello, stage⟩ →
    ∃ stage', v'.calls[i]? = some ⟨hello, stage'⟩

namespace View

variable {v v' v'' : View PrivateKey Key}

theorem grows_of_eq (hhandshakes : v'.handshakes = v.handshakes) (hcalls : v'.calls = v.calls) :
    v.Grows v' where
  handshake _ _ pending h := ⟨pending, hhandshakes ▸ h, fun _ _ hready => hready⟩
  call _ _ stage h := ⟨stage, hcalls ▸ h⟩

theorem Grows.trans (h : v.Grows v') (h' : v'.Grows v'') : v.Grows v'' where
  handshake n peer pending hn := by grind
  call i hello stage hi := by grind

theorem Grows.handshakes_le (h : v.Grows v') : v.handshakes.length ≤ v'.handshakes.length := by
  by_contra hlt
  rw [not_le] at hlt
  obtain ⟨pending, hn, -⟩ :=
    h.handshake v'.handshakes.length _ _ (List.getElem?_eq_getElem hlt)
  simp at hn

theorem Grows.calls_le (h : v.Grows v') : v.calls.length ≤ v'.calls.length := by
  by_contra hlt
  rw [not_le] at hlt
  obtain ⟨stage, hi⟩ := h.call v'.calls.length _ _ (List.getElem?_eq_getElem hlt)
  simp at hi

theorem grows_start (peer : DeviceId) : v.Grows (v.start peer) where
  handshake n peer' pending h := by grind [start]
  call _ _ stage h := ⟨stage, h⟩

theorem getElem?_setStage (v : View PrivateKey Key) (i j : ℕ) (stage : Stage Key) :
    (v.setStage i stage).calls[j]? =
      v.calls[j]?.map fun c => if i = j then { c with stage } else c := by
  rw [setStage, List.getElem?_modify]
  rfl

/-- What holds of the calls, and of a call at the await that it gets to. -/
theorem forall_setStage {P : ℕ → SecureHello → Stage Key → Prop} {i : ℕ} {hello : SecureHello}
    {stage stage' : Stage Key} (hcall : v.calls[i]? = some ⟨hello, stage⟩)
    (h : ∀ (j : ℕ) hello stage, v.calls[j]? = some ⟨hello, stage⟩ → P j hello stage)
    (hi : P i hello stage') (j : ℕ) (hello' : SecureHello) (stage'' : Stage Key)
    (hj : (v.setStage i stage').calls[j]? = some ⟨hello', stage''⟩) : P j hello' stage'' := by
  grind [getElem?_setStage]

/-- What holds of the calls, and of a new one. -/
theorem forall_concat {P : ℕ → SecureHello → Stage Key → Prop} {hello : SecureHello}
    (h : ∀ (j : ℕ) hello stage, v.calls[j]? = some ⟨hello, stage⟩ → P j hello stage)
    (hnew : P v.calls.length hello .verifying) (j : ℕ) (hello' : SecureHello) (stage : Stage Key)
    (hj : (v.calls ++ [⟨hello, .verifying⟩])[j]? = some ⟨hello', stage⟩) : P j hello' stage := by
  grind

theorem grows_setStage (i : ℕ) (stage : Stage Key) : v.Grows (v.setStage i stage) where
  handshake _ _ pending h := ⟨pending, h, fun _ _ hready => hready⟩
  call j hello stage' h := by grind [getElem?_setStage]

end View

variable {identity : Identity} {crypto : KeyAgreement PrivateKey Key} {e : Event PrivateKey Frame}
  {v v' : View PrivateKey Key}

theorem Change.grows (h : Change identity crypto e v v') : v.Grows v' := by
  cases h with
  | drop => exact View.grows_of_eq rfl rfl
  | @begin m _ pending' _ hm => constructor <;> grind
  | start h => exact View.grows_start _
  | call h =>
    refine ⟨fun _ _ pending hn => ⟨pending, hn, fun _ _ hready => hready⟩, ?_⟩
    intro i hello stage hi
    exact ⟨stage, by rw [List.getElem?_append_left (List.getElem?_eq_some_iff.1 hi).1, hi]⟩
  | refuse | await | establish | fail => exact View.grows_setStage _ _
  | answer => exact (View.grows_start _).trans (View.grows_setStage _ _)
  | abandon | store =>
    refine View.Grows.trans ?_ (View.grows_setStage _ _)
    exact View.grows_of_eq rfl rfl

/-! ## What the channels are derived from -/

section Derivation

variable (identity crypto)

/-- The hello is verified to be from the device. -/
def From (hello : SecureHello) (device : DeviceId) : Prop :=
  ∃ peer, verifyHello identity hello = .ok peer ∧ peer.deviceId = device

/-- The channel is that of the handshake, which is with `peer`, and the hello. -/
def Derives (v : View PrivateKey Key) (n : ℕ) (hello : SecureHello) (peer : DeviceId)
    (channel : Option (Channel Key)) : Prop :=
  ∃ own privateKey, v.handshakes[n]? = some (peer, .ready own privateKey) ∧
    channel = establishChannel crypto identity.deviceId ⟨own.toSecureHelloFrame, privateKey⟩
      hello.toSecureHelloFrame peer

/-- What holds of a call at its await. -/
def Held (v : View PrivateKey Key) (hello : SecureHello) : Stage Key → Prop
  | .verifying => True
  | .beginning peer n =>
    From identity hello peer ∧ ∃ pending, v.handshakes[n]? = some (peer, pending)
  | .establishing peer n channel =>
    From identity hello peer ∧ Derives identity crypto v n hello peer channel
  | .done => True

/-- An awaited handshake is one with its device, and so is that of a call; the channels are
    those that their handshakes and their hellos derive. -/
@[grind cases]
structure Derived (v : View PrivateKey Key) : Prop where
  awaited : ∀ peer n, v.channels peer = some (.awaiting n) →
    ∃ pending, v.handshakes[n]? = some (peer, pending)
  call : ∀ (i : ℕ) hello stage, v.calls[i]? = some ⟨hello, stage⟩ →
    Held identity crypto v hello stage
  established : ∀ x ∈ v.established, ∃ hello stage peer, v.calls[x.call]? = some ⟨hello, stage⟩ ∧
    From identity hello peer ∧ Derives identity crypto v x.handshake hello peer (some x.channel)

variable {identity crypto}

theorem Derives.grows {n : ℕ} {hello : SecureHello} {peer : DeviceId}
    {channel : Option (Channel Key)} (h : Derives identity crypto v n hello peer channel)
    (hgrows : v.Grows v') : Derives identity crypto v' n hello peer channel := by
  obtain ⟨own, privateKey, hn, heq⟩ := h
  obtain ⟨pending, hn', hready⟩ := hgrows.handshake n peer _ hn
  exact ⟨own, privateKey, by rw [hn', hready own privateKey rfl], heq⟩

theorem Held.grows {hello : SecureHello} {stage : Stage Key}
    (h : Held identity crypto v hello stage) (hgrows : v.Grows v') :
    Held identity crypto v' hello stage := by
  cases stage with
  | verifying | done => trivial
  | beginning peer n =>
    obtain ⟨hfrom, pending, hn⟩ := h
    obtain ⟨pending', hn', -⟩ := hgrows.handshake n peer pending hn
    exact ⟨hfrom, pending', hn'⟩
  | establishing peer n channel => exact ⟨h.1, h.2.grows hgrows⟩

theorem Drops.awaiting {channels channels' : DeviceId → Option ChannelState}
    (h : Drops channels channels') {peer : DeviceId} {state : ChannelState}
    (hstate : channels' peer = some state) : channels peer = some state := by
  rcases h peer with heq | hnone
  · rw [← heq, hstate]
  · rw [hnone] at hstate
    cases hstate

theorem getElem?_start (v : View PrivateKey Key) (peer : DeviceId) :
    (v.start peer).handshakes[v.handshakes.length]? = some (peer, .generating) := by
  simp [View.start]

/-- What the entries are after one is set. -/
theorem channels_update {channels : DeviceId → Option ChannelState} {peer peer' : DeviceId}
    {state state' : ChannelState}
    (h : Function.update channels peer (some state) peer' = some state') :
    peer' = peer ∧ state' = state ∨ peer' ≠ peer ∧ channels peer' = some state' := by grind

theorem Derived.awaited_change (h : Derived identity crypto v)
    (hchange : Change identity crypto e v v') {peer : DeviceId} {n : ℕ}
    (hn : v'.channels peer = some (.awaiting n)) :
    ∃ pending, v'.handshakes[n]? = some (peer, pending) := by
  have hkept (hn : v.channels peer = some (.awaiting n)) :
      ∃ pending, v'.handshakes[n]? = some (peer, pending) := by
    obtain ⟨pending, hpending⟩ := h.awaited peer n hn
    obtain ⟨pending', hpending', -⟩ := hchange.grows.handshake n peer pending hpending
    exact ⟨pending', hpending'⟩
  cases hchange with
  | drop hdrops => exact hkept (hdrops.awaiting hn)
  | begin _ hdrops => exact hkept (hdrops.awaiting hn)
  | abandon _ hdrops => exact hkept (hdrops.awaiting hn)
  | call | refuse | await | establish | fail => exact hkept hn
  | start =>
    rcases channels_update hn with ⟨rfl, heq⟩ | ⟨-, hn⟩
    · cases heq
      exact ⟨_, getElem?_start v peer⟩
    · exact hkept hn
  | answer =>
    rcases channels_update hn with ⟨rfl, heq⟩ | ⟨-, hn⟩
    · cases heq
      exact ⟨_, getElem?_start v _⟩
    · exact hkept hn
  | store =>
    rcases channels_update hn with ⟨-, heq⟩ | ⟨-, hn⟩
    · cases heq
    · exact hkept hn

theorem Derived.change (h : Derived identity crypto v) (hchange : Change identity crypto e v v') :
    Derived identity crypto v' := by
  have hgrows := hchange.grows
  have hcalls : ∀ (i : ℕ) hello stage, v.calls[i]? = some ⟨hello, stage⟩ →
      Held identity crypto v' hello stage :=
    fun i hello stage hi => (h.call i hello stage hi).grows hgrows
  have hestablished : ∀ x ∈ v.established, ∃ hello stage peer,
      v'.calls[x.call]? = some ⟨hello, stage⟩ ∧ From identity hello peer ∧
        Derives identity crypto v' x.handshake hello peer (some x.channel) := by
    grind [Derives.grows]
  refine ⟨fun peer n => h.awaited_change hchange, ?_, ?_⟩
  · cases hchange with
    | drop | begin | start => exact hcalls
    | call =>
      exact View.forall_concat hcalls trivial
    | refuse hcall | fail hcall => exact View.forall_setStage hcall hcalls trivial
    | abandon hcall => exact View.forall_setStage hcall hcalls trivial
    | store hcall => exact View.forall_setStage hcall hcalls trivial
    | await hcall hverified hawaiting =>
      exact View.forall_setStage hcall hcalls ⟨⟨_, hverified, rfl⟩, h.awaited _ _ hawaiting⟩
    | answer hcall hverified =>
      exact View.forall_setStage hcall hcalls ⟨⟨_, hverified, rfl⟩, _, getElem?_start v _⟩
    | @establish _ _ _ _ _ own privateKey hcall hn =>
      refine View.forall_setStage hcall hcalls ?_
      obtain ⟨hfrom, pending, hn'⟩ := h.call _ _ _ hcall
      cases hn.symm.trans hn'
      exact ⟨hfrom, own, privateKey, hn, rfl⟩
  · cases hchange with
    | store hcall =>
      intro x hx
      rcases List.mem_append.1 hx with hx | hx
      · exact hestablished x hx
      · cases List.mem_singleton.1 hx
        obtain ⟨stage, hcall'⟩ := hgrows.call _ _ _ hcall
        obtain ⟨hfrom, hderives⟩ := h.call _ _ _ hcall
        exact ⟨_, stage, _, hcall', hfrom, hderives.grows hgrows⟩
    | _ => exact hestablished

end Derivation

/-- What every change keeps holds of the views in a run. -/
theorem run_view {P : View PrivateKey Key → Prop} {codec : FrameCodec Frame}
    {s : State PrivateKey Key Frame} (hinit : P s.view)
    (hchange : ∀ (e : Event PrivateKey Frame) v v', P v → Change identity crypto e v v' → P v')
    (events : List (Event PrivateKey Frame)) :
    P (Machine.run (next identity crypto codec) s events).view :=
  Machine.run_invariant (P := fun t : State PrivateKey Key Frame => P t.view) hinit
    (fun t e h => hchange e _ _ h (change_next t e)) events

/-- Every channel of a run is the one that its handshake and its hello derive. -/
theorem derived_run (identity : Identity) (crypto : KeyAgreement PrivateKey Key)
    (codec : FrameCodec Frame) (events : List (Event PrivateKey Frame)) :
    Derived identity crypto (Machine.run (next identity crypto codec) .init events).view := by
  refine run_view ?_ (fun e v v' h hchange => h.change hchange) events
  constructor <;> grind [State.view, State.init]

end WireMesh.TypeScript.RelayChannels
