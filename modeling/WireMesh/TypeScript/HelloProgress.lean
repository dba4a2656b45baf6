import WireMesh.TypeScript.ChannelSteps
import WireMesh.TypeScript.HelloExchange

/-!
# A session in a round of hellos

A round starts when nothing is being done, and its peer sends one hello in it at most. How far a
session is in a round is `Progress`: it has not started, it awaits the answer to its hello, or it
has completed the handshake.
-/

namespace WireMesh.TypeScript.RelayChannels

open SecureChannel Machine

variable {PrivateKey Key Frame : Type}

/-! ## One side -/

section Side

variable (identity : Identity) (crypto : KeyAgreement PrivateKey Key) (peer : DeviceId)
  (base : State PrivateKey Key Frame)

/-- The state is one that a round can start from. -/
@[grind cases]
structure AtRest : Prop where
  settled : Exchange.Settled base
  channels : ∀ n, base.channels peer ≠ some (.awaiting n)

variable {peer base} in
theorem AtRest.forget (h : AtRest peer base) : AtRest peer (base.forget peer) := by
  have hforget : base.forget peer = base.setChannel peer none := by grind [State.forget]
  rw [hforget]
  exact ⟨h.settled, by simp [State.setChannel]⟩

variable {peer base} in
theorem AtRest.reset (h : AtRest peer base) (reason : String) :
    AtRest peer (base.reset reason) := by
  refine ⟨⟨fun y hy => ?_, h.settled.2⟩, by simp [State.reset]⟩
  obtain ⟨n, hn, rfl⟩ := List.mem_mapIdx.1 hy
  have hpending := h.settled.1 _ (List.getElem_mem hn)
  split
  · exact hpending
  · exact hpending

/-- The hello can complete a handshake with `peer`. -/
@[grind cases]
structure Genuine (hello : SecureHello) : Prop where
  isFrom : From identity hello peer
  usable : ∀ privateKey, (crypto.deriveBits privateKey hello.ephemeralKey).isSome

/-- What the calls of `ensure` in a round have got: the channel from before the round, or one
    of the given answers. -/
def Promised (ensured answers : List Ensured) : Prop :=
  ∀ a ∈ ensured, a ∈ base.ensured ∨
    (∃ channel, base.channels peer = some (.established channel) ∧ a = .returned channel) ∨
    a ∈ answers

/-- The handshake of a round, with the hello that was sent for it. -/
inductive Begins : Pending PrivateKey → List SecureHello → Prop
  | generating : Begins .generating []
  | ready {own privateKey nonce}
    (h : own = beginHandshake identity peer (crypto.publicKey privateKey) nonce) :
    Begins (.ready own privateKey) [own]

/-- The hello of a round is being verified, if it was given. -/
inductive Heard : List (HelloCall Key) → List SecureHello → Prop
  | nothing : Heard [] []
  | verifying (hello : SecureHello) : Heard [⟨hello, .verifying⟩] [hello]

/-- The call for the hello that was given in a round. -/
inductive Handles (pending : Pending PrivateKey) : List (HelloCall Key) → List SecureHello → Prop
  | heard {calls given} (h : Heard calls given) : Handles pending calls given
  | beginning (hello : SecureHello) :
    Handles pending [⟨hello, .beginning peer base.handshakes.length⟩] [hello]
  | establishing {hello own privateKey channel} (hpending : pending = .ready own privateKey)
    (h : establishChannel crypto identity.deviceId ⟨own.toSecureHelloFrame, privateKey⟩
      hello.toSecureHelloFrame peer = some channel) :
    Handles pending [⟨hello, .establishing peer base.handshakes.length (some channel)⟩] [hello]

/-- No handshake of the round has been started. -/
def idleState (calls : List (HelloCall Key)) (ensured : List Ensured) :
    State PrivateKey Key Frame :=
  { base with calls := base.calls ++ calls, ensured }

/-- The handshake of the round is awaited. -/
def awaitingState (pending : Pending PrivateKey) (calls : List (HelloCall Key))
    (ensured : List Ensured) : State PrivateKey Key Frame :=
  { base with
    channels := Function.update base.channels peer (some (.awaiting base.handshakes.length))
    handshakes := base.handshakes ++ [{ peer, pending }]
    calls := base.calls ++ calls
    ensured }

/-- The handshake of the round is completed. -/
def finishedState (own : SecureHello) (privateKey : PrivateKey) (hello : SecureHello)
    (channel : Channel Key) (ensured : List Ensured) : State PrivateKey Key Frame :=
  { base with
    channels := Function.update base.channels peer (some (.established base.established.length))
    handshakes := base.handshakes ++
      [{ peer, pending := .ready own privateKey, settled := some (.ok base.established.length) }]
    calls := base.calls ++ [⟨hello, .done⟩]
    established := base.established ++
      [{ handshake := base.handshakes.length, call := base.calls.length, channel }]
    ensured }

variable {peer base} in
theorem AtRest.finishedState (h : AtRest peer base) (own : SecureHello) (privateKey : PrivateKey)
    (hello : SecureHello) (channel : Channel Key) :
    AtRest peer (finishedState peer base own privateKey hello channel base.ensured) where
  settled := by
    refine ⟨fun y hy => ?_, fun call hcall => ?_⟩
    · rcases List.mem_append.1 hy with hold | hnew
      · exact h.settled.1 y hold
      · rw [List.mem_singleton.1 hnew]
        rfl
    · rcases List.mem_append.1 hcall with hold | hnew
      · exact h.settled.2 call hold
      · rw [List.mem_singleton.1 hnew]
        rfl
  channels := by simp [RelayChannels.finishedState]

/-- How far a side is in a round: its state, the hellos that it has sent, and those that it was
    given. -/
inductive Progress :
    State PrivateKey Key Frame → List SecureHello → List SecureHello → Prop
  | idle {calls ensured given} (hheard : Heard calls given)
    (hensured : Promised peer base ensured []) : Progress (idleState base calls ensured) [] given
  | awaiting {pending calls ensured sent given} (hbegins : Begins identity crypto peer pending sent)
    (hhandles : Handles identity crypto peer base pending calls given)
    (hensured : Promised peer base ensured [.waits base.handshakes.length]) :
    Progress (awaitingState peer base pending calls ensured) sent given
  | finished {own privateKey hello channel ensured}
    (hbegins : Begins identity crypto peer (.ready own privateKey) [own])
    (h : establishChannel crypto identity.deviceId ⟨own.toSecureHelloFrame, privateKey⟩
      hello.toSecureHelloFrame peer = some channel)
    (hensured : Promised peer base ensured
      [.waits base.handshakes.length, .returned base.established.length]) :
    Progress (finishedState peer base own privateKey hello channel ensured) [own] [hello]

end Side

/-! ## The calls of `ensure` -/

section Calls

theorem ensured_abandon (s : State PrivateKey Key Frame) (peer : DeviceId) (n : ℕ)
    (reason : String) : (s.abandon peer n reason).ensured = s.ensured := by
  rw [State.abandon, apply_ite State.ensured]
  exact ite_self _

theorem ensured_resume (identity : Identity) (crypto : KeyAgreement PrivateKey Key)
    (s : State PrivateKey Key Frame) (call : ℕ) :
    (s.resume identity crypto call).ensured = s.ensured := by
  rw [State.resume]
  split
  · rfl
  · split
    · rfl
    · rw [State.answer]
      split <;> rfl
  · rw [State.establish]
    split <;> rfl
  · unfold State.complete
    split
    · exact ensured_abandon ..
    · rfl
  · rfl

/-- What the calls of `ensure` have got is kept. -/
theorem ensured_prefix_step (identity : Identity) (crypto : KeyAgreement PrivateKey Key)
    (codec : FrameCodec Frame) (s : State PrivateKey Key Frame)
    (e : Event PrivateKey Frame) : s.ensured <+: (step identity crypto codec s e).1.ensured := by
  cases e with
  | ensure peer => grind [step, State.ensure]
  | applyHello hello => exact List.prefix_rfl
  | forget peer =>
    simp only [step, State.forget]
    split <;> exact List.prefix_rfl
  | reset reason => exact List.prefix_rfl
  | begun n privateKey nonce => grind [step, State.begin]
  | beginFailed n reason => grind [step, State.failBegin, ensured_abandon]
  | sendFailed n reason => grind [step, State.failSend, ensured_abandon]
  | resume call =>
    rw [step, ensured_resume]
  | callSeal channel frame => exact List.prefix_rfl
  | startSeal channel => exact List.prefix_rfl
  | finishSeal channel => exact List.prefix_rfl

theorem ensured_ensure_ne_nil (s : State PrivateKey Key Frame) (peer : DeviceId) :
    (s.ensure peer).ensured ≠ [] := by
  rw [State.ensure]
  split <;> simp

/-- The channel that a call of `ensure` has got. -/
def Ensured.got (s : State PrivateKey Key Frame) : Ensured → Option ℕ
  | returned channel => some channel
  | waits n => match s.handshakes[n]?.bind Handshake.settled with
    | some (.ok channel) => some channel
    | _ => none

/-- The channel with `peer`, which every call of `ensure` has got. -/
@[grind cases]
structure State.Agreed (s : State PrivateKey Key Frame) (peer : DeviceId) (n : ℕ)
    (y : Established Key Frame) : Prop where
  channels : s.channels peer = some (.established n)
  established : s.established[n]? = some y
  ensured : ∀ a ∈ s.ensured, a.got s = some n

end Calls

section Steps

variable {identity : Identity} {crypto : KeyAgreement PrivateKey Key} {peer : DeviceId}
  {base s : State PrivateKey Key Frame} {sent given : List SecureHello}

theorem Promised.mono {ensured answers answers' : List Ensured}
    (h : Promised peer base ensured answers) (hsub : answers ⊆ answers') :
    Promised peer base ensured answers' :=
  fun a ha => (h a ha).imp_right (Or.imp_right fun ha => hsub ha)

theorem Promised.concat {ensured answers : List Ensured} {a : Ensured}
    (h : Promised peer base ensured answers)
    (ha : (∃ channel, base.channels peer = some (.established channel) ∧ a = .returned channel) ∨
      a ∈ answers) : Promised peer base (ensured ++ [a]) answers := by
  intro b hb
  rcases List.mem_append.1 hb with hb | hb
  · exact h b hb
  · rw [List.mem_singleton.1 hb]
    exact .inr ha

/-- The first call of `ensure` in a round starts the handshake. -/
theorem Progress.ensure (hrest : AtRest peer base)
    (h : Progress identity crypto peer base s sent given) :
    Progress identity crypto peer base (s.ensure peer) sent given := by
  cases h with
  | @idle calls ensured _ hheard hensured =>
    cases hchannel : base.channels peer with
    | none =>
      have hstate : (idleState base calls ensured).ensure peer =
          awaitingState peer base .generating calls
            (ensured ++ [.waits base.handshakes.length]) := by
        simp [State.ensure, hchannel, idleState, awaitingState, State.start, State.setChannel]
      rw [hstate]
      exact .awaiting .generating (.heard hheard)
        ((hensured.mono (List.nil_subset _)).concat (.inr List.mem_cons_self))
    | some state =>
      cases state with
      | awaiting n => exact absurd hchannel (hrest.channels n)
      | established channel =>
        have hstate : (idleState base calls ensured).ensure peer =
            idleState base calls (ensured ++ [.returned channel]) := by
          simp [State.ensure, idleState, hchannel]
        rw [hstate]
        exact .idle hheard (hensured.concat (.inl ⟨channel, hchannel, rfl⟩))
  | @awaiting pending calls ensured _ _ hbegins hhandles hensured =>
    have hstate : (awaitingState peer base pending calls ensured).ensure peer =
        awaitingState peer base pending calls (ensured ++ [.waits base.handshakes.length]) := by
      simp [State.ensure, awaitingState]
    rw [hstate]
    exact .awaiting hbegins hhandles (hensured.concat (.inr List.mem_cons_self))
  | @finished own privateKey hello channel ensured hbegins h hensured =>
    have hstate : (finishedState peer base own privateKey hello channel ensured).ensure peer =
        finishedState peer base own privateKey hello channel
          (ensured ++ [.returned base.established.length]) := by
      simp [State.ensure, finishedState]
    rw [hstate]
    exact .finished hbegins h (hensured.concat (.inr (by simp)))

/-- The first hello that is given in a round. -/
theorem Progress.apply (h : Progress identity crypto peer base s sent [])
    (hello : SecureHello) :
    Progress identity crypto peer base { s with calls := s.calls ++ [⟨hello, .verifying⟩] } sent
      [hello] := by
  generalize hgiven : ([] : List SecureHello) = given at h
  cases h with
  | @idle calls ensured _ hheard hensured =>
    cases hheard with
    | nothing =>
      have hstate : { idleState base [] ensured with
          calls := (idleState base [] ensured).calls ++ [⟨hello, .verifying⟩] } =
          idleState base [⟨hello, .verifying⟩] ensured := by
        simp [idleState]
      rw [hstate]
      exact .idle (.verifying hello) hensured
    | verifying => cases hgiven
  | @awaiting pending calls ensured _ _ hbegins hhandles hensured =>
    cases hhandles with
    | heard hheard =>
      cases hheard with
      | nothing =>
        have hstate : { awaitingState peer base pending [] ensured with
            calls := (awaitingState peer base pending [] ensured).calls ++ [⟨hello, .verifying⟩] } =
            awaitingState peer base pending [⟨hello, .verifying⟩] ensured := by
          simp [awaitingState]
        rw [hstate]
        exact .awaiting hbegins (.heard (.verifying hello)) hensured
      | verifying => cases hgiven
    | beginning | establishing => cases hgiven
  | finished => cases hgiven

theorem begin_of_settled {n : ℕ} {privateKey : PrivateKey} {nonce : Bytes}
    (h : ∀ x, s.handshakes[n]? = some x → x.pending.isGenerating = false) :
    s.begin identity crypto n privateKey nonce = (s, []) := by
  rw [State.begin]
  split
  next peer settled hn => cases h _ hn
  next => rfl

theorem modify_concat {α : Type} (l : List α) (a : α) (f : α → α) :
    (l ++ [a]).modify l.length f = l ++ [f a] := by grind [List.modify_eq_set_getElem?]

/-- The hello of a round is sent. -/
theorem begin_awaitingState (calls : List (HelloCall Key)) (ensured : List Ensured)
    (privateKey : PrivateKey) (nonce : Bytes) :
    (awaitingState peer base .generating calls ensured).begin identity crypto
        base.handshakes.length privateKey nonce =
      (awaitingState peer base
        (.ready (beginHandshake identity peer (crypto.publicKey privateKey) nonce) privateKey)
        calls ensured,
      [beginHandshake identity peer (crypto.publicKey privateKey) nonce]) := by
  simp only [State.begin, awaitingState, List.getElem?_concat_length, modify_concat]

/-- A handshake from before the round does not send another hello; that of the round sends
    its own. -/
theorem Progress.begin (hrest : AtRest peer base)
    (h : Progress identity crypto peer base s sent given) (n : ℕ) (privateKey : PrivateKey)
    (nonce : Bytes) :
    Progress identity crypto peer base (s.begin identity crypto n privateKey nonce).1
      (sent ++ (s.begin identity crypto n privateKey nonce).2) given := by
  have hold {x : Handshake PrivateKey} (hx : base.handshakes[n]? = some x) :
      x.pending.isGenerating = false := hrest.settled.1 x (List.mem_of_getElem? hx)
  have hsame (hbegin : s.begin identity crypto n privateKey nonce = (s, [])) :
      Progress identity crypto peer base (s.begin identity crypto n privateKey nonce).1
        (sent ++ (s.begin identity crypto n privateKey nonce).2) given := by
    rw [hbegin, List.append_nil]
    exact h
  cases h with
  | idle => exact hsame (begin_of_settled fun x hx => hold hx)
  | @awaiting pending calls ensured _ _ hbegins hhandles hensured =>
    cases hbegins with
    | ready =>
      refine hsame (begin_of_settled fun x hx => ?_)
      rcases getElem?_concat hx with hx | ⟨-, rfl⟩
      · exact hold hx
      · rfl
    | generating =>
      by_cases hn : n = base.handshakes.length
      · subst hn
        rw [begin_awaitingState]
        refine .awaiting (.ready rfl) ?_ hensured
        cases hhandles with
        | heard hheard => exact .heard hheard
        | beginning hello => exact .beginning hello
        | establishing hpending => cases hpending
      · refine hsame (begin_of_settled fun x hx => ?_)
        rcases getElem?_concat hx with hx | ⟨heq, -⟩
        · exact hold hx
        · exact absurd heq hn
  | finished =>
    refine hsame (begin_of_settled fun x hx => ?_)
    rcases getElem?_concat hx with hx | ⟨-, rfl⟩
    · exact hold hx
    · rfl

theorem resume_of_done {i : ℕ} (h : ∀ c, s.calls[i]? = some c → c.stage.isDone) :
    s.resume identity crypto i = s := by
  rw [State.resume]
  split
  next => rfl
  next hi => cases h _ hi
  next hi => cases h _ hi
  next hi => cases h _ hi
  next => rfl

/-- The hello of a round is verified. -/
theorem resume_verifying {calls : List (HelloCall Key)} {hello : SecureHello}
    (hcalls : s.calls = calls ++ [⟨hello, .verifying⟩]) (hfrom : From identity hello peer) :
    s.resume identity crypto calls.length = s.answer calls.length peer := by
  obtain ⟨verified, hverified, rfl⟩ := hfrom
  simp only [State.resume, hcalls, List.getElem?_concat_length, hverified]

/-- The handshake that is to be completed has been begun. -/
theorem resume_beginning {calls : List (HelloCall Key)} {hello : SecureHello} {n : ℕ}
    (hcalls : s.calls = calls ++ [⟨hello, .beginning peer n⟩]) :
    s.resume identity crypto calls.length =
      s.establish identity crypto calls.length hello peer n := by
  simp only [State.resume, hcalls, List.getElem?_concat_length]

theorem resume_establishing {calls : List (HelloCall Key)} {hello : SecureHello} {n : ℕ}
    {channel : Option (Channel Key)}
    (hcalls : s.calls = calls ++ [⟨hello, .establishing peer n channel⟩]) :
    s.resume identity crypto calls.length = s.complete calls.length peer n channel := by
  simp only [State.resume, hcalls, List.getElem?_concat_length]

/-- The channel of two usable hellos. -/
theorem Genuine.establishChannel {hello : SecureHello}
    (h : Genuine identity crypto peer hello) (pending : PendingHandshake PrivateKey) :
    ∃ channel, establishChannel crypto identity.deviceId pending hello.toSecureHelloFrame peer =
      some channel := by
  obtain ⟨secret, hsecret⟩ := Option.isSome_iff_exists.1 (h.usable pending.privateKey)
  rw [SecureChannel.establishChannel, hsecret]
  exact ⟨_, rfl⟩

/-- The hello of the other side is the first of the round, and is answered. -/
theorem answer_idleState (hrest : AtRest peer base) (hello : SecureHello)
    (ensured : List Ensured) :
    (idleState base [⟨hello, .verifying⟩] ensured).answer base.calls.length peer =
      awaitingState peer base .generating [⟨hello, .beginning peer base.handshakes.length⟩]
        ensured := by
  rw [State.answer]
  grind [idleState, awaitingState, State.start, State.setChannel, State.setStage, modify_concat]

/-- The hello of the other side is the answer to that of this one. -/
theorem answer_awaitingState (pending : Pending PrivateKey) (hello : SecureHello)
    (ensured : List Ensured) :
    (awaitingState peer base pending [⟨hello, .verifying⟩] ensured).answer base.calls.length peer =
      awaitingState peer base pending [⟨hello, .beginning peer base.handshakes.length⟩]
        ensured := by
  simp [State.answer, awaitingState, State.setStage, modify_concat]

theorem establish_generating (hello : SecureHello) (ensured : List Ensured) :
    let t := awaitingState peer base .generating [⟨hello, .beginning peer base.handshakes.length⟩]
      ensured
    t.establish identity crypto base.calls.length hello peer base.handshakes.length = t := by
  simp [State.establish, awaitingState]

theorem establish_ready {own hello : SecureHello} {privateKey : PrivateKey} {channel : Channel Key}
    (h : establishChannel crypto identity.deviceId ⟨own.toSecureHelloFrame, privateKey⟩
      hello.toSecureHelloFrame peer = some channel) (ensured : List Ensured) :
    (awaitingState peer base (.ready own privateKey)
        [⟨hello, .beginning peer base.handshakes.length⟩] ensured).establish identity crypto
        base.calls.length hello peer base.handshakes.length =
      awaitingState peer base (.ready own privateKey)
        [⟨hello, .establishing peer base.handshakes.length (some channel)⟩] ensured := by
  simp [State.establish, awaitingState, State.setStage, modify_concat, h]

theorem complete_awaitingState (own hello : SecureHello) (privateKey : PrivateKey)
    (channel : Channel Key) (ensured : List Ensured) :
    (awaitingState peer base (.ready own privateKey)
        [⟨hello, .establishing peer base.handshakes.length (some channel)⟩] ensured).complete
        base.calls.length peer base.handshakes.length (some channel) =
      finishedState peer base own privateKey hello channel ensured := by
  simp [State.complete, awaitingState, finishedState, State.setStage, State.store,
    State.setChannel, State.settle, Handshake.settle, modify_concat]

/-- The call of a round that the other side has started, from the hello to the channel. -/
theorem resume_idleState (hrest : AtRest peer base) {hello : SecureHello}
    (hfrom : From identity hello peer) (ensured : List Ensured) :
    (idleState base [⟨hello, .verifying⟩] ensured).resume identity crypto base.calls.length =
      awaitingState peer base .generating [⟨hello, .beginning peer base.handshakes.length⟩]
        ensured := by
  rw [resume_verifying rfl hfrom, answer_idleState hrest]

theorem resume_ready {own hello : SecureHello} {privateKey : PrivateKey} {channel : Channel Key}
    (h : establishChannel crypto identity.deviceId ⟨own.toSecureHelloFrame, privateKey⟩
      hello.toSecureHelloFrame peer = some channel) (ensured : List Ensured) :
    (awaitingState peer base (.ready own privateKey)
        [⟨hello, .beginning peer base.handshakes.length⟩] ensured).resume identity crypto
        base.calls.length =
      awaitingState peer base (.ready own privateKey)
        [⟨hello, .establishing peer base.handshakes.length (some channel)⟩] ensured := by
  rw [resume_beginning rfl, establish_ready h]

theorem resume_established (own hello : SecureHello) (privateKey : PrivateKey)
    (channel : Channel Key) (ensured : List Ensured) :
    (awaitingState peer base (.ready own privateKey)
        [⟨hello, .establishing peer base.handshakes.length (some channel)⟩] ensured).resume identity
        crypto base.calls.length =
      finishedState peer base own privateKey hello channel ensured := by
  rw [resume_establishing rfl, complete_awaitingState]

/-- The call of the round gets further. -/
theorem Handles.resume {pending : Pending PrivateKey} {calls : List (HelloCall Key)}
    {ensured : List Ensured} (hbegins : Begins identity crypto peer pending sent)
    (hhandles : Handles identity crypto peer base pending calls given)
    (hensured : Promised peer base ensured [.waits base.handshakes.length])
    (hgenuine : ∀ hello ∈ given, Genuine identity crypto peer hello) (hcalls : calls ≠ []) :
    Progress identity crypto peer base ((awaitingState peer base pending calls ensured).resume
      identity crypto base.calls.length) sent given := by
  cases hhandles with
  | heard hheard =>
    cases hheard with
    | nothing => exact absurd rfl hcalls
    | verifying hello =>
      rw [resume_verifying rfl (hgenuine hello List.mem_cons_self).isFrom, answer_awaitingState]
      exact .awaiting hbegins (.beginning hello) hensured
  | beginning hello =>
    cases hbegins with
    | generating =>
      rw [resume_beginning rfl, establish_generating]
      exact .awaiting .generating (.beginning hello) hensured
    | @ready own privateKey nonce h =>
      obtain ⟨channel, hchannel⟩ :=
        (hgenuine hello List.mem_cons_self).establishChannel ⟨own.toSecureHelloFrame, privateKey⟩
      rw [resume_ready hchannel]
      exact .awaiting (.ready h) (.establishing rfl hchannel) hensured
  | establishing hpending hchannel =>
    subst hpending
    cases hbegins with
    | ready h =>
      rw [resume_established]
      exact .finished (.ready h) hchannel (hensured.mono (by simp))

theorem Progress.resume (hrest : AtRest peer base)
    (h : Progress identity crypto peer base s sent given)
    (hgenuine : ∀ hello ∈ given, Genuine identity crypto peer hello) (i : ℕ) :
    Progress identity crypto peer base (s.resume identity crypto i) sent given := by
  by_cases hdone : ∀ c, s.calls[i]? = some c → c.stage.isDone
  · rw [resume_of_done hdone]
    exact h
  · -- Only the call of the round has not returned.
    push Not at hdone
    obtain ⟨c, hc, hbusy⟩ := hdone
    have hold (hc : base.calls[i]? = some c) : False :=
      hbusy (hrest.settled.2 c (List.mem_of_getElem? hc))
    cases h with
    | @idle calls ensured _ hheard hensured =>
      cases hheard with
      | nothing => exact (hold (by simpa [idleState] using hc)).elim
      | verifying hello =>
        obtain hc | ⟨rfl, -⟩ := getElem?_concat hc
        · exact (hold hc).elim
        · rw [resume_idleState hrest (hgenuine hello List.mem_cons_self).isFrom]
          exact .awaiting .generating (.beginning hello) (hensured.mono (List.nil_subset _))
    | @awaiting pending calls ensured _ _ hbegins hhandles hensured =>
      obtain ⟨c', rfl⟩ : ∃ c', calls = [c'] := by
        cases hhandles with
        | heard hheard =>
          cases hheard with
          | nothing => exact (hold (by simpa [awaitingState] using hc)).elim
          | verifying => exact ⟨_, rfl⟩
        | beginning | establishing => exact ⟨_, rfl⟩
      obtain hc | ⟨rfl, -⟩ := getElem?_concat hc
      · exact (hold hc).elim
      · exact hhandles.resume hbegins hensured hgenuine (List.cons_ne_nil _ _)
    | finished hbegins h hensured =>
      obtain hc | ⟨-, rfl⟩ := getElem?_concat hc
      · exact (hold hc).elim
      · exact absurd rfl hbusy

end Steps

section Cases

variable {crypto : KeyAgreement PrivateKey Key}

/-- What a side has sent in a round. -/
theorem Progress.sent_cases {identity : Identity} {peer : DeviceId}
    {b s : State PrivateKey Key Frame} {sent given : List SecureHello}
    (h : Progress identity crypto peer b s sent given) :
    sent = [] ∨ ∃ privateKey nonce,
      sent = [beginHandshake identity peer (crypto.publicKey privateKey) nonce] := by
  have hbegins {pending : Pending PrivateKey} (h : Begins identity crypto peer pending sent) :
      sent = [] ∨ ∃ privateKey nonce,
        sent = [beginHandshake identity peer (crypto.publicKey privateKey) nonce] := by
    cases h with
    | generating => exact .inl rfl
    | ready hown => exact .inr ⟨_, _, by rw [hown]⟩
  cases h with
  | idle => exact .inl rfl
  | awaiting h => exact hbegins h
  | finished h => exact hbegins h

/-- A side has completed its handshake. -/
def Finished (identity : Identity) (crypto : KeyAgreement PrivateKey Key) (peer : DeviceId)
    (b s : State PrivateKey Key Frame) (sent given : List SecureHello) : Prop :=
  ∃ own privateKey hello channel ensured, sent = [own] ∧ given = [hello] ∧
    own.ephemeralKey = crypto.publicKey privateKey ∧
    establishChannel crypto identity.deviceId ⟨own.toSecureHelloFrame, privateKey⟩
      hello.toSecureHelloFrame peer = some channel ∧
    Promised peer b ensured [.waits b.handshakes.length, .returned b.established.length] ∧
    s = finishedState peer b own privateKey hello channel ensured

/-- Where nothing is being done, a side has not started, waits for an answer, or has completed
    its handshake. -/
theorem Progress.settled_cases {identity : Identity} {peer : DeviceId}
    {b s : State PrivateKey Key Frame} {sent given : List SecureHello}
    (h : Progress identity crypto peer b s sent given) (hsettled : Exchange.Settled s) :
    (∃ ensured, s = idleState b [] ensured ∧ Promised peer b ensured [] ∧ sent = [] ∧ given = []) ∨
    sent ≠ [] ∧ given = [] ∨ Finished identity crypto peer b s sent given := by
  obtain ⟨hhandshakes, hcalls⟩ := hsettled
  cases h with
  | @idle calls ensured _ hheard hensured =>
    cases hheard with
    | nothing => exact .inl ⟨ensured, rfl, hensured, rfl, rfl⟩
    | verifying => cases hcalls _ (List.mem_append_right _ List.mem_cons_self)
  | @awaiting pending calls ensured _ _ hbegins hhandles hensured =>
    cases hbegins with
    | generating => cases hhandshakes _ (List.mem_append_right _ List.mem_cons_self)
    | ready hown =>
      cases hhandles with
      | heard hheard =>
        cases hheard with
        | nothing => exact .inr (.inl ⟨List.cons_ne_nil _ _, rfl⟩)
        | verifying => cases hcalls _ (List.mem_append_right _ List.mem_cons_self)
      | beginning | establishing => cases hcalls _ (List.mem_append_right _ List.mem_cons_self)
  | finished hbegins h hensured =>
    cases hbegins with
    | ready hown => exact .inr (.inr ⟨_, _, _, _, _, rfl, rfl, by rw [hown]; rfl, h, hensured, rfl⟩)

end Cases

end WireMesh.TypeScript.RelayChannels
