import WireMesh.Machine
import WireMesh.Rust.ThresholdParticipant
import WireMesh.SingleUse
import WireMesh.TypeScript.ThresholdParticipant

/-!
# Signing nonces

A nonce pair that has been generated is stored once, and taken from the store once: a participant
in either language refines a `Ledger`, in which it is stored, taken or signed with, and never more
than one of these. The message that is signed is that of a commitment which the participant has
authorised.

What a step of a loop does with the nonces and the shares of its participant is said once, by
`Effect`.
-/

namespace WireMesh.TypeScript.Threshold

open Machine

/-! ## What a step does -/

/-- What a loop has of nonces and shares. -/
structure Custody where
  /-- The nonces that have been taken from the store for a session, and not been used yet. -/
  held : Option (ℕ × Nonces)
  /-- The session of the share that has not been sent yet. -/
  minting : Option ℕ
  signings : List Signing
  releases : List Release

def Loop.custody (l : Loop) : Custody where
  held := match l.stage with
    | .taking params _ (.ok nonces) => some (params.sessionId, nonces)
    | _ => none
  minting := match l.stage with
    | .minting sessionId _ _ => some sessionId
    | _ => none
  signings := l.signings
  releases := l.releases

/-- The commitment that an event makes the loop handle. -/
def Loop.commits (l : Loop) : LoopEvent → Option ThresholdCommit
  | .verdict verified => match l.stage with
    | .authorising request => match authorizeIncomingRequest request verified, request.params with
      | .ok true, .commit params => some params
      | _, _ => none
    | _ => none
  | _ => none

/-- What a step of a loop does with nonces and shares. -/
inductive Effect (w : World) (l : Loop) (event : LoopEvent) : World → Custody → Prop
  | keep {c : Custody} (hc : c = l.custody) : Effect w l event w c
  /-- Whatever the loop has got is lost. -/
  | drop {c : Custody} (hc : c = { l.custody with held := none, minting := none }) :
      Effect w l event w c
  /-- A nonce pair is generated, and not stored. -/
  | lose {c : Custody} (hc : c = l.custody) :
      Effect w l event { w with generated := w.generated + 1 } c
  | persist {c : Custody} {params : ThresholdCommit} {bytes : Bytes}
      (hcommits : l.commits event = some params) (hdeadline : w.now < params.deadline)
      (hc : c = l.custody) :
      Effect w l event
        { w with
          store := w.store.set params.sessionId ⟨w.generated, bytes⟩
          generated := w.generated + 1 } c
  | discard {c : Custody} {sessionId : ℕ} (hc : c = l.custody) :
      Effect w l event { w with store := w.store.delete sessionId } c
  | take {c : Custody} {sessionId : ℕ} {nonces : Nonces}
      (hget : w.store.get sessionId = some nonces)
      (hc : c = { l.custody with held := some (sessionId, nonces), minting := none }) :
      Effect w l event { w with store := w.store.delete sessionId } c
  /-- The signature may give a share. -/
  | sign {c : Custody} {s : Signing} {m : Option ℕ}
      (hheld : l.custody.held = some (s.sessionId, s.nonces))
      (hminting : ∀ sessionId ∈ m, sessionId = s.sessionId)
      (hc : c = { l.custody with held := none, minting := m, signings := l.signings ++ [s] }) :
      Effect w l event w c
  | release {c : Custody} {r : Release} (hminting : l.custody.minting = some r.sessionId)
      (htime : r.time = w.now)
      (hc : c = { l.custody with held := none, minting := none, releases := l.releases ++ [r] }) :
      Effect w l event w c

section Effect

variable {o : Options} {w : World} {l : Loop} {event : LoopEvent}

/-- A loop that authorises a request has neither nonces nor a share. -/
theorem custody_of_authorising {request : Request} (hstage : l.stage = .authorising request) :
    { l.custody with held := none, minting := none } = l.custody := by
  simp [Loop.custody, hstage]

theorem effect_handleCommit {request : Request} (hstage : l.stage = .authorising request)
    {params : ThresholdCommit} (hcommits : l.commits event = some params) :
    Effect w l event (l.handleCommit o w params).1 (l.handleCommit o w params).2.custody := by
  unfold Loop.handleCommit
  split
  · exact .drop rfl
  next hdeadline =>
  split
  · exact .drop rfl
  split
  · exact .drop rfl
  split
  · exact .drop rfl
  dsimp only
  rw [NonceStore.persist]
  split
  next hpersist =>
    split at hpersist
    · exact .lose (custody_of_authorising hstage)
    · cases hpersist
  next hpersist =>
    split at hpersist
    · cases hpersist
    · obtain rfl := Except.ok.inj hpersist
      exact .persist hcommits (Nat.lt_of_not_le hdeadline) (custody_of_authorising hstage)

theorem effect_handleSign {request : Request} (hstage : l.stage = .authorising request)
    (params : ThresholdSign) :
    Effect w l event (l.handleSign w params).1 (l.handleSign w params).2.custody := by
  unfold Loop.handleSign
  split
  · exact .discard (custody_of_authorising hstage)
  dsimp only
  rw [NonceStore.take]
  split
  · exact .drop rfl
  next hget => exact .take hget rfl

theorem effect_sign {params : ThresholdSign} {state : SigningSessionState} {nonces : Nonces}
    (hstage : l.stage = .taking params state (.ok nonces)) :
    Effect w l event w (l.sign o params state nonces).custody := by
  have hheld : l.custody.held = some (params.sessionId, nonces) := by rw [Loop.custody, hstage]
  unfold Loop.sign
  split
  · exact .drop rfl
  dsimp only
  split
  · exact .sign (s := ⟨_, _, state.message⟩) (m := none) hheld (by simp) rfl
  · exact .sign (s := ⟨_, _, state.message⟩) (m := some params.sessionId) hheld (by simp) rfl

theorem effect_resume : Effect w l event w (l.resume o w).custody := by
  unfold Loop.resume
  split
  · exact .drop rfl
  · dsimp only
    split <;> exact .drop rfl
  · exact .drop rfl
  · exact .drop rfl
  next hstage => exact effect_sign hstage
  next hstage =>
    exact .release (r := ⟨_, _, _⟩) (by rw [Loop.custody, hstage]) rfl rfl
  · exact .drop rfl
  · exact .keep rfl

theorem effect_step (o : Options) (w : World) (l : Loop) (event : LoopEvent) :
    Effect w l event (step o w l event).1 (step o w l event).2.custody := by
  rcases event with request | verified | _
  · unfold step
    dsimp only
    split
    next hstage =>
      split
      · exact .keep rfl
      · exact .drop rfl
    · exact .keep rfl
  · unfold step
    dsimp only
    split
    next request hstage =>
      split
      · exact .drop rfl
      · exact .drop rfl
      next hverified =>
      split
      next hparams => grind [effect_handleCommit, Loop.commits]
      · exact effect_handleSign hstage _
      · exact .discard (custody_of_authorising hstage)
      · exact .drop rfl
      · exact .drop rfl
    · exact .keep rfl
  · exact effect_resume

end Effect

/-! ## Where nonces are -/

/-- Where a nonce pair may be: in the store, with a loop that has taken it, or used in one of the
    signing operations of a loop. -/
inductive NoncePlace (ι : Type)
  | stored (sessionId : ℕ)
  | taken (loop : ι)
  | signed (loop : ι) (number : ℕ)
deriving DecidableEq

variable {ι : Type}

def State.nonces (x : State ι) : NoncePlace ι → Option ℕ
  | .stored sessionId => (x.world.store.get sessionId).map Nonces.generation
  | .taken i => (x.loops i).custody.held.map fun held => held.2.generation
  | .signed i j => (x.loops i).signings[j]?.map fun s => s.nonces.generation

theorem nonces_signed {x : State ι} {i : ι} {j : ℕ} {s : Signing}
    (h : (x.loops i).signings[j]? = some s) :
    x.nonces (.signed i j) = some s.nonces.generation := by
  rw [State.nonces, h, Option.map_some]

section Nonces

variable [DecidableEq ι] {x : State ι} {i : ι} {w : World} {l : Loop} {event : LoopEvent}

/-- The places after loop `i` has taken a step. -/
theorem nonces_update (p : NoncePlace ι) :
    State.nonces { world := w, loops := Function.update x.loops i l } p = match p with
      | .stored sessionId => (w.store.get sessionId).map Nonces.generation
      | .taken k =>
        if k = i then l.custody.held.map fun held => held.2.generation else x.nonces (.taken k)
      | .signed k j =>
        if k = i then l.custody.signings[j]?.map fun s => s.nonces.generation
        else x.nonces (.signed k j) := by grind [State.nonces, Loop.custody]

theorem tracked_nonces_effect (h : Tracked x.nonces (Set.Iio x.world.generated))
    (heffect : Effect x.world (x.loops i) event w l.custody) :
    Tracked (State.nonces { world := w, loops := Function.update x.loops i l })
      (Set.Iio w.generated) := by
  have hsignings : (x.loops i).custody.signings = (x.loops i).signings := rfl
  generalize hcustody : l.custody = c at heffect
  -- In each case, the places are those that a rule of the ledger gives.
  cases heffect with
  | keep hc =>
    refine h.congr fun p => ?_
    rcases p <;> grind [nonces_update, State.nonces]
  | drop hc =>
    refine (h.drop (.taken i)).congr fun p => ?_
    rcases p <;> grind [nonces_update, State.nonces]
  | lose hc =>
    refine (h.mono (Set.Iio_subset_Iio (Nat.le_succ _))).congr fun p => ?_
    rcases p <;> grind [nonces_update, State.nonces]
  | @persist _ params _ hcommits hdeadline hc =>
    refine (h.issue_next (.stored params.sessionId)).congr fun p => ?_
    rcases p <;> grind [nonces_update, State.nonces, OrderedMap.get_set]
  | @discard _ sessionId hc =>
    refine (h.drop (.stored sessionId)).congr fun p => ?_
    rcases p <;> grind [nonces_update, State.nonces, OrderedMap.get_delete]
  | @take _ sessionId _ hget hc =>
    refine (h.move (.stored sessionId) (.taken i)).congr fun p => ?_
    rcases p <;> grind [nonces_update, State.nonces, OrderedMap.get_delete]
  | sign hheld hminting hc =>
    refine (h.move (.taken i) (.signed i (x.loops i).signings.length)).congr fun p => ?_
    rcases p <;> grind [nonces_update, State.nonces]
  | release hminting htime hc =>
    refine (h.drop (.taken i)).congr fun p => ?_
    rcases p <;> grind [nonces_update, State.nonces]

theorem tracked_nonces (options : ι → Options) (now : ℕ) (events : List (Event ι)) :
    Tracked (run (next options) (init now) events).nonces
      (Set.Iio (run (next options) (init now) events).world.generated) := by
  refine run_invariant (P := fun x : State ι => Tracked x.nonces (Set.Iio x.world.generated))
    ?_ ?_ events
  · have hnone : State.nonces (init now : State ι) = fun _ => none := by
      ext1 p
      rcases p <;> rfl
    rw [hnone]
    exact .empty _
  · rintro x (⟨i, event⟩ | now) h
    · exact tracked_nonces_effect h (effect_step _ _ _ _)
    · exact h

end Nonces

/-! ## What is signed -/

/-- The state of a session that the loop is at work on. -/
def Stage.state : Stage → Option SigningSessionState
  | .persisting _ state _ _ | .taking _ state _ | .minting _ state _ => some state
  | _ => none

/-- The loop has signed the message, or may come to sign it. -/
inductive Loop.Knows (l : Loop) (message : Bytes) : Prop
  | session {sessionId : ℕ} {state : SigningSessionState}
      (h : l.sessions.get sessionId = some state) (hmessage : state.message = message)
  | stage {state : SigningSessionState} (h : l.stage.state = some state)
      (hmessage : state.message = message)
  | signing {s : Signing} (h : s ∈ l.signings) (hmessage : s.message = message)

/-- The event makes the loop authorise a subject, for a commitment. -/
@[grind cases]
structure Authorises (o : Options) (w : World) (l : Loop) (event : LoopEvent)
    (params : ThresholdCommit) : Prop where
  commits : l.commits event = some params
  deadline : w.now < params.deadline
  decide : Loop.decide o params.subject = .authorise

section Knows

variable {o : Options} {w : World} {l : Loop} {event : LoopEvent} {message : Bytes}

/-- What a loop knows that is at work on nothing, or on what it has been at work on. -/
theorem Loop.Knows.of_le {l' : Loop} (h : l'.Knows message)
    (hsessions : ∀ {sessionId state}, l'.sessions.get sessionId = some state →
      l.sessions.get sessionId = some state ∨ l.stage.state = some state)
    (hstage : ∀ {state}, l'.stage.state = some state → l.Knows state.message)
    (hsignings : ∀ s ∈ l'.signings, s ∈ l.signings ∨ l.Knows s.message) : l.Knows message := by
  rcases h with ⟨hget, rfl⟩ | ⟨hget, rfl⟩ | ⟨hmem, rfl⟩
  · rcases hsessions hget with h | h
    · exact .session h rfl
    · exact .stage h rfl
  · exact hstage hget
  · rcases hsignings _ hmem with h | h
    · exact .signing h rfl
    · exact h

theorem Loop.Knows.of_idle {l' : Loop} (h : l'.Knows message) (hstage : l'.stage.state = none)
    (hsessions : ∀ {sessionId state}, l'.sessions.get sessionId = some state →
      l.sessions.get sessionId = some state) (hsignings : l'.signings = l.signings) :
    l.Knows message := by grind [of_le]

theorem knows_handleCommit {params : ThresholdCommit} (hcommits : l.commits event = some params)
    (h : (l.handleCommit o w params).2.Knows message) :
    l.Knows message ∨ Authorises o w l event params ∧ message = toBeSigned params.subject := by
  unfold Loop.handleCommit at h
  split at h
  · exact .inl (h.of_idle rfl id rfl)
  next hdeadline =>
  split at h
  · exact .inl (h.of_idle rfl id rfl)
  split at h
  · exact .inl (h.of_idle rfl id rfl)
  next hdecide =>
  split at h
  · exact .inl (h.of_idle rfl id rfl)
  have hauthorises : Authorises o w l event params :=
    ⟨hcommits, Nat.lt_of_not_le hdeadline, hdecide⟩
  -- Whether the nonces are stored or not, the loop waits with the state of the commitment.
  dsimp only at h
  split at h <;> rcases h with ⟨hget, rfl⟩ | ⟨hstate, rfl⟩ | ⟨hmem, rfl⟩
  · exact .inl (.session hget rfl)
  · obtain rfl := Option.some.inj hstate
    exact .inr ⟨hauthorises, rfl⟩
  · exact .inl (.signing hmem rfl)
  · exact .inl (.session hget rfl)
  · obtain rfl := Option.some.inj hstate
    exact .inr ⟨hauthorises, rfl⟩
  · exact .inl (.signing hmem rfl)

theorem knows_handleSign {params : ThresholdSign}
    (h : (l.handleSign w params).2.Knows message) : l.Knows message := by
  unfold Loop.handleSign at h
  split at h
  · exact h.of_idle rfl id rfl
  next hget =>
    refine h.of_le .inl (fun hstate => ?_) fun s hs => .inl hs
    obtain rfl := Option.some.inj hstate
    exact .session hget rfl

theorem knows_sign {params : ThresholdSign} {state : SigningSessionState} {nonces : Nonces}
    (hstage : l.stage.state = some state) (h : (l.sign o params state nonces).Knows message) :
    l.Knows message := by
  have hknows : l.Knows state.message := .stage hstage rfl
  unfold Loop.sign at h
  split at h
  · exact h.of_idle rfl id rfl
  dsimp only at h
  split at h
  all_goals
    refine h.of_le .inl (fun hstate => ?_) fun s hs => ?_
    · cases hstate <;> exact hknows
    · grind

theorem knows_resume (h : (l.resume o w).Knows message) : l.Knows message := by
  unfold Loop.resume at h
  split at h
  · exact h.of_idle rfl id rfl
  next sessionId state _ hstage =>
    have hsessions : ∀ {sessionId' state'},
        (l.sessions.set sessionId state).get sessionId' = some state' →
          l.sessions.get sessionId' = some state' ∨ l.stage.state = some state' := by
      intro sessionId' state' hget
      rw [OrderedMap.get_set] at hget
      split_ifs at hget
      · exact .inr (by rw [hstage]; exact hget)
      · exact .inl hget
    dsimp only at h
    split at h <;> exact h.of_le hsessions (fun hstate => by cases hstate) fun s hs => .inl hs
  · exact h.of_idle rfl id rfl
  · exact h.of_idle rfl (fun hget => (OrderedMap.get_delete_eq_some.1 hget).1) rfl
  next hstage => exact knows_sign (by rw [hstage]; rfl) h
  · exact h.of_idle rfl (fun hget => (OrderedMap.get_delete_eq_some.1 hget).1) rfl
  · exact h.of_idle rfl id rfl
  · exact h

theorem knows_step (h : (step o w l event).2.Knows message) :
    l.Knows message ∨
      ∃ params, Authorises o w l event params ∧ message = toBeSigned params.subject := by
  rcases event with request | verified | _
  · unfold step at h
    dsimp only at h
    split at h
    next hstage =>
      split at h
      · exact .inl (h.of_idle (by rw [hstage]; rfl) id rfl)
      · exact .inl (h.of_idle rfl id rfl)
    · exact .inl h
  · unfold step at h
    dsimp only at h
    split at h
    next request hstage =>
      split at h
      · exact .inl (h.of_idle rfl id rfl)
      · exact .inl (h.of_idle rfl id rfl)
      next hverified =>
      split at h
      next params hparams =>
        have hcommits : l.commits (.verdict verified) = some params := by
          simp only [Loop.commits, hstage, hverified, hparams]
        exact (knows_handleCommit hcommits h).imp_right fun h => ⟨params, h⟩
      · exact .inl (knows_handleSign h)
      · exact .inl (h.of_idle rfl (fun hget => (OrderedMap.get_delete_eq_some.1 hget).1) rfl)
      · exact .inl (h.of_idle rfl id rfl)
      · exact .inl (h.of_idle rfl id rfl)
    · exact .inl h
  · exact .inl (knows_resume h)

end Knows

section Run

variable [DecidableEq ι] {options : ι → Options} {now : ℕ} {events : List (Event ι)} {i : ι}
  {message : Bytes}

theorem loops_next_self (x : State ι) (event : LoopEvent) :
    (next options x (.loop i event)).loops i = (step (options i) x.world (x.loops i) event).2 :=
  Function.update_self ..

theorem loops_next_ne {k : ι} (h : i ≠ k) (x : State ι) (event : LoopEvent) :
    (next options x (.loop k event)).loops i = x.loops i := Function.update_of_ne h ..

/-- In the course of the events, a loop has authorised the subject of the message. -/
def Authorised (options : ι → Options) (now : ℕ) (events : List (Event ι)) (i : ι)
    (message : Bytes) : Prop :=
  ∃ before event after params, events = before ++ .loop i event :: after ∧
    Authorises (options i) (run (next options) (init now) before).world
      ((run (next options) (init now) before).loops i) event params ∧
    message = toBeSigned params.subject

theorem Authorised.append (h : Authorised options now events i message) (later : List (Event ι)) :
    Authorised options now (events ++ later) i message := by
  obtain ⟨before, event, after, params, rfl, h⟩ := h
  exact ⟨before, event, after ++ later, params, by simp, h⟩

theorem authorised_of_knows
    (h : ((run (next options) (init now) events).loops i).Knows message) :
    Authorised options now events i message := by
  induction events using List.reverseRecOn with
  | nil => rcases h with ⟨hget, -⟩ | ⟨hstate, -⟩ | ⟨hmem, -⟩ <;> contradiction
  | append_singleton events e ih =>
    rw [run_append, run_cons, run_nil] at h
    rcases e with ⟨k, event⟩ | now'
    · rcases eq_or_ne i k with rfl | hne
      · rw [loops_next_self] at h
        rcases knows_step h with h | ⟨params, hauthorises⟩
        · exact (ih h).append _
        · exact ⟨events, event, [], params, rfl, hauthorises⟩
      · rw [loops_next_ne hne] at h
        exact (ih h).append _
    · exact (ih h).append _

end Run

end WireMesh.TypeScript.Threshold

namespace WireMesh.Rust.Threshold

open Machine

variable {frost : Frost} {quote : String → String}

/-! ## What a call does -/

/-- What a commitment does, and returns. -/
inductive CommitOutcome (quote : String → String) (w : World) (context : CommitContext)
    (params : ThresholdCommit) :
    World × Except ParticipantError (CommitResponse × SigningSessionState) → Prop
  | refused {e : ParticipantError} : CommitOutcome quote w context params (w, .error e)
  /-- A nonce pair is generated, and not stored. -/
  | lost {e : ParticipantError} : CommitOutcome quote w context params
      ({ w with generated := w.generated + 1 }, .error e)
  | stored {bytes : Bytes} {result : Except ParticipantError (CommitResponse × SigningSessionState)}
      (hdeadline : w.now < params.deadline)
      (hdecide : decide quote context params.subject = .authorise)
      (hresult : ∀ response state, result = .ok (response, state) →
        state.message = toBeSigned params.subject) :
      CommitOutcome quote w context params
        ({ w with
            store := w.store.set params.sessionId ⟨w.generated, bytes⟩
            generated := w.generated + 1 }, result)

theorem handleThresholdCommit_outcome (frost : Frost) (quote : String → String) (w : World)
    (context : CommitContext) (params : ThresholdCommit) :
    CommitOutcome quote w context params (handleThresholdCommit frost quote w context params) := by
  unfold handleThresholdCommit
  split
  · exact .refused
  next hdeadline =>
  split
  · exact .refused
  split
  · exact .refused
  next hdecide =>
  dsimp only [round1Commit]
  rw [NonceStore.persist]
  cases w.store.get params.sessionId with
  | some nonces => exact .lost
  | none =>
    dsimp only [Except.map]
    split
    · refine .stored (Nat.lt_of_not_le hdeadline) hdecide fun response state h => ?_
      cases h
    · refine .stored (Nat.lt_of_not_le hdeadline) hdecide fun response state h => ?_
      grind

/-- What an event does with nonces and shares. -/
inductive Effect (quote : String → String) (x : State) : Event → State → Prop
  | keep {e : Event} : Effect quote x e x
  | clock {now : ℕ} : Effect quote x (.clock now) { x with world := { x.world with now } }
  /-- A nonce pair is generated, and not stored. -/
  | lose {e : Event} :
      Effect quote x e { x with world := { x.world with generated := x.world.generated + 1 } }
  /-- The state of the commitment may be lost. -/
  | persist {context : CommitContext} {params : ThresholdCommit} {bytes : Bytes}
      {states : List SigningSessionState} (hdeadline : x.world.now < params.deadline)
      (hdecide : decide quote context params.subject = .authorise)
      (hstates : ∀ s ∈ states, s ∈ x.states ∨ s.message = toBeSigned params.subject) :
      Effect quote x (.commit context params)
        { x with
          world :=
            { x.world with
              store := x.world.store.set params.sessionId ⟨x.world.generated, bytes⟩
              generated := x.world.generated + 1 }
          states }
  | discard {e : Event} {sessionId : ℕ} :
      Effect quote x e { x with world := { x.world with store := x.world.store.delete sessionId } }
  /-- The signature may give a share. -/
  | sign {e : Event} {sessionId : ℕ} {state : SigningSessionState} {nonces : Nonces}
      {minting : List Minting} (hstate : state ∈ x.states)
      (hget : x.world.store.get sessionId = some nonces)
      (hminting : minting = x.minting ∨
        ∃ m : Minting, m.sessionId = sessionId ∧ minting = x.minting ++ [m]) :
      Effect quote x e
        { x with
          world := { x.world with store := x.world.store.delete sessionId }
          signings := x.signings ++ [{ sessionId, nonces, message := state.message }]
          minting }
  | release {e : Event} {call : ℕ} {m : Minting} {r : Release} (hm : x.minting[call]? = some m)
      (hsession : r.sessionId = m.sessionId) (htime : r.time = x.world.now) :
      Effect quote x e
        { x with minting := x.minting.eraseIdx call, releases := x.releases ++ [r] }

theorem effect_commit (x : State) (context : CommitContext) (params : ThresholdCommit) :
    Effect quote x (.commit context params) (next frost quote x (.commit context params)) := by
  have houtcome := handleThresholdCommit_outcome frost quote x.world context params
  unfold next
  dsimp only
  generalize handleThresholdCommit frost quote x.world context params = outcome at houtcome ⊢
  cases houtcome with
  | refused => exact .keep
  | lost => exact .lose
  | @stored _ result hdeadline hdecide hresult =>
    rcases result with e | ⟨response, state⟩
    · exact .persist hdeadline hdecide fun s hs => .inl hs
    · refine .persist hdeadline hdecide fun s hs => ?_
      grind

theorem effect_sign (x : State) (context : SignContext) (params : ThresholdSign) (i : ℕ) :
    Effect quote x (.sign context params i) (next frost quote x (.sign context params i)) := by
  unfold next handleThresholdSign
  dsimp only
  split
  · exact .keep
  next state hstate =>
  cases commitmentsMap frost params.commitments with
  | error e => simpa using .keep
  | ok map =>
    dsimp only
    rw [NonceStore.take]
    cases hget : x.world.store.get params.sessionId with
    | none => simpa using .keep
    | some nonces =>
      dsimp only
      cases frost.sign _ nonces.bytes context.keyPackage with
      | error e => exact .sign (List.mem_of_getElem? hstate) hget (.inl rfl)
      | ok share => exact .sign (List.mem_of_getElem? hstate) hget (.inr ⟨_, rfl, rfl⟩)

theorem effect_next (x : State) (e : Event) : Effect quote x e (next frost quote x e) := by
  rcases e with ⟨context, params⟩ | ⟨context, params, i⟩ | sessionId | call | now
  · exact effect_commit x context params
  · exact effect_sign x context params i
  · exact .discard
  · unfold next
    dsimp only
    split
    · exact .keep
    next hm => exact .release hm rfl rfl
  · exact .clock

/-! ## Where nonces are -/

/-- Where a nonce pair may be: in the store, or used in one of the signing operations. -/
inductive NoncePlace
  | stored (sessionId : ℕ)
  | signed (number : ℕ)
deriving DecidableEq

def State.nonces (x : State) : NoncePlace → Option ℕ
  | .stored sessionId => (x.world.store.get sessionId).map Nonces.generation
  | .signed j => x.signings[j]?.map fun s => s.nonces.generation

theorem nonces_signed {x : State} {j : ℕ} {s : Signing} (h : x.signings[j]? = some s) :
    x.nonces (.signed j) = some s.nonces.generation := by
  rw [State.nonces, h, Option.map_some]

theorem tracked_nonces_effect {x x' : State} {e : Event}
    (h : Tracked x.nonces (Set.Iio x.world.generated)) (heffect : Effect quote x e x') :
    Tracked x'.nonces (Set.Iio x'.world.generated) := by
  cases heffect with
  | keep => exact h
  | clock => exact h
  | lose => exact h.mono (Set.Iio_subset_Iio (Nat.le_succ _))
  | @persist _ params =>
    refine (h.issue_next (.stored params.sessionId)).congr fun p => ?_
    rcases p <;> grind [State.nonces, OrderedMap.get_set]
  | @discard _ sessionId =>
    refine (h.drop (.stored sessionId)).congr fun p => ?_
    rcases p <;> grind [State.nonces, OrderedMap.get_delete]
  | @sign _ sessionId _ _ _ hstate hget =>
    refine (h.move (.stored sessionId) (.signed x.signings.length)).congr fun p => ?_
    rcases p <;> grind [State.nonces, OrderedMap.get_delete]
  | release => exact h

theorem tracked_nonces (frost : Frost) (quote : String → String) (now : ℕ) (events : List Event) :
    Tracked (run (next frost quote) (init now) events).nonces
      (Set.Iio (run (next frost quote) (init now) events).world.generated) := by
  refine run_invariant (P := fun x : State => Tracked x.nonces (Set.Iio x.world.generated))
    ?_ (fun x e h => tracked_nonces_effect h (effect_next x e)) events
  have hnone : State.nonces (init now) = fun _ => none := by
    ext1 p
    rcases p <;> rfl
  rw [hnone]
  exact .empty _

/-! ## What is signed -/

/-- In the course of the events, the subject of the message has been authorised. -/
def Authorised (frost : Frost) (quote : String → String) (now : ℕ) (events : List Event)
    (message : Bytes) : Prop :=
  ∃ before context params after, events = before ++ .commit context params :: after ∧
    (run (next frost quote) (init now) before).world.now < params.deadline ∧
    decide quote context params.subject = .authorise ∧ message = toBeSigned params.subject

theorem Authorised.append {now : ℕ} {events : List Event} {message : Bytes}
    (h : Authorised frost quote now events message) (later : List Event) :
    Authorised frost quote now (events ++ later) message := by
  obtain ⟨before, context, params, after, rfl, h⟩ := h
  exact ⟨before, context, params, after ++ later, by simp, h⟩

/-- Every message that has been signed, or may come to be signed, has been authorised. -/
@[grind cases]
structure State.Covered (x : State) (P : Bytes → Prop) : Prop where
  states : ∀ s ∈ x.states, P s.message
  signings : ∀ s ∈ x.signings, P s.message

theorem covered_effect {x x' : State} {e : Event} {P : Bytes → Prop} (h : x.Covered P)
    (heffect : Effect quote x e x')
    (hcommit : ∀ context params, e = .commit context params →
      x.world.now < params.deadline → decide quote context params.subject = .authorise →
        P (toBeSigned params.subject)) : x'.Covered P := by
  cases heffect with
  | keep => exact h
  | clock => exact ⟨h.states, h.signings⟩
  | lose => exact ⟨h.states, h.signings⟩
  | persist hdeadline hdecide hstates => constructor <;> grind
  | discard => exact ⟨h.states, h.signings⟩
  | sign hstate => constructor <;> grind
  | release => exact ⟨h.states, h.signings⟩

theorem covered_run (frost : Frost) (quote : String → String) (now : ℕ) (events : List Event) :
    (run (next frost quote) (init now) events).Covered (Authorised frost quote now events) := by
  induction events using List.reverseRecOn with
  | nil => exact ⟨by simp [init], by simp [init]⟩
  | append_singleton events e ih =>
    rw [run_append, run_cons, run_nil]
    have hbefore : (run (next frost quote) (init now) events).Covered
        (Authorised frost quote now (events ++ [e])) :=
      ⟨fun s hs => (ih.states s hs).append _, fun s hs => (ih.signings s hs).append _⟩
    refine covered_effect hbefore (effect_next _ e) ?_
    rintro context params rfl hdeadline hdecide
    exact ⟨events, context, params, [], rfl, hdeadline, hdecide, rfl⟩

end WireMesh.Rust.Threshold

namespace WireMesh

open Machine

/-- Among all signing operations of a participant, in any of its loops, no two are given the same
    nonce pair, and each is given the message of a subject which the participant has authorised. -/
theorem signing_nonces_single_use {ι : Type} [DecidableEq ι]
    (options : ι → TypeScript.Threshold.Options) (events : List (TypeScript.Threshold.Event ι))
    (frost : Rust.Threshold.Frost) (quote : String → String) (calls : List Rust.Threshold.Event)
    (now : ℕ) :
    (let x := run (TypeScript.Threshold.next options) (TypeScript.Threshold.init now) events
     (∀ (i i' : ι) (j j' : ℕ) (s s' : TypeScript.Threshold.Signing),
       (x.loops i).signings[j]? = some s → (x.loops i').signings[j']? = some s' →
         s.nonces.generation = s'.nonces.generation → i = i' ∧ j = j') ∧
     ∀ i, ∀ s ∈ (x.loops i).signings,
       TypeScript.Threshold.Authorised options now events i s.message) ∧
    let x := run (Rust.Threshold.next frost quote) (Rust.Threshold.init now) calls
    (∀ (j j' : ℕ) (s s' : Rust.Threshold.Signing),
      x.signings[j]? = some s → x.signings[j']? = some s' →
        s.nonces.generation = s'.nonces.generation → j = j') ∧
    ∀ s ∈ x.signings, Rust.Threshold.Authorised frost quote now calls s.message := by
  refine ⟨⟨fun i i' j j' s s' hs hs' heq => ?_, fun i s hs => ?_⟩, fun j j' s s' hs hs' heq => ?_,
    (Rust.Threshold.covered_run frost quote now calls).signings⟩
  · exact TypeScript.Threshold.NoncePlace.signed.inj
      ((TypeScript.Threshold.tracked_nonces options now events).unique
        (TypeScript.Threshold.nonces_signed hs) (heq ▸ TypeScript.Threshold.nonces_signed hs'))
  · exact TypeScript.Threshold.authorised_of_knows (.signing hs rfl)
  · exact Rust.Threshold.NoncePlace.signed.inj
      ((Rust.Threshold.tracked_nonces frost quote now calls).unique
        (Rust.Threshold.nonces_signed hs) (heq ▸ Rust.Threshold.nonces_signed hs'))

end WireMesh
