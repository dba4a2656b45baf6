import WireMesh.TypeScript.HelloProgress

/-!
# Rounds of hellos

Two sessions exchange hellos in rounds. A round starts when nothing is on the way, with a call
of `ensure`, and each side sends one hello in it; at its end both hold the channel of the two
hellos (`handshake_converges`). A session that forgets the other one in the middle of a round
breaks it: its peer may have answered already, and each of the two then takes every hello of
the other one for the first one of a round (`hellos_unbounded`). If the sessions only forget
between rounds, at most two hellos are sent for each call of `ensure` (`hellos_bounded`).
-/

namespace WireMesh.TypeScript.RelayChannels

open SecureChannel Machine

variable {PrivateKey Key Frame : Type}

/-! ## Both sides -/

namespace Exchange

variable (identities : Side → Identity) (crypto : KeyAgreement PrivateKey Key)

/-- Each side can check the signatures of the other one, and use its keys. -/
@[grind cases]
structure Honest : Prop where
  derive : ∀ side : Side, (identities side).deriveDeviceId
    (identities side.other).identityKey.publicKey = (identities side.other).deviceId
  verify : ∀ (side : Side) message, (identities side).verify (identities side.other).identityKey
    message ((identities side.other).sign message) = .ok true
  usable : ∀ privateKey privateKey',
    (crypto.deriveBits privateKey (crypto.publicKey privateKey')).isSome

/-- A round can start. -/
def Rest (x : Exchange PrivateKey Key Frame) : Prop :=
  ∀ side : Side, AtRest (identities side.other).deviceId (x.ends side) ∧
    x.received side = (x.sent side.other).length

/-- A round that has started from `base`: how far each side is, and what it has sent and was
    given in the round. -/
@[grind cases]
structure Round (base x : Exchange PrivateKey Key Frame) (sent given : Side → List SecureHello) :
    Prop where
  progress : ∀ side : Side, Progress (identities side) crypto (identities side.other).deviceId
    (base.ends side) (x.ends side) (sent side) (given side)
  sent_eq : ∀ side, x.sent side = base.sent side ++ sent side
  received_eq : ∀ side : Side,
    x.received side = (base.sent side.other).length + (given side).length
  given_le : ∀ side : Side, given side <+: sent side.other

end Exchange

section Both

variable {identities : Side → Identity} {crypto : KeyAgreement PrivateKey Key}
  {codec : FrameCodec Frame} {base x : Exchange PrivateKey Key Frame}
  {sent given : Side → List SecureHello}

@[simp]
theorem other_other (side : Side) : side.other.other = side := by cases side <;> rfl

theorem other_ne (side : Side) : side.other ≠ side := by cases side <;> decide

theorem eq_or_eq_other (side side' : Side) : side' = side ∨ side' = side.other := by
  cases side <;> cases side' <;> decide

theorem Exchange.honest_sampleIdentities : Honest sampleIdentities sampleCrypto where
  derive side := by cases side <;> rfl
  verify side message := by cases side <;> rfl
  usable privateKey privateKey' := rfl

theorem Exchange.Honest.genuine (h : Honest identities crypto) (side : Side)
    (privateKey : PrivateKey) (nonce : Bytes) :
    Genuine (identities side) crypto (identities side.other).deviceId
      (beginHandshake (identities side.other) (identities side).deviceId
        (crypto.publicKey privateKey) nonce) where
  isFrom := by
    refine ⟨⟨(identities side.other).deviceId, (identities side.other).identityKey⟩, ?_, rfl⟩
    simp [verifyHello, beginHandshake, h.derive, h.verify]
  usable privateKey' := h.usable privateKey' privateKey

/-- The hellos that a side is given in a round are those of the other side. -/
theorem Exchange.Round.genuine (h : Round identities crypto base x sent given)
    (hhonest : Honest identities crypto) (side : Side) :
    ∀ hello ∈ given side,
      Genuine (identities side) crypto (identities side.other).deviceId hello := by
  intro hello hmem
  have hsent := (h.given_le side).subset hmem
  rcases (h.progress side.other).sent_cases with hnil | ⟨privateKey, nonce, hone⟩
  · rw [hnil] at hsent
    cases hsent
  · rw [hone, List.mem_singleton, other_other] at hsent
    rw [hsent]
    exact hhonest.genuine side privateKey nonce

namespace Exchange

theorem act_ends (x : Exchange PrivateKey Key Frame) (side : Side)
    (e : RelayChannels.Event PrivateKey Frame) :
    (x.act identities crypto codec side e).ends side =
      (step (identities side) crypto codec (x.ends side) e).1 := by
  simp [act]

theorem act_ends_other (x : Exchange PrivateKey Key Frame) (side : Side)
    (e : RelayChannels.Event PrivateKey Frame) :
    (x.act identities crypto codec side e).ends side.other = x.ends side.other := by
  simp [act, other_ne]

theorem act_sent (x : Exchange PrivateKey Key Frame) (side : Side)
    (e : RelayChannels.Event PrivateKey Frame) :
    (x.act identities crypto codec side e).sent side =
      x.sent side ++ (step (identities side) crypto codec (x.ends side) e).2 := by
  simp [act]

theorem act_sent_other (x : Exchange PrivateKey Key Frame) (side : Side)
    (e : RelayChannels.Event PrivateKey Frame) :
    (x.act identities crypto codec side e).sent side.other = x.sent side.other := by
  simp [act, other_ne]

namespace Round

/-- A side gets further in the round. -/
theorem act (h : Round identities crypto base x sent given) (codec : FrameCodec Frame)
    (side : Side) (e : RelayChannels.Event PrivateKey Frame)
    (hprogress : Progress (identities side) crypto (identities side.other).deviceId
      (base.ends side) (step (identities side) crypto codec (x.ends side) e).1
      (sent side ++ (step (identities side) crypto codec (x.ends side) e).2) (given side)) :
    ∃ sent', Round identities crypto base (x.act identities crypto codec side e) sent' given := by
  refine ⟨Function.update sent side
    (sent side ++ (step (identities side) crypto codec (x.ends side) e).2), ?_, ?_, ?_, ?_⟩
  · intro side'
    rcases eq_or_eq_other side side' with rfl | rfl
    · rw [act_ends, Function.update_self]
      exact hprogress
    · grind [act_ends_other, other_ne]
  · intro side'
    rcases eq_or_eq_other side side' with rfl | rfl
    · rw [act_sent, Function.update_self, h.sent_eq, List.append_assoc]
    · rw [act_sent_other, Function.update_of_ne (other_ne side), h.sent_eq]
  · exact h.received_eq
  · grind

/-- A hello of the other side arrives. -/
theorem deliver (h : Round identities crypto base x sent given) {side : Side} {hello : SecureHello}
    (hhello : (x.sent side.other)[x.received side]? = some hello) :
    ∃ given', Round identities crypto base
      { x.act identities crypto codec side (.applyHello hello) with
        received := Function.update x.received side (x.received side + 1) } sent given' := by
  -- It is the only one that the other side has sent in the round.
  rw [h.sent_eq, h.received_eq, List.getElem?_append_right (Nat.le_add_right _ _),
    Nat.add_sub_cancel_left] at hhello
  obtain ⟨hgiven, hone⟩ : given side = [] ∧ sent side.other = [hello] := by
    have hlt := (List.getElem?_eq_some_iff.1 hhello).1
    rcases (h.progress side.other).sent_cases with hnil | ⟨privateKey, nonce, hone⟩
    · rw [hnil] at hlt
      cases hlt
    · grind
  have hprogress := h.progress side
  rw [hgiven] at hprogress
  refine ⟨Function.update given side [hello], ?_, ?_, ?_, ?_⟩
  · intro side'
    rcases eq_or_eq_other side side' with rfl | rfl
    · change Progress _ _ _ _ ((x.act identities crypto codec side' (.applyHello hello)).ends side')
        _ _
      rw [Function.update_self, act_ends]
      exact hprogress.apply hello
    · grind [other_ne, act_ends_other]
  · intro side'
    change (x.act identities crypto codec side (.applyHello hello)).sent side' = _
    rcases eq_or_eq_other side side' with rfl | rfl
    · rw [act_sent, h.sent_eq]
      exact List.append_nil _
    · rw [act_sent_other, h.sent_eq]
  · grind
  · grind

/-- Neither side forgets. -/
theorem next (hrest : Rest identities base) (hhonest : Honest identities crypto)
    (h : Round identities crypto base x sent given) {e : Event PrivateKey}
    (he : e.forgets = false) :
    ∃ sent' given',
      Round identities crypto base (x.next identities crypto codec e) sent' given' := by
  cases e with
  | ensure side =>
    obtain ⟨sent', hround⟩ := h.act codec side (.ensure (identities side.other).deviceId) (by
      rw [step, List.append_nil]
      exact (h.progress side).ensure (hrest side).1)
    exact ⟨sent', given, hround⟩
  | forget side => cases he
  | reset side reason => cases he
  | begun side n privateKey nonce =>
    obtain ⟨sent', hround⟩ := h.act codec side (.begun n privateKey nonce)
      ((h.progress side).begin (hrest side).1 n privateKey nonce)
    exact ⟨sent', given, hround⟩
  | resume side call =>
    obtain ⟨sent', hround⟩ := h.act codec side (.resume call) (by
      rw [step, List.append_nil]
      exact (h.progress side).resume (hrest side).1 (h.genuine hhonest side) call)
    exact ⟨sent', given, hround⟩
  | deliver side =>
    rw [Exchange.next]
    split
    · exact ⟨sent, given, h⟩
    next hello hhello =>
      obtain ⟨given', hround⟩ := h.deliver hhello
      exact ⟨sent, given', hround⟩

/-- The first round starts where nothing has happened. -/
theorem refl (hrest : Rest identities x) :
    Round identities crypto x x (fun _ => []) fun _ => [] where
  progress side := by
    have hidle : idleState (x.ends side) [] (x.ends side).ensured = x.ends side := by
      simp [idleState]
    have hprogress : Progress (identities side) crypto (identities side.other).deviceId
        (x.ends side) (idleState (x.ends side) [] (x.ends side).ensured) [] [] :=
      .idle .nothing fun a ha => .inl ha
    rwa [hidle] at hprogress
  sent_eq side := (List.append_nil _).symm
  received_eq side := (hrest side).2
  given_le side := List.nil_prefix

/-- When nothing is on the way or being done, the round has not started, or both sides have
    completed it. -/
theorem quiet (h : Round identities crypto base x sent given) (hquiet : Quiet x) :
    (∀ side, given side = sent side.other) ∧
    ((∀ side, ∃ ensured, x.ends side = idleState (base.ends side) [] ensured ∧
        Promised (identities side.other).deviceId (base.ends side) ensured [] ∧ sent side = []) ∨
      ∀ side, Finished (identities side) crypto (identities side.other).deviceId (base.ends side)
        (x.ends side) (sent side) (given side)) := by
  have hgiven (side : Side) : given side = sent side.other := by
    obtain ⟨hreceived, -⟩ := hquiet side
    grind [List.IsPrefix.eq_of_length]
  refine ⟨hgiven, ?_⟩
  have hcases (side : Side) := (h.progress side).settled_cases (hquiet side).2
  -- What one side has sent, the other one was given.
  have hother {side : Side} (hsent : sent side ≠ []) :
      Finished (identities side.other) crypto (identities side.other.other).deviceId
        (base.ends side.other) (x.ends side.other) (sent side.other) (given side.other) := by
    grind [other_other]
  have hback {side : Side} (hsent : sent side ≠ []) :
      Finished (identities side) crypto (identities side.other).deviceId (base.ends side)
        (x.ends side) (sent side) (given side) := by
    obtain ⟨own, _, _, _, _, hone, -⟩ := hother hsent
    grind
  by_cases hsent : ∃ side, sent side ≠ []
  · obtain ⟨side, hsent⟩ := hsent
    refine .inr fun side' => ?_
    rcases eq_or_eq_other side side' with rfl | rfl
    · exact hback hsent
    · exact hother hsent
  · push Not at hsent
    refine .inl fun side => ?_
    rcases hcases side with ⟨ensured, heq, hensured, hnil, -⟩ | ⟨hne, -⟩ | hfinished
    · exact ⟨ensured, heq, hensured, hnil⟩
    · exact absurd (hsent side) hne
    · obtain ⟨own, _, _, _, _, hone, -⟩ := hfinished
      rw [hsent side] at hone
      cases hone

/-- At its end, another round can start. -/
theorem rest (h : Round identities crypto base x sent given) (hrest : Rest identities base)
    (hquiet : Quiet x) : Rest identities x := by
  intro side
  refine ⟨⟨(hquiet side).2, fun n => ?_⟩, (hquiet side).1⟩
  rcases (h.quiet hquiet).2 with hidle | hfinished
  · obtain ⟨ensured, heq, -⟩ := hidle side
    rw [heq]
    exact (hrest side).1.channels n
  · obtain ⟨own, privateKey, hello, channel, ensured, -, -, -, -, -, heq⟩ := hfinished side
    rw [heq]
    simp [finishedState]

/-- Each side sends one hello at most. -/
theorem hellos_le (h : Round identities crypto base x sent given) :
    x.hellos ≤ base.hellos + 2 := by
  have hside (side : Side) : (x.sent side).length ≤ (base.sent side).length + 1 := by
    rw [h.sent_eq, List.length_append]
    rcases (h.progress side).sent_cases with hnil | ⟨_, _, hone⟩
    · simp [hnil]
    · simp [hone]
  grind [hellos]

end Round

/-! ## Runs -/

theorem rest_init : Rest identities (init : Exchange PrivateKey Key Frame) :=
  fun _ => ⟨⟨⟨by simp [init, State.init], by simp [init, State.init]⟩, by simp [init, State.init]⟩,
    rfl⟩

theorem act_eq_self {side : Side} {e : RelayChannels.Event PrivateKey Frame}
    (h : step (identities side) crypto codec (x.ends side) e = (x.ends side, [])) :
    x.act identities crypto codec side e = x := by
  simp [act, h]

/-- Between two rounds, nothing goes on by itself. -/
theorem Rest.next_eq (h : Rest identities x) {e : Event PrivateKey} (hensure : e.isEnsure = false)
    (hforgets : e.forgets = false) : x.next identities crypto codec e = x := by
  cases e with
  | ensure => cases hensure
  | forget | reset => cases hforgets
  | begun side n privateKey nonce =>
    refine act_eq_self (begin_of_settled fun y hy => ?_)
    exact (h side).1.settled.1 y (List.mem_of_getElem? hy)
  | resume side call =>
    have hresume : (x.ends side).resume (identities side) crypto call = x.ends side :=
      resume_of_done fun c hc => (h side).1.settled.2 c (List.mem_of_getElem? hc)
    refine act_eq_self ?_
    rw [step, hresume]
  | deliver side =>
    have hnone : (x.sent side.other)[x.received side]? = none := by
      rw [(h side).2]
      simp
    rw [Exchange.next, hnone]

theorem Rest.act (h : Rest identities x) {side : Side}
    {e : RelayChannels.Event PrivateKey Frame} {s : State PrivateKey Key Frame}
    (hstep : step (identities side) crypto codec (x.ends side) e = (s, []))
    (hs : AtRest (identities side.other).deviceId s) :
    Rest identities (x.act identities crypto codec side e) ∧
      (x.act identities crypto codec side e).hellos = x.hellos := by
  have hsent : (x.act identities crypto codec side e).sent = x.sent := by
    simp [Exchange.act, hstep]
  refine ⟨fun side' => ?_, by rw [hellos, hellos, hsent]⟩
  rw [hsent]
  refine ⟨?_, (h side').2⟩
  rcases eq_or_eq_other side side' with rfl | rfl
  · simpa [Exchange.act, hstep] using hs
  · simpa [Exchange.act, hstep, other_ne] using (h side.other).1

/-- Between two rounds, a session may forget the other one. -/
theorem Rest.forgets (h : Rest identities x) {e : Event PrivateKey} (he : e.forgets) :
    Rest identities (x.next identities crypto codec e) ∧
      (x.next identities crypto codec e).hellos = x.hellos := by
  cases e with
  | forget side => exact h.act rfl (h side).1.forget
  | reset side reason => exact h.act rfl ((h side).1.reset reason)
  | ensure | begun | resume | deliver => cases he

variable (identities crypto codec) in
/-- The run is in a round that one of its calls of `ensure` has started. -/
def InRound (events : List (Event PrivateKey)) (x : Exchange PrivateKey Key Frame) : Prop :=
  ∃ base sent given rounds, Rest identities base ∧ base.hellos ≤ 2 * rounds ∧
    Round identities crypto base x sent given ∧
    (rounds < events.countP Event.isEnsure ∨ rounds = events.countP Event.isEnsure ∧ x = base)

theorem InRound.hellos_le {events : List (Event PrivateKey)}
    (h : InRound identities crypto events x) : x.hellos ≤ 2 * events.countP Event.isEnsure := by
  obtain ⟨base, sent, given, rounds, -, hrounds, hround, hcount⟩ := h
  have hhellos := hround.hellos_le
  grind

/-- It is, as long as the sessions forget each other between two rounds only. -/
theorem InRound.next (hhonest : Honest identities crypto) {past : List (Event PrivateKey)}
    {e : Event PrivateKey} (h : InRound identities crypto past x) (he : e.forgets → Quiet x) :
    InRound identities crypto (past ++ [e]) (x.next identities crypto codec e) := by
  have hle := h.hellos_le
  obtain ⟨base, sent, given, rounds, hrest, hrounds, hround, hcount⟩ := h
  have hpast : (past ++ [e]).countP Event.isEnsure =
      past.countP Event.isEnsure + if e.isEnsure then 1 else 0 := by
    simp [List.countP_cons]
  by_cases hforgets : e.forgets
  -- The next round starts from what is left.
  · have hx : Rest identities x := hround.rest hrest (he hforgets)
    obtain ⟨hnext, hhellos⟩ : Rest identities (x.next identities crypto codec e) ∧
        (x.next identities crypto codec e).hellos = x.hellos := hx.forgets hforgets
    have hensure : e.isEnsure = false := by cases e <;> simp_all [Event.forgets, Event.isEnsure]
    refine ⟨_, _, _, past.countP Event.isEnsure, hnext, by omega, .refl hnext, .inr ⟨?_, rfl⟩⟩
    simp [hpast, hensure]
  · have hforgets' : e.forgets = false := by simpa using hforgets
    obtain ⟨sent', given', hround'⟩ : ∃ sent' given', Round identities crypto base
        (x.next identities crypto codec e) sent' given' := hround.next hrest hhonest hforgets'
    by_cases hensure : e.isEnsure
    · refine ⟨base, sent', given', rounds, hrest, hrounds, hround', .inl ?_⟩
      simp only [hpast, hensure, if_true]
      omega
    · refine ⟨base, sent', given', rounds, hrest, hrounds, hround', ?_⟩
      grind [Rest.next_eq]

/-- As long as the sessions forget each other only when nothing is on the way or being done, each
    call of `ensure` costs two hellos at most. -/
theorem hellos_bounded (identities : Side → Identity) (crypto : KeyAgreement PrivateKey Key)
    (codec : FrameCodec Frame) (hhonest : Honest identities crypto)
    (events : List (Event PrivateKey))
    (hforgets : Along (next identities crypto codec) (fun x e => e.forgets → Quiet x) init events) :
    (run (next identities crypto codec) init events).hellos ≤
      2 * events.countP Event.isEnsure := by
  have hrun : InRound identities crypto events
      (run (next identities crypto codec) init events) := by
    induction events using List.reverseRecOn with
    | nil =>
      exact ⟨_, _, _, 0, rest_init, Nat.le_refl 0, .refl rest_init, .inr ⟨rfl, rfl⟩⟩
    | append_singleton events e ih =>
      obtain ⟨hbefore, he⟩ := hforgets.concat
      rw [run_append]
      exact (ih hbefore).next hhonest he
  exact hrun.hellos_le

/-- The left side starts a round, and the right side answers. -/
def sampleRound : List (Event UInt8) :=
  [.ensure .left, .begun .left 0 1 [7], .deliver .right, .resume .right 0, .ensure .right,
    .begun .right 0 2 [8], .resume .right 0, .resume .right 0, .deliver .left, .resume .left 0,
    .resume .left 0, .resume .left 0]

/-- After the first round, the left side forgets the right one, and starts another round. -/
theorem hellos_bounded_sample : (run (next sampleIdentities sampleCrypto sampleCodec) init
    (sampleRound ++ [.forget .left, .ensure .left, .begun .left 1 3 [9]])).hellos ≤ 6 :=
  hellos_bounded sampleIdentities sampleCrypto sampleCodec honest_sampleIdentities _
    (by decide +kernel)

/-! ## Hellos without end -/

variable (identities crypto) in
/-- Neither session awaits an answer, but a hello is on its way to the given side. -/
@[grind cases]
structure Pinging (side : Side) (x : Exchange PrivateKey Key Frame) : Prop where
  rest : ∀ side : Side, AtRest (identities side.other).deviceId (x.ends side)
  arriving : ∃ earlier hello, x.sent side.other = earlier ++ [hello] ∧
    x.received side = earlier.length ∧
    Genuine (identities side) crypto (identities side.other).deviceId hello
  received_other : x.received side.other = (x.sent side).length

/-- A hello arrives, and is answered. -/
def answering (x : Exchange PrivateKey Key Frame) (side : Side) (privateKey : PrivateKey)
    (nonce : Bytes) : List (Event PrivateKey) :=
  let call := (x.ends side).calls.length
  [.deliver side, .resume side call, .begun side (x.ends side).handshakes.length privateKey nonce,
    .resume side call, .resume side call]

/-- The answer is taken for a first hello in turn. -/
theorem Pinging.answering (hhonest : Honest identities crypto) {side : Side}
    (h : Pinging identities crypto side x) (privateKey : PrivateKey) (nonce : Bytes) :
    let x' := run (next identities crypto codec) x (answering x side privateKey nonce)
    Pinging identities crypto side.other x' ∧ x'.hellos = x.hellos + 1 := by
  obtain ⟨earlier, hello, hsent, hreceived, hgenuine⟩ := h.arriving
  let own := beginHandshake (identities side) (identities side.other).deviceId
    (crypto.publicKey privateKey) nonce
  obtain ⟨channel, hchannel⟩ := hgenuine.establishChannel ⟨own.toSecureHelloFrame, privateKey⟩
  have hrun : run (next identities crypto codec) x (Exchange.answering x side privateKey nonce) =
      { ends := Function.update x.ends side (finishedState (identities side.other).deviceId
          (x.ends side) own privateKey hello channel (x.ends side).ensured)
        sent := Function.update x.sent side (x.sent side ++ [own])
        received := Function.update x.received side (x.received side + 1) } := by
    have hdelivered : (x.sent side.other)[x.received side]? = some hello := by
      rw [hsent, hreceived, List.getElem?_concat_length]
    have happly : step (identities side) crypto codec (x.ends side) (.applyHello hello) =
        (idleState (x.ends side) [⟨hello, .verifying⟩] (x.ends side).ensured, []) := rfl
    simp only [Exchange.answering, run_cons, run_nil, Exchange.next, hdelivered, act, happly]
    simp only [Function.update_self, Function.update_idem, List.append_nil, step]
    rw [resume_idleState (h.rest side) hgenuine.isFrom, begin_awaitingState,
      resume_ready hchannel, resume_established]
  rw [hrun]
  refine ⟨⟨fun side' => ?_, ⟨x.sent side, own, ?_, ?_, ?_⟩, ?_⟩, ?_⟩
  · grind [AtRest.finishedState]
  · simp
  · simpa [other_ne] using h.received_other
  · rw [other_other]
    have hown := hhonest.genuine side.other privateKey nonce
    rwa [other_other] at hown
  · simp [hsent, hreceived, other_ne]
  · cases side <;> simp [hellos] <;> omega

/-- So the hellos go back and forth, without a call. -/
theorem Pinging.hellos (hhonest : Honest identities crypto) (privateKey : PrivateKey)
    (nonce : Bytes) (n : ℕ) {side : Side} (h : Pinging identities crypto side x) :
    ∃ events : List (Event PrivateKey), events.countP Event.isCall = 0 ∧
      (run (next identities crypto codec) x events).hellos = x.hellos + n := by
  induction n generalizing side x with
  | zero => exact ⟨[], rfl, rfl⟩
  | succ n ih =>
    have hanswering := @Pinging.answering _ _ _ _ _ codec _ hhonest _ h privateKey nonce
    obtain ⟨events, hcalls, hevents⟩ := ih hanswering.1
    refine ⟨Exchange.answering x side privateKey nonce ++ events, ?_, ?_⟩
    · rw [List.countP_append, hcalls]
      rfl
    · rw [run_append, hevents, hanswering.2]
      omega

/-- A hello is on its way when its sender forgets the other session. -/
def sampleForgotten : List (Event UInt8) :=
  [.ensure .left, .begun .left 0 1 [7], .forget .left]

theorem pinging_sampleForgotten : Pinging sampleIdentities sampleCrypto .right
    (run (next sampleIdentities sampleCrypto sampleCodec) init sampleForgotten) where
  rest side := by
    have hchannels : ((run (next sampleIdentities sampleCrypto sampleCodec) init
        sampleForgotten).ends side).channels (sampleIdentities side.other).deviceId = none := by
      cases side <;> decide +kernel
    refine ⟨?_, by simp [hchannels]⟩
    cases side <;> decide +kernel
  arriving := ⟨[], _, rfl, rfl, honest_sampleIdentities.genuine .right 1 [7]⟩
  received_other := rfl

theorem hellos_unbounded : ¬∃ bound : ℕ → ℕ, ∀ events : List (Event UInt8),
    (run (next sampleIdentities sampleCrypto sampleCodec) init events).hellos ≤
      bound (events.countP Event.isCall) := by
  rintro ⟨bound, hbound⟩
  obtain ⟨events, hcalls, hhellos⟩ : ∃ events : List (Event UInt8), events.countP Event.isCall = 0 ∧
      (run (next sampleIdentities sampleCrypto sampleCodec)
        (run (next sampleIdentities sampleCrypto sampleCodec) init sampleForgotten) events).hellos =
      _ + (bound 2 + 1) := pinging_sampleForgotten.hellos honest_sampleIdentities 1 [7] _
  have hle := hbound (sampleForgotten ++ events)
  have hcount : (sampleForgotten ++ events).countP Event.isCall = 2 := by
    rw [List.countP_append, hcalls]
    rfl
  rw [hcount, run_append, hhellos] at hle
  omega

/-! ## What the calls of `ensure` get -/

theorem ensured_prefix_next (x : Exchange PrivateKey Key Frame) (e : Event PrivateKey)
    (side : Side) :
    (x.ends side).ensured <+: ((x.next identities crypto codec e).ends side).ensured := by
  have hact (side' : Side) (e' : RelayChannels.Event PrivateKey Frame) :
      (x.ends side).ensured <+: ((x.act identities crypto codec side' e').ends side).ensured := by
    rcases eq_or_eq_other side' side with rfl | rfl
    · simpa [act] using ensured_prefix_step (identities side) crypto codec (x.ends side) e'
    · simp [act, other_ne]
  grind [next.eq_def]

theorem ensured_ne_nil (events : List (Event PrivateKey)) {side : Side}
    (h : .ensure side ∈ events) :
    ((run (next identities crypto codec) init events).ends side).ensured ≠ [] := by
  induction events using List.reverseRecOn with
  | nil => cases h
  | append_singleton events e ih =>
    rw [run_append]
    rcases List.mem_append.1 h with hbefore | hlast
    · exact (ensured_prefix_next _ e side).ne_nil (ih hbefore)
    · obtain rfl := List.mem_singleton.1 hlast
      simp only [run_cons, run_nil, Exchange.next, act, Function.update_self]
      exact ensured_ensure_ne_nil _ _

theorem exists_round (codec : FrameCodec Frame) (hhonest : Honest identities crypto)
    (events : List (Event PrivateKey)) (hforgets : ∀ e ∈ events, e.forgets = false) :
    ∃ sent given, Round identities crypto init
      (run (next identities crypto codec) init events) sent given :=
  run_along (P := fun x => ∃ sent given, Round identities crypto init x sent given)
    (A := fun _ e => e.forgets = false) ⟨_, _, .refl rest_init⟩
    (fun _ _ ⟨_, _, hround⟩ he => hround.next rest_init hhonest he)
    (along_of_forall fun e he _ => hforgets e he)

/-- Both have the channel that their two hellos determine, with the keys of each other, and every
    call of `ensure` has got it. -/
theorem handshake_converges (identities : Side → Identity) (crypto : KeyAgreement PrivateKey Key)
    (codec : FrameCodec Frame) (hhonest : Honest identities crypto)
    (events : List (Event PrivateKey)) (hforgets : ∀ e ∈ events, e.forgets = false)
    (hensure : ∃ side, .ensure side ∈ events)
    (hquiet : Quiet (run (next identities crypto codec) init events)) :
    ∃ (hellos : Side → SecureHello) (privateKeys : Side → PrivateKey)
      (channels : Side → Channel Key),
      (∀ side, (run (next identities crypto codec) init events).sent side = [hellos side] ∧
        (hellos side).ephemeralKey = crypto.publicKey (privateKeys side) ∧
        establishChannel crypto (identities side).deviceId
          ⟨(hellos side).toSecureHelloFrame, privateKeys side⟩
          (hellos side.other).toSecureHelloFrame (identities side.other).deviceId =
            some (channels side) ∧
        ∃ n y, ((run (next identities crypto codec) init events).ends side).Agreed
          (identities side.other).deviceId n y ∧ y.channel = channels side) ∧
      ((identities .left).deviceId ≠ (identities .right).deviceId →
        ∀ side, (channels side).sendKey = (channels side.other).receiveKey) := by
  obtain ⟨sent, given, hround⟩ := exists_round codec hhonest events hforgets
  obtain ⟨hgiven, hidle | hfinished⟩ := hround.quiet hquiet
  -- An unstarted round has no calls.
  · obtain ⟨side, hside⟩ := hensure
    obtain ⟨ensured, heq, hpromised, -⟩ := hidle side
    have hnone : ensured = [] := by
      refine List.eq_nil_iff_forall_not_mem.2 fun a ha => ?_
      simpa [init, State.init] using hpromised a ha
    have hne : ((run (next identities crypto codec) init events).ends side).ensured ≠ [] :=
      ensured_ne_nil events hside
    rw [heq, hnone] at hne
    exact absurd rfl hne
  · choose own privateKey hello channel ensured hown hhello hkey hchannel hpromised heq
      using hfinished
    -- The hello that a side was given is the one that the other side has sent.
    have hgot (side : Side) : hello side = own side.other := by
      have hone := hgiven side
      rw [hhello, hown] at hone
      exact List.singleton_inj.1 hone
    simp only [hgot] at hchannel
    refine ⟨own, privateKey, channel, fun side => ⟨?_, hkey side, hchannel side, 0,
      { handshake := 0, call := 0, channel := channel side }, ⟨?_, ?_, ?_⟩, rfl⟩,
      fun hne side => ?_⟩
    · rw [hround.sent_eq, hown]
      rfl
    · rw [heq]
      simp [finishedState, init, State.init]
    · rw [heq]
      simp [finishedState, init, State.init]
    · intro a ha
      rw [heq] at ha ⊢
      have hcases := hpromised side a ha
      simp only [init, State.init, List.not_mem_nil, false_or, reduceCtorEq, false_and,
        exists_false, List.length_nil, List.mem_cons, or_false] at hcases
      rcases hcases with rfl | rfl
      · simp [Ensured.got, finishedState, init, State.init]
      · rfl
    · have hother := hchannel side.other
      rw [other_other] at hother
      refine sendKey_eq_receiveKey ?_ (hkey side) (hkey side.other) (hchannel side) hother
      cases side
      · exact hne
      · exact hne.symm

theorem handshake_converges_sample :
    ∃ (hellos : Side → SecureHello) (channels : Side → Channel (Bytes × Bytes × Bytes)),
    ∀ side,
      (run (next sampleIdentities sampleCrypto sampleCodec) init sampleRound).sent side =
        [hellos side] ∧
      (channels side).sendKey = (channels side.other).receiveKey ∧
      ∃ n y, ((run (next sampleIdentities sampleCrypto sampleCodec) init sampleRound).ends
        side).Agreed (sampleIdentities side.other).deviceId n y ∧ y.channel = channels side := by
  obtain ⟨hellos, _, channels, hends, hkeys⟩ := handshake_converges sampleIdentities sampleCrypto
    sampleCodec honest_sampleIdentities sampleRound (by decide) ⟨.left, List.mem_cons_self⟩
    (by decide +kernel)
  refine ⟨hellos, channels, fun side => ⟨(hends side).1, hkeys (by decide) side, ?_⟩⟩
  exact (hends side).2.2.2

end Exchange

end Both

end WireMesh.TypeScript.RelayChannels
