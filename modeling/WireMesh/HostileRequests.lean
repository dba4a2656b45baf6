import WireMesh.ShareReleases

/-!
# Hostile requests

The loop of a participant sends one response to each request, and goes on to the next one, as long
as no call throws. But the calls of a handler are not guarded: the nonce store throws at a
commitment to a session that has nonces, and the FROST library throws at a commitment that is not
a pair of points. Either ends the loop, without a response, and whatever is requested later is not
answered. So do fields of other types than the handler takes them for.

* `loop_responsive`: what holds of every loop while no call throws.
* `loop_ends`: two requests that end it.
-/

namespace WireMesh.TypeScript.Threshold

open Machine

/-- A commitment, a signature or an abort. -/
def Request.WellTyped (request : Request) : Prop :=
  request.verb = thresholdSignVerb ∧ request.params ≠ .illTyped ∧ request.params ≠ .other

/-- A request is being handled, and has no response yet. -/
def Stage.busy : Stage → Bool
  | .authorising _ | .persisting _ _ _ _ | .discarding _ | .taking _ _ _ | .minting _ _ _ => true
  | .waiting | .responding | .ended => false

/-- The loop has ended, or is about to, as its nonces could not be stored. -/
def Stage.Doomed : Stage → Prop
  | .ended | .persisting _ _ _ (.error _) => True
  | _ => False

/-- The events that the loop awaits. -/
def Stage.Awaits : Stage → LoopEvent → Prop
  | .waiting, .request _ => True
  | .authorising _, .verdict _ => True
  | .persisting _ _ _ _, .resume | .discarding _, .resume | .taking _ _ _, .resume
  | .minting _ _ _, .resume | .responding, .resume => True
  | _, _ => False

/-- How many events the loop awaits, at most, before the next request. -/
def Stage.rank : Stage → ℕ
  | .waiting | .ended => 0
  | .responding => 1
  | .persisting _ _ _ _ | .discarding _ | .minting _ _ _ => 2
  | .taking _ _ _ => 3
  | .authorising _ => 4

/-- No call throws that the event leads to. -/
def harmless (o : Options) (w : World) (l : Loop) : LoopEvent → Bool
  | .request _ => true
  | .verdict verified => match l.stage with
    | .authorising request => (authorizeIncomingRequest request verified).isOk &&
      (request.params ≠ .illTyped ||
        (authorizeIncomingRequest request verified).toOption ≠ some true) &&
      (l.commits (.verdict verified)).all fun params =>
        (w.store.get params.sessionId).isNone &&
          (o.keyPackagesByGroup (deviceIdToHex params.group)).all fun keyPackage =>
            (o.frost.signingRound1Commit keyPackage w.generated).isOk
    | _ => true
  | .resume => match l.stage with
    | .persisting _ _ commitments _ => (o.frost.splitCommitments commitments).isOk
    | .taking params state (.ok nonces) =>
      (do
        let package ← Loop.signingPackage o params state.message
        o.frost.signingRound2Sign nonces.bytes package state.keyPackage).isOk
    | _ => true

variable {ι : Type}

def State.harmless (options : ι → Options) (x : State ι) : Event ι → Bool
  | .loop i event => Threshold.harmless (options i) x.world (x.loops i) event
  | .clock _ => true

/-! ## Responses -/

namespace Loop

/-- The number of responses to a request. -/
def responses (l : Loop) (k : ℕ) : ℕ := (l.replies.map Reply.request).count k

/-- How many requests have been handled. -/
def settled (l : Loop) : ℕ := l.received.length - if l.stage.busy then 1 else 0

/-- Every request that has been handled has its response, and the loop goes on. -/
@[grind cases]
structure Responsive (l : Loop) : Prop where
  alive : ¬l.stage.Doomed
  current : ∀ request, l.stage = .authorising request → l.received.getLast? = some request
  nonempty : l.stage.busy → l.received ≠ []
  answered : ∀ k request, l.received[k]? = some request → k < l.settled → request.WellTyped →
    l.responses k = 1
  fresh : ∀ k, l.settled ≤ k → l.responses k = 0

section Responsive

variable {o : Options} {w : World} {l l' : Loop}

/-- The loop goes on, without a response or another request. -/
theorem Responsive.stay (h : l.Responsive) (hreceived : l'.received = l.received)
    (hreplies : l'.replies = l.replies) (hbusy : l'.stage.busy = l.stage.busy)
    (halive : ¬l'.stage.Doomed) (hauthorising : ∀ request, l'.stage ≠ .authorising request) :
    l'.Responsive := by constructor <;> grind [settled, responses]

/-- The response to the request that is being handled. -/
theorem Responsive.respond (h : l.Responsive) (hbusy : l.stage.busy)
    (hreceived : l'.received = l.received) (hreplies : l'.replies = l.replies) (now : ℕ)
    (response : Response) : (l'.respond now response).Responsive := by
  have hlength := List.length_pos_iff.2 (h.nonempty hbusy)
  have hbefore : l.settled = l.received.length - 1 := by rw [settled, if_pos hbusy]
  have hsettled : (l'.respond now response).settled = l.received.length := by
    rw [settled, ← hreceived]
    rfl
  have hresponses : ∀ k, (l'.respond now response).responses k =
      l.responses k + if l.received.length - 1 = k then 1 else 0 := by
    grind [responses, Loop.respond]
  refine ⟨id, by rintro _ ⟨⟩, by rintro ⟨⟩, ?_, ?_⟩
  · intro k request hk hlt htyped
    rw [hsettled] at hlt
    rw [hresponses]
    split
    next heq => rw [h.fresh k (by omega)]
    next hne => exact h.answered k request (hreceived ▸ hk) (by omega) htyped
  · grind

theorem isOk_ne_error {ε α : Type} {x : Except ε α} {e : ε} (h : x.isOk) : x ≠ .error e := by
  rintro rfl
  cases h

theorem responsive_handleCommit (h : l.Responsive) {request : Request}
    (hstage : l.stage = .authorising request) {params : ThresholdCommit}
    (hstore : w.store.get params.sessionId = none)
    (hcommit : (o.keyPackagesByGroup (deviceIdToHex params.group)).all fun keyPackage =>
      (o.frost.signingRound1Commit keyPackage w.generated).isOk) :
    (l.handleCommit o w params).2.Responsive := by
  have hbusy : l.stage.busy := by rw [hstage]; rfl
  unfold handleCommit
  split
  · exact h.respond hbusy rfl rfl _ _
  split
  · exact h.respond hbusy rfl rfl _ _
  next hkey =>
  split
  · exact h.respond hbusy rfl rfl _ _
  split
  next herror => grind [isOk_ne_error]
  -- The store has no nonces of the session, and takes the new ones.
  simp only [NonceStore.persist, hstore]
  exact h.stay rfl rfl hbusy.symm id (by rintro _ ⟨⟩)

theorem responsive_handleSign (h : l.Responsive) {request : Request}
    (hstage : l.stage = .authorising request) (params : ThresholdSign) :
    (l.handleSign w params).2.Responsive := by
  have hbusy : l.stage.busy := by rw [hstage]; rfl
  unfold handleSign
  split <;> exact h.stay rfl rfl hbusy.symm id (by rintro _ ⟨⟩)

theorem responsive_sign (h : l.Responsive) {params : ThresholdSign} {state : SigningSessionState}
    {nonces : Nonces} (hstage : l.stage = .taking params state (.ok nonces))
    (hok : harmless o w l .resume) : (l.sign o params state nonces).Responsive := by
  have hbusy : l.stage.busy := by rw [hstage]; rfl
  simp only [harmless, hstage] at hok
  unfold sign
  split
  next herror =>
    rw [herror] at hok
    cases hok
  next package hpackage =>
    rw [hpackage] at hok
    dsimp only
    split
    next herror => exact absurd herror (isOk_ne_error hok)
    · exact h.stay rfl rfl hbusy.symm id (by rintro _ ⟨⟩)

theorem responsive_resume (h : l.Responsive) (hok : harmless o w l .resume) :
    (l.resume o w).Responsive := by
  unfold resume
  split
  next hstage => exact absurd (by rw [hstage]; trivial) h.alive
  next hstage =>
    rw [harmless, hstage] at hok
    dsimp only
    split
    next herror => exact absurd herror (isOk_ne_error hok)
    · refine h.respond (by rw [hstage]; rfl) ?_ ?_ _ _ <;> rfl
  next hstage => exact h.respond (by rw [hstage]; rfl) rfl rfl _ _
  next hstage => refine h.respond (by rw [hstage]; rfl) ?_ ?_ _ _ <;> rfl
  next hstage => exact responsive_sign h hstage hok
  next hstage => refine h.respond (by rw [hstage]; rfl) ?_ ?_ _ _ <;> rfl
  next hstage => exact h.stay rfl rfl (by rw [hstage]; rfl) id (by rintro _ ⟨⟩)
  · exact h

/-- A request is taken from the stream. -/
theorem responsive_request (h : l.Responsive) (request : Request) :
    (step o w l (.request request)).2.Responsive := by
  unfold step
  dsimp only
  split
  next hstage =>
    have hsettled : l.settled = l.received.length := by rw [settled, hstage]; rfl
    have hanswered : ∀ k request', (l.received ++ [request])[k]? = some request' →
        k < l.received.length → request'.WellTyped → l.responses k = 1 := by grind
    have hfresh : ∀ k, l.received.length ≤ k → l.responses k = 0 := hsettled ▸ h.fresh
    split
    next hverb =>
      -- The request is passed over.
      refine ⟨by rw [hstage]; exact id, by rw [hstage]; rintro _ ⟨⟩, by rw [hstage]; rintro ⟨⟩,
        ?_, ?_⟩
      · intro k request' hk hlt htyped
        rcases getElem?_concat hk with hk' | ⟨rfl, rfl⟩
        · exact hanswered k request' hk (List.getElem?_eq_some_iff.1 hk').1 htyped
        · exact absurd htyped.1 hverb
      · intro k hk
        rw [settled, hstage] at hk
        refine hfresh k (le_trans ?_ hk)
        simp [Stage.busy]
    next hverb =>
      have hsettled' : settled { l with
          received := l.received ++ [request], stage := .authorising request } =
            l.received.length := by
        simp [settled, Stage.busy]
      refine ⟨id, ?_, by simp, ?_, ?_⟩
      · rintro _ ⟨⟩
        exact List.getLast?_concat
      · intro k request' hk hlt
        exact hanswered k request' hk (hsettled' ▸ hlt)
      · intro k hk
        exact hfresh k (hsettled' ▸ hk)
  · exact h

theorem responsive_verdict (h : l.Responsive) {verified : Except String (Option TokenClaims)}
    (hok : harmless o w l (.verdict verified)) :
    (step o w l (.verdict verified)).2.Responsive := by
  unfold step
  dsimp only
  split
  next request hstage =>
    have hbusy : l.stage.busy := by rw [hstage]; rfl
    rw [harmless, hstage] at hok
    obtain ⟨hok, hcommits⟩ := Bool.and_eq_true_iff.1 hok
    obtain ⟨hverified, hfields⟩ := Bool.and_eq_true_iff.1 hok
    split
    next herror => exact absurd herror (isOk_ne_error hverified)
    · exact h.respond hbusy rfl rfl _ _
    next htrue =>
    split
    next params hparams => grind [commits, Option.isNone_iff_eq_none, responsive_handleCommit]
    · exact responsive_handleSign h hstage _
    · exact h.stay rfl rfl hbusy.symm id (by rintro _ ⟨⟩)
    next hparams => simp [hparams, htrue, Except.toOption] at hfields
    next hparams =>
      -- The request is none that the loop handles.
      have hbefore : l.settled = l.received.length - 1 := by rw [settled, if_pos hbusy]
      refine ⟨id, by rintro _ ⟨⟩, by rintro ⟨⟩, ?_, fun k hk => h.fresh k ?_⟩
      · intro k request' hk hlt htyped
        refine h.answered k request' hk ?_ htyped
        by_contra! hlast
        have hlt : k < l.received.length := (List.getElem?_eq_some_iff.1 hk).1
        obtain rfl : k = l.received.length - 1 := by omega
        have hcurrent := h.current request hstage
        rw [List.getLast?_eq_getElem?, hk] at hcurrent
        obtain rfl := Option.some.inj hcurrent
        exact htyped.2.2 hparams
      · grind [settled]
  · exact h

end Responsive

end Loop

/-! ## Progress -/

@[simp]
theorem stage_respond (l : Loop) (now : ℕ) (response : Response) :
    (l.respond now response).stage = .responding := rfl

theorem rank_handleCommit (o : Options) (w : World) (l : Loop) (params : ThresholdCommit) :
    (l.handleCommit o w params).2.stage.rank < 4 := by
  unfold Loop.handleCommit
  dsimp only
  split_ifs
  · simp [Stage.rank]
  split
  · simp [Stage.rank]
  split
  · simp [Stage.rank]
  split
  · simp [Stage.rank]
  split <;> simp [Stage.rank]

theorem rank_sign (o : Options) (l : Loop) (params : ThresholdSign) (state : SigningSessionState)
    (nonces : Nonces) : (l.sign o params state nonces).stage.rank < 3 := by
  grind [Loop.sign, Stage.rank]

theorem rank_resume {o : Options} {w : World} {l : Loop} (hawaits : l.stage.Awaits .resume) :
    (l.resume o w).stage.rank < l.stage.rank := by
  unfold Loop.resume
  rcases hstage : l.stage with _ | _ | ⟨_, _, _, _ | ⟨⟩⟩ | _ | ⟨_, _, _ | _⟩ | _ | _ | _
  case persisting.ok =>
    dsimp only
    split <;> simp [Stage.rank]
  case taking.ok => exact rank_sign ..
  case waiting | authorising | ended =>
    rw [hstage] at hawaits
    exact hawaits.elim
  all_goals simp [Stage.rank]

/-- Whatever the loop awaits brings it closer to the next request. -/
theorem rank_step {o : Options} {w : World} {l : Loop} {event : LoopEvent}
    (hawaits : l.stage.Awaits event) (hwaiting : l.stage ≠ .waiting) :
    (step o w l event).2.stage.rank < l.stage.rank := by
  rcases event with request | verified | _
  · rcases hstage : l.stage <;> simp_all [Stage.Awaits]
  · unfold step
    dsimp only
    split
    next request hstage =>
      rw [hstage]
      split
      · simp [Stage.rank]
      · simp [Stage.rank]
      grind [rank_handleCommit, Loop.handleSign, Stage.rank, Loop.handleAbort]
    next => rcases hstage : l.stage <;> simp_all [Stage.Awaits]
  · exact rank_resume hawaits

/-! ## Runs -/

section Run

variable [DecidableEq ι] {options : ι → Options} {now : ℕ} {events : List (Event ι)}

theorem responsive_run
    (h : Along (next options) (fun x e => x.harmless options e) (init now) events) (i : ι) :
    ((run (next options) (init now) events).loops i).Responsive := by
  refine run_along (P := fun x : State ι => ∀ i, (x.loops i).Responsive) ?_ ?_ h i
  · intro i
    refine ⟨id, by rintro _ ⟨⟩, by rintro ⟨⟩, fun k request hk => ?_, fun k _ => rfl⟩
    cases hk
  · rintro x (⟨k, event⟩ | now) h hok i
    · rcases eq_or_ne i k with rfl | hne
      · rw [loops_next_self]
        rcases event with request | verified | _
        · exact Loop.responsive_request (h i) request
        · exact Loop.responsive_verdict (h i) hok
        · exact Loop.responsive_resume (h i) hok
      · rw [loops_next_ne hne]
        exact h i
    · exact h i

/-- While no call throws, a loop does not end. Every commitment, signature and abort that it has
    handled has one response. Whatever it awaits brings it closer to the next request, which it
    then takes. -/
theorem loop_responsive
    (h : Along (next options) (fun x e => x.harmless options e) (init now) events) (i : ι) :
    let x := run (next options) (init now) events
    let l := x.loops i
    l.stage ≠ .ended ∧
    (∀ k request, l.received[k]? = some request → request.WellTyped →
      k + 1 < l.received.length ∨ ¬l.stage.busy → (l.replies.map Reply.request).count k = 1) ∧
    (∀ event, l.stage.Awaits event → l.stage ≠ .waiting →
      ((next options x (.loop i event)).loops i).stage.rank < l.stage.rank) ∧
    (l.stage = .waiting → ∀ request,
      ((next options x (.loop i (.request request))).loops i).received =
        l.received ++ [request]) := by
  intro x l
  have hl : l.Responsive := responsive_run h i
  refine ⟨fun hended => ?_, fun k request hk htyped hsettled => ?_, ?_, ?_⟩
  · exact hl.alive (by rw [hended]; trivial)
  · refine hl.answered k request hk ?_ htyped
    have hlt : k < l.received.length := (List.getElem?_eq_some_iff.1 hk).1
    rw [Loop.settled]
    split
    next hbusy =>
      rcases hsettled with hlast | hidle
      · omega
      · exact absurd hbusy hidle
    next => exact hlt
  · intro event hawaits hwaiting
    rw [loops_next_self]
    exact rank_step hawaits hwaiting
  · intro hwaiting request
    rw [loops_next_self]
    change (step (options i) x.world l (.request request)).2.received = _
    unfold step
    simp only [hwaiting]
    split <;> rfl

end Run

/-- A session is aborted, committed to again, and answered. -/
theorem loop_responsive_sample :
    let events := handling (.commit (.sample 1)) ++ handling (.abort 1) ++ handlingSession 1
    let l := (run (next fun _ => .sample) (init 0) events).loops ()
    l.received.length = 4 ∧ l.stage ≠ .ended ∧
    ∀ k request, l.received[k]? = some request → request.WellTyped →
      k + 1 < l.received.length ∨ ¬l.stage.busy → (l.replies.map Reply.request).count k = 1 := by
  intro events l
  have hharmless : Along (next fun _ => .sample) (fun x e => x.harmless (fun _ => .sample) e)
      (init 0) events := by decide +kernel
  obtain ⟨halive, hanswered, -, -⟩ := loop_responsive hharmless ()
  exact ⟨by decide +kernel, halive, hanswered⟩

/-- A session-id that is committed to twice ends the loop, and so does a malformed commitment. The
    second request has no response, and the third one is not taken. -/
theorem loop_ends :
    (let l := (run (next fun _ => .sample) (init 0) (handling (.commit (.sample 1)) ++
       handling (.commit (.sample 1)) ++ handling (.abort 1))).loops ()
     l.received.length = 2 ∧ l.replies.map Reply.request = [0]) ∧
    let l := (run (next fun _ => .sample) (init 0) (handling (.commit (.sample 1)) ++
      handling (.sign (.malformed 1)) ++ handling (.abort 1))).loops ()
    l.received.length = 2 ∧ l.replies.map Reply.request = [0] := by
  decide +kernel

end WireMesh.TypeScript.Threshold
