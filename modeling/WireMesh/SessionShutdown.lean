import WireMesh.Machine
import WireMesh.Rust.Session

/-!
# How a session in Rust shuts down

After a session has ended, nothing is pending, every call has returned and there has been one
`Disconnected` event (`session_shuts_down`), provided that two races do not happen. A call that has
found the session open may register after what is pending has been rejected, and then waits for
ever if its frame is still sent. And `close` may find the task in the middle of a poll, in which it
goes on to the end of the stream and reports that too (`session_shutdown_races`).
-/

namespace WireMesh.Rust.Session

open Machine

variable {O : Type}

/-! ## Requests -/

def Stage.requestId : Stage O → Option ℕ
  | .sending requestId | .awaiting requestId | .removing requestId _ => some requestId
  | .checked | .settled _ => none

/-- A call that waits for its reply, or is going to. -/
def Call.Waits (x : Call O) (id : ℕ) : Prop :=
  x.stage = .awaiting id ∨ x.stage = .sending id ∧ x.reply = none

theorem Call.requestId_of_waits {x : Call O} {id : ℕ} (h : x.Waits id) :
    x.stage.requestId = some id := by
  rcases h with h | ⟨h, -⟩ <;> rw [h] <;> rfl

theorem Call.requestId_of_receive {x : Call O} {id : ℕ}
    (h : x.receive.stage.requestId = some id) : x.stage.requestId = some id := by
  unfold receive at h
  split at h
  · cases h
  · cases h
  · exact h

/-- A reply that has been sent is received as soon as it is awaited. -/
theorem Call.waits_of_receive {x : Call O} {id : ℕ} (h : x.receive.Waits id) :
    x.Waits id ∧ x.reply = none := by
  unfold receive at h
  split at h
  · rcases h with h | ⟨h, -⟩ <;> cases h
  · rcases h with h | ⟨h, -⟩ <;> cases h
  next hok herror =>
    refine ⟨h, ?_⟩
    rcases h with hstage | ⟨-, hreply⟩
    · cases hreply : x.reply with
      | none => rfl
      | some reply =>
        cases reply with
        | ok outcome => exact (hok id outcome hstage hreply).elim
        | error reason => exact (herror id reason hstage hreply).elim
    · exact hreply

theorem Call.not_waits_send (x : Call O) (reply : Except String O) (id : ℕ) :
    ¬ (x.send reply).Waits id := by
  intro h
  have hreply := (waits_of_receive h).2
  cases hreply

namespace Requests

variable {r : Requests O} {c id : ℕ} {f : Call O → Call O}

/-- Numbers are not used twice, and a call that waits is pending. -/
@[grind cases]
structure Valid (r : Requests O) : Prop where
  lt : ∀ (c : ℕ) (x : Call O) (id : ℕ), r.calls[c]? = some x → x.stage.requestId = some id →
    id < r.nextRequestId
  inj : ∀ (c c' : ℕ) (x x' : Call O) (id : ℕ), r.calls[c]? = some x → r.calls[c']? = some x' →
    x.stage.requestId = some id → x'.stage.requestId = some id → c = c'
  pending : ∀ (c : ℕ) (x : Call O) (id : ℕ), r.calls[c]? = some x → x.Waits id →
    r.pending.get id = some c

theorem valid_empty : (empty : Requests O).Valid where
  lt _ _ _ h := by cases h
  inj _ _ _ _ _ h := by cases h
  pending _ _ _ h := by cases h

/-- Calls may give up their numbers, and stop waiting. -/
theorem Valid.of_calls (h : r.Valid) {calls : List (Call O)}
    (hcalls : ∀ (c : ℕ) (x' : Call O), calls[c]? = some x' →
      (∀ id, x'.stage.requestId = some id →
        ∃ x, r.calls[c]? = some x ∧ x.stage.requestId = some id) ∧
      ∀ id, x'.Waits id → ∃ x, r.calls[c]? = some x ∧ x.Waits id) :
    Valid { r with calls } where
  lt c x' id hx' hid := by grind
  inj c c' x x' id hx hx' hid hid' := by grind
  pending c x' id hx' hwaits := by grind

theorem Valid.modify (h : r.Valid)
    (hid : ∀ x id, r.calls[c]? = some x → (f x).stage.requestId = some id →
      x.stage.requestId = some id)
    (hwaits : ∀ x id, r.calls[c]? = some x → (f x).Waits id → x.Waits id) :
    Valid { r with calls := r.calls.modify c f } := by
  refine h.of_calls fun c' x' hx' => ?_
  rw [List.getElem?_modify] at hx'
  obtain ⟨x, hx, rfl⟩ := Option.map_eq_some_iff.1 hx'
  split_ifs with hc
  · subst hc
    exact ⟨fun id hi => ⟨x, hx, hid x id hx hi⟩, fun id hw => ⟨x, hx, hwaits x id hx hw⟩⟩
  · exact ⟨fun id hi => ⟨x, hx, hi⟩, fun id hw => ⟨x, hx, hw⟩⟩

/-- A number that no call waits with may be taken out of the map. -/
theorem Valid.delete (h : r.Valid)
    (hid : ∀ (c : ℕ) (x : Call O), r.calls[c]? = some x → ¬ x.Waits id) :
    Valid { r with pending := r.pending.delete id } where
  lt := h.lt
  inj := h.inj
  pending c x id' hx hwaits := by grind [OrderedMap.get_delete_eq_some]

/-- A call goes on, and waits no longer. -/
theorem Valid.setStage (h : r.Valid) {stage : Stage O}
    (hid : ∀ x id, r.calls[c]? = some x → stage.requestId = some id → x.stage.requestId = some id)
    (hstage : ∀ id, stage ≠ .awaiting id ∧ stage ≠ .sending id) : (r.setStage c stage).Valid := by
  refine h.modify hid fun x id hx hwaits => ?_
  rcases hwaits with hwaits | ⟨hwaits, -⟩
  · exact absurd hwaits (hstage id).1
  · exact absurd hwaits (hstage id).2

theorem Valid.request (h : r.Valid) (hasTimeout closed : Bool) :
    (r.request hasTimeout closed).Valid := by
  refine h.of_calls fun c x' hx' => ?_
  rcases getElem?_concat hx' with hx | ⟨-, rfl⟩
  · exact ⟨fun id hid => ⟨x', hx, hid⟩, fun id hwaits => ⟨x', hx, hwaits⟩⟩
  · -- A new call has no number yet.
    have hnone (id : ℕ) : (if closed = true then
        { stage := .settled (.error "session is closed"), hasTimeout }
        else { stage := .checked, hasTimeout } : Call O).stage.requestId ≠ some id := by
      split_ifs <;> simp [Stage.requestId]
    refine ⟨fun id hid => absurd hid (hnone id), fun id hwaits => ?_⟩
    exact absurd (Call.requestId_of_waits hwaits) (hnone id)

/-- A call goes on, and the others stay as they are. -/
theorem getElem?_setStage {stage : Stage O} {c' : ℕ} {x : Call O}
    (h : (r.setStage c stage).calls[c']? = some x) :
    c = c' ∧ x.stage = stage ∨ c ≠ c' ∧ r.calls[c']? = some x := by grind [setStage]

theorem Valid.register (h : r.Valid) (c : ℕ) : (r.register c).Valid := by
  rw [Requests.register]
  split
  next =>
    refine ⟨fun c' x id hx hid => ?_, fun c₁ c₂ x₁ x₂ id hx₁ hx₂ hid₁ hid₂ => ?_,
      fun c' x id hx hwaits => ?_⟩
    · rcases getElem?_setStage hx with ⟨-, hstage⟩ | ⟨-, hx⟩
      · rw [hstage] at hid
        cases hid
        exact Nat.lt_succ_self _
      · exact Nat.lt_succ_of_lt (h.lt c' x id hx hid)
    · rcases getElem?_setStage hx₁ with ⟨rfl, hstage₁⟩ | ⟨-, hx₁⟩ <;>
        rcases getElem?_setStage hx₂ with ⟨rfl, hstage₂⟩ | ⟨-, hx₂⟩
      · rfl
      · rw [hstage₁] at hid₁
        cases hid₁
        exact absurd (h.lt c₂ x₂ _ hx₂ hid₂) (Nat.lt_irrefl _)
      · rw [hstage₂] at hid₂
        cases hid₂
        exact absurd (h.lt c₁ x₁ _ hx₁ hid₁) (Nat.lt_irrefl _)
      · exact h.inj c₁ c₂ x₁ x₂ id hx₁ hx₂ hid₁ hid₂
    · change (r.pending.set r.nextRequestId c).get id = some c'
      rw [OrderedMap.get_set]
      rcases getElem?_setStage hx with ⟨rfl, hstage⟩ | ⟨-, hx⟩
      · have hid := Call.requestId_of_waits hwaits
        rw [hstage] at hid
        cases hid
        exact if_pos rfl
      · have hlt := h.lt c' x id hx (Call.requestId_of_waits hwaits)
        grind
  next => exact h

theorem Valid.sent (h : r.Valid) (c : ℕ) (result : Except String Unit) :
    (r.sent c result).Valid := by
  rw [Requests.sent.eq_def]
  split
  next id hstage =>
    have stage {x : Call O} (hx : r.calls[c]? = some x) : x.stage = .sending id := by
      rw [hx] at hstage
      exact Option.some.inj hstage
    split
    · refine h.modify (fun x id' hx hid => ?_) fun x id' hx hwaits => ?_
      · rw [stage hx]
        exact Call.requestId_of_receive hid
      · obtain ⟨hwaits, hreply⟩ := Call.waits_of_receive hwaits
        have hid := Call.requestId_of_waits hwaits
        cases hid
        exact .inr ⟨stage hx, hreply⟩
    · refine h.setStage (fun x id' hx hid => ?_) (by simp)
      rw [stage hx]
      exact hid
  next => exact h

theorem Valid.elapsed (h : r.Valid) (c : ℕ) : (r.elapsed c).Valid := by
  rw [Requests.elapsed]
  split
  next id reply hx =>
    refine h.setStage (fun x id' hx' hid => ?_) (by simp)
    cases Option.some.inj (hx.symm.trans hx')
    exact hid
  next => exact h

theorem Valid.remove (h : r.Valid) (c : ℕ) : (r.remove c).Valid := by
  rw [Requests.remove]
  split
  next id result hstage =>
    obtain ⟨y, hy, hystage⟩ := Option.map_eq_some_iff.1 hstage
    refine Valid.delete (h.setStage (by simp [Stage.requestId]) (by simp)) fun c' x hx hwaits => ?_
    have hid := Call.requestId_of_waits hwaits
    rcases getElem?_setStage hx with ⟨-, hstage⟩ | ⟨hne, hx⟩
    · rw [hstage] at hid
      cases hid
    · exact hne (h.inj c c' y x id hy hx (by rw [hystage]; rfl) hid)
  next => exact h

theorem Valid.send (h : r.Valid) (c : ℕ) (reply : Except String O) :
    Valid { r with calls := r.calls.modify c (Call.send reply) } := by
  refine h.modify (fun x id hx hid => ?_) fun x id hx hwaits => ?_
  · exact Call.requestId_of_receive (x := { x with reply := some reply }) hid
  · exact absurd hwaits (Call.not_waits_send x reply id)

theorem Valid.respond (h : r.Valid) (id : ℕ) (outcome : O) : (r.respond id outcome).Valid := by
  rw [Requests.respond]
  split
  next => exact h
  next c hc =>
    have hsent := h.send c (.ok outcome)
    refine hsent.delete fun c' x hx hwaits => ?_
    -- The call that waits with the number is the one that the reply is for.
    grind [Call.not_waits_send]

/-- The calls after what is pending has been rejected. -/
def reject (reason : String) (pending : List ℕ) (calls : List (Call O)) : List (Call O) :=
  pending.foldl (fun calls call => calls.modify call (Call.send (.error reason))) calls

theorem Valid.reject (h : r.Valid) (reason : String) (pending : List ℕ) :
    Valid { r with calls := Requests.reject reason pending r.calls } := by
  induction pending generalizing r with
  | nil => exact h
  | cons c pending ih => exact ih (h.send c (.error reason))

/-- A call whose request is rejected does not wait, nor does one that did not wait before. -/
theorem not_waits_reject {reason : String} {pending : List ℕ} {calls : List (Call O)}
    (h : c ∈ pending ∨ ∀ x, calls[c]? = some x → ¬ x.Waits id) :
    ∀ x, (Requests.reject reason pending calls)[c]? = some x → ¬ x.Waits id := by
  induction pending generalizing calls with
  | nil => exact h.resolve_left List.not_mem_nil
  | cons c' pending ih =>
    change ∀ x, (Requests.reject reason pending
      (calls.modify c' (Call.send (.error reason))))[c]? = some x → ¬ x.Waits id
    grind [Call.not_waits_send]

theorem Valid.rejectAllPending (h : r.Valid) (reason : String) :
    (r.rejectAllPending reason).Valid where
  lt := (h.reject reason r.pending.values).lt
  inj := (h.reject reason r.pending.values).inj
  pending c x id hx hwaits := by
    have hpending := (h.reject reason r.pending.values).pending c x id hx hwaits
    have hmem : c ∈ r.pending.values := OrderedMap.mem_values_iff.2 ⟨id, hpending⟩
    exact absurd hwaits (not_waits_reject (.inl hmem) x hx)

end Requests

/-! ## The end of a session -/

/-- The call can do nothing by itself. -/
def Stage.isResting : Stage O → Bool
  | .awaiting _ | .settled _ => true
  | .checked | .sending _ | .removing _ _ => false

/-- The task has not come to the end. -/
def Dispatch.active : Dispatch O → Bool
  | .suspended | .polling | .responding _ _ | .ended => true
  | .draining | .finished | .cancelled => false

namespace State

variable {s : State O} {e : Event O}

/-- Neither the task nor `close` has begun to end the session. -/
def Open (s : State O) : Prop :=
  s.closed = false ∧ s.aborted = false ∧ s.closing = 0 ∧ s.disconnected = []

/-- How many calls of `close` are about to reject what is pending, and how many `Disconnected`
    events there have been. -/
def Phase (s : State O) : Prop :=
  match s.dispatch with
  | .suspended | .polling | .responding _ _ | .ended => s.Open
  | .draining => s.closed = true ∧ s.closing = 0 ∧ s.disconnected = []
  | .finished => s.closed = true ∧ s.closing = 0 ∧ s.disconnected.length = 1
  | .cancelled => s.closed = true ∧ s.closing + s.disconnected.length = 1

/-- A call registers before the end of the session is reported. -/
def RegistersInTime (s : State O) : Event O → Prop
  | .register _ => s.disconnected = []
  | _ => True

/-- The session is not closed in the middle of a poll. -/
def ClosesAtRest (s : State O) : Event O → Prop
  | .close => s.closed = true ∨ s.dispatch = .suspended
  | _ => True

def Allowed (s : State O) (e : Event O) : Prop := s.RegistersInTime e ∧ s.ClosesAtRest e

instance decidableRegistersInTime (s : State O) (e : Event O) :
    Decidable (s.RegistersInTime e) := by
  cases e with
  | register => exact inferInstanceAs (Decidable (_ = _))
  | _ => exact .isTrue trivial

instance decidableClosesAtRest [DecidableEq O] (s : State O) (e : Event O) :
    Decidable (s.ClosesAtRest e) := by
  cases e with
  | close => exact inferInstanceAs (Decidable (_ ∨ _))
  | _ => exact .isTrue trivial

instance decidableAllowed [DecidableEq O] (s : State O) (e : Event O) : Decidable (s.Allowed e) :=
  inferInstanceAs (Decidable (_ ∧ _))

/-- The task goes on, and does not end the session. -/
theorem Phase.move (h : s.Phase) (hs : s.dispatch.active = true) {dispatch : Dispatch O}
    (hd : dispatch.active = true) (requests : Requests O) :
    Phase { s with dispatch, requests } := by
  have hopen : s.Open := by
    rw [Phase] at h
    cases hdispatch : s.dispatch <;> rw [hdispatch] at h hs <;> first | exact h | cases hs
  cases dispatch <;> first | exact hopen | cases hd

theorem Phase.close (h : s.Phase) (he : s.ClosesAtRest .close) : s.close.Phase := by
  rw [State.close]
  split_ifs with hclosed
  · exact h
  · have hdispatch := he.resolve_left hclosed
    rw [Phase, hdispatch] at h
    obtain ⟨-, -, hclosing, hdisconnected⟩ := h
    rw [abort, hdispatch]
    exact ⟨rfl, by simp [hclosing, hdisconnected]⟩

theorem Phase.drainClosed (h : s.Phase) : s.drainClosed.Phase := by
  rw [State.drainClosed]
  split_ifs with hclosing
  · exact h
  · rw [Phase] at h
    -- Only a task that has been cancelled leaves the report to `close`.
    split at h
    next => exact absurd h.2.2.1 hclosing
    next => exact absurd h.2.2.1 hclosing
    next => exact absurd h.2.2.1 hclosing
    next => exact absurd h.2.2.1 hclosing
    next => exact absurd h.2.1 hclosing
    next => exact absurd h.2.1 hclosing
    · grind [Phase, rejectAllPending]

theorem Phase.next (h : s.Phase) (he : s.ClosesAtRest e) : (s.next e).Phase := by
  cases e with
  | request | register | sent | elapsed | remove => exact h
  | wake =>
    rw [State.next, wake]
    split
    next hdispatch => exact h.move (by rw [hdispatch]; rfl) rfl _
    next => exact h
  | suspend =>
    rw [State.next, suspend]
    split
    next hdispatch =>
      have haborted : s.aborted = false := by
        rw [Phase, hdispatch] at h
        exact h.2.1
      exact h.move (by rw [hdispatch]; rfl) (by rw [haborted]; rfl) _
    next => exact h
  | response requestId outcome =>
    rw [State.next, response]
    split
    next hdispatch => exact h.move (by rw [hdispatch]; rfl) rfl _
    next => exact h
  | respond =>
    rw [State.next, respond]
    split
    next hdispatch => exact h.move (by rw [hdispatch]; rfl) rfl _
    next => exact h
  | streamEnded =>
    rw [State.next, streamEnded]
    split
    next hdispatch => exact h.move (by rw [hdispatch]; rfl) rfl _
    next => exact h
  | setClosed =>
    rw [State.next, setClosed]
    split
    next hdispatch =>
      rw [Phase, hdispatch] at h
      exact ⟨rfl, h.2.2⟩
    next => exact h
  | drain =>
    rw [State.next, drain]
    split
    next hdispatch =>
      rw [Phase, hdispatch] at h
      exact ⟨h.1, h.2.1, by simp [h.2.2]⟩
    next => exact h
  | close => exact h.close he
  | drainClosed => exact h.drainClosed

theorem requests_close (s : State O) : s.close.requests = s.requests := by grind [close, abort]

theorem valid_next (h : s.requests.Valid) (e : Event O) : (s.next e).requests.Valid := by
  cases e with
  | request hasTimeout => exact h.request hasTimeout s.closed
  | register call => exact h.register call
  | sent call result => exact h.sent call result
  | elapsed call => exact h.elapsed call
  | remove call => exact h.remove call
  | wake =>
    rw [next, wake]
    split <;> exact h
  | suspend =>
    rw [next, suspend]
    split <;> exact h
  | response requestId outcome =>
    rw [next, response]
    split <;> exact h
  | respond => grind [next, respond, Requests.Valid.respond]
  | streamEnded =>
    rw [next, streamEnded]
    split <;> exact h
  | setClosed =>
    rw [next, setClosed]
    split <;> exact h
  | drain =>
    rw [next, drain]
    split
    next => exact h.rejectAllPending _
    next => exact h
  | close => rwa [next, requests_close]
  | drainClosed =>
    rw [next, drainClosed]
    split_ifs
    · exact h
    · exact h.rejectAllPending _

/-- Once the end of the session has been reported, nothing is pending. -/
def Emptied (s : State O) : Prop :=
  s.disconnected ≠ [] → ∀ id, s.requests.pending.get id = none

/-- Only a call that registers adds to what is pending. -/
theorem Emptied.of_pending (h : s.Emptied) {t : State O}
    (hpending : ∀ id c, t.requests.pending.get id = some c →
      s.requests.pending.get id = some c)
    (hdisconnected : t.disconnected = s.disconnected) : t.Emptied := by
  intro ht id
  rw [hdisconnected] at ht
  rw [Option.eq_none_iff_forall_ne_some]
  intro c hc
  have hc := hpending id c hc
  rw [h ht id] at hc
  cases hc

theorem Emptied.next (h : s.Emptied) (he : s.RegistersInTime e) : (s.next e).Emptied := by
  cases e with
  | request hasTimeout => exact h
  | register call =>
    intro hdisconnected
    exact absurd he hdisconnected
  | sent call result =>
    refine h.of_pending (fun id c hc => ?_) rfl
    change (s.requests.sent call result).pending.get id = some c at hc
    rw [Requests.sent.eq_def] at hc
    split at hc
    · split at hc <;> exact hc
    · exact hc
  | elapsed call =>
    refine h.of_pending (fun id c hc => ?_) rfl
    change (s.requests.elapsed call).pending.get id = some c at hc
    rw [Requests.elapsed] at hc
    split at hc <;> exact hc
  | remove call =>
    refine h.of_pending (fun id c hc => ?_) rfl
    change (s.requests.remove call).pending.get id = some c at hc
    grind [Requests.remove, OrderedMap.get_delete_eq_some]
  | wake =>
    rw [State.next, wake]
    split <;> exact h
  | suspend =>
    rw [State.next, suspend]
    split <;> exact h
  | response requestId outcome =>
    rw [State.next, response]
    split <;> exact h
  | respond =>
    grind [State.next, respond, of_pending, Requests.respond, OrderedMap.get_delete_eq_some]
  | streamEnded =>
    rw [State.next, streamEnded]
    split <;> exact h
  | setClosed =>
    rw [State.next, setClosed]
    split <;> exact h
  | drain =>
    rw [State.next, drain]
    split
    next => exact fun _ _ => rfl
    next => exact h
  | close => grind [of_pending, State.next, close, abort]
  | drainClosed =>
    rw [State.next, drainClosed]
    split_ifs
    · exact h
    · exact fun _ _ => rfl

/-! ## Runs -/

@[grind cases]
structure Valid (s : State O) : Prop where
  requests : s.requests.Valid
  phase : s.Phase
  emptied : s.Emptied

theorem valid_init : (init : State O).Valid where
  requests := Requests.valid_empty
  phase := ⟨rfl, rfl, rfl, rfl⟩
  emptied h := absurd rfl h

theorem Valid.next (h : s.Valid) (he : s.Allowed e) : (s.next e).Valid :=
  ⟨valid_next h.requests e, h.phase.next he.2, h.emptied.next he.1⟩

/-- The task is over, `close` has done its work, and no call can go on by itself. -/
def Ended (s : State O) : Prop :=
  (s.dispatch = .finished ∨ s.dispatch = .cancelled) ∧ s.closing = 0 ∧
    ∀ x ∈ s.requests.calls, x.stage.isResting = true

instance decidableEnded [DecidableEq O] (s : State O) : Decidable s.Ended :=
  inferInstanceAs (Decidable (_ ∧ _))

end State

open State

/-- The session has ended, and a call waits for a reply without a timeout. -/
@[grind cases]
structure Stranded (s : State O) (c : ℕ) : Prop where
  finished : s.dispatch = .finished
  closed : s.closed = true
  closing : s.closing = 0
  call : ∃ id, s.requests.calls[c]? = some ⟨.awaiting id, false, none⟩

/-- It then waits for ever. -/
theorem Stranded.next {s : State O} {c : ℕ} (h : Stranded s c) (e : Event O) :
    Stranded (s.next e) c := by
  have hstranded := h
  obtain ⟨hfinished, hclosed, hclosing, id, hcall⟩ := h
  -- The other calls go on.
  have other {c' : ℕ} {stage : Stage O} (f : Call O → Call O)
      (hstage : s.requests.calls[c']?.map Call.stage = some stage) (hne : stage ≠ .awaiting id) :
      (s.requests.calls.modify c' f)[c]? = some ⟨.awaiting id, false, none⟩ := by grind
  cases e with
  | request hasTimeout =>
    obtain ⟨hlt, -⟩ := List.getElem?_eq_some_iff.1 hcall
    exact ⟨hfinished, hclosed, hclosing, id, (List.getElem?_append_left hlt).trans hcall⟩
  | register call =>
    refine ⟨hfinished, hclosed, hclosing, id, ?_⟩
    rw [State.next, Requests.register]
    split
    next hstage => exact other _ hstage (by simp)
    next => exact hcall
  | sent call result =>
    refine ⟨hfinished, hclosed, hclosing, id, ?_⟩
    rw [State.next, Requests.sent.eq_def]
    split
    next hstage =>
      split
      · exact other _ hstage (by simp)
      · exact other _ hstage (by simp)
    next => exact hcall
  | elapsed call =>
    refine ⟨hfinished, hclosed, hclosing, id, ?_⟩
    rw [State.next, Requests.elapsed]
    split
    next id' reply hx =>
      refine (List.getElem?_modify_ne _ _ ?_).trans hcall
      grind
    next => exact hcall
  | remove call =>
    refine ⟨hfinished, hclosed, hclosing, id, ?_⟩
    rw [State.next, Requests.remove]
    split
    next hstage => exact other _ hstage (by simp)
    next => exact hcall
  | wake => rwa [State.next, wake, hfinished]
  | suspend => rwa [State.next, suspend, hfinished]
  | response requestId outcome => rwa [State.next, response, hfinished]
  | respond => rwa [State.next, respond, hfinished]
  | streamEnded => rwa [State.next, streamEnded, hfinished]
  | setClosed => rwa [State.next, setClosed, hfinished]
  | drain => rwa [State.next, drain, hfinished]
  | close => rwa [State.next, State.close, if_pos hclosed]
  | drainClosed => rwa [State.next, drainClosed, if_pos hclosing]

end WireMesh.Rust.Session
