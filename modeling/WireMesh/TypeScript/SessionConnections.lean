import WireMesh.Machine
import WireMesh.TypeScript.MeshSession

/-!
# The connections of a session

A session keeps one connection at a time, as long as it is not told to connect while it is dialling
(`Wired.next`): of the connections that it has wired up, at most the last is not lost, and each loop
takes the frames of its own connection.
-/

namespace WireMesh.TypeScript.MeshSession

def Loop.live (loop : Loop) : Bool :=
  match loop.stage with
  | .done _ => false
  | _ => true

/-- How many dials are under way and how many are to come, in a session that is not closed. -/
def Status.dialling : Status → ℕ × ℕ
  | .connecting => (1, 0)
  | .reconnecting => (0, 1)
  | _ => (0, 0)

namespace State

variable {O : Type} {reconnect : Option ℕ} {s : State O} {link : ℕ}

/-- The connection has not been lost. -/
def isLive (s : State O) (link : ℕ) : Bool := s.loops[link]?.any Loop.live

/-- The session is not told to connect while it is dialling, or is about to dial again. -/
def ConnectsOnce (s : State O) : Event O → Prop
  | .connect => s.dials = 0 ∧ s.timers = []
  | _ => True

instance decidableConnectsOnce (s : State O) (e : Event O) : Decidable (s.ConnectsOnce e) := by
  cases e with
  | connect => exact inferInstanceAs (Decidable (_ ∧ _))
  | _ => exact .isTrue trivial

@[grind cases]
structure Wired (s : State O) : Prop where
  source : ∀ (i : ℕ) (loop : Loop), s.loops[i]? = some loop → loop.source = i
  live : ∀ i : ℕ, s.isLive i = true →
    s.connection = some i ∧ (s.feedCancelled = true ∨ s.status = .connected)
  idle : s.status = .idle → s.loops = [] ∧ s.connection = none
  dialling : s.feedCancelled = true ∨ (s.dials, s.timers.length) = s.status.dialling

theorem isLive_iff :
    s.isLive link = true ↔ ∃ loop, s.loops[link]? = some loop ∧ loop.live = true := by
  rw [isLive, Option.any_eq_true]

theorem stage_eq_some {stage : Stage} :
    s.stage link = some stage ↔ ∃ loop, s.loops[link]? = some loop ∧ loop.stage = stage :=
  Option.map_eq_some_iff

theorem isLive_of_stage {stage : Stage} (h : s.stage link = some stage)
    (hstage : ∀ ending, stage ≠ .done ending) : s.isLive link = true := by
  grind [stage_eq_some, isLive_iff, Loop.live]

theorem wired_init : (init : State O).Wired where
  source i loop h := by cases h
  live i h := by cases h
  idle _ := ⟨rfl, rfl⟩
  dialling := .inr rfl

/-- A loop goes on, and a connection that is lost stays lost. -/
theorem Wired.modify (h : s.Wired) {f : Loop → Loop}
    (hf : ∀ loop, s.loops[link]? = some loop → (f loop).source = loop.source)
    (hlive : s.isLive link = true) :
    Wired { s with loops := s.loops.modify link f } where
  source i loop hi := by grind
  live i hi := by grind [isLive_iff]
  idle hidle := by
    rw [isLive, (h.idle hidle).1] at hlive
    cases hlive
  dialling := h.dialling

theorem Wired.setStage (h : s.Wired) (stage : Stage) (hlive : s.isLive link = true) :
    (s.setStage link stage).Wired :=
  h.modify (fun _ _ => rfl) hlive

/-- Requests do not change the connections. -/
theorem Wired.perform (h : s.Wired) (op : Requests.Op O) : (s.perform op).Wired := { h with }

theorem wired_handleDisconnect (hcancelled : s.feedCancelled = true → s.Wired)
    (hsource : ∀ (i : ℕ) (loop : Loop), s.loops[i]? = some loop → loop.source = i)
    (hlive : s.feedCancelled = false → ∀ i, s.isLive i = false)
    (hdials : s.feedCancelled = false → s.dials = 0 ∧ s.timers = []) :
    (s.handleDisconnect reconnect).Wired := by
  rw [handleDisconnect]
  split
  next hfeed => exact hcancelled hfeed
  next hfeed =>
    rw [Bool.not_eq_true] at hfeed
    obtain ⟨hdials, htimers⟩ := hdials hfeed
    have dead (i : ℕ) (hi : s.isLive i = true) : False := by
      rw [hlive hfeed i] at hi
      cases hi
    split
    · exact ⟨hsource, fun i hi => (dead i hi).elim, by simp, .inr (by grind [perform,
      Status.dialling])⟩
    · exact ⟨hsource, fun i hi => (dead i hi).elim, by simp, .inr (by grind [perform,
      Status.dialling])⟩

/-- When a loop ends, no connection is left. -/
theorem Wired.isLive_done (h : s.Wired) (hlive : s.isLive link = true) (ending : Ending) (i : ℕ) :
    (s.setStage link (.done ending)).isLive i = false := by
  rw [Bool.eq_false_iff]
  intro hi
  have hw := h.setStage (.done ending) hlive
  have hlink : some i = some link := (hw.live i hi).1.symm.trans (h.live link hlive).1
  cases hlink
  obtain ⟨loop, hloop, hl⟩ := isLive_iff.1 hi
  rw [State.setStage, List.getElem?_modify_eq] at hloop
  obtain ⟨loop', -, rfl⟩ := Option.map_eq_some_iff.1 hloop
  cases hl

theorem Wired.handleDisconnect_done (h : s.Wired) (hlive : s.isLive link = true)
    (ending : Ending) : ((s.setStage link (.done ending)).handleDisconnect reconnect).Wired := by
  have hw := h.setStage (.done ending) hlive
  refine wired_handleDisconnect (fun _ => hw) hw.source (fun _ => h.isLive_done hlive ending) ?_
  intro (hfeed : s.feedCancelled = false)
  rw [← Bool.not_eq_true] at hfeed
  have hdialling := h.dialling.resolve_left hfeed
  rw [(h.live link hlive).2.resolve_left hfeed] at hdialling
  obtain ⟨hdials, htimers⟩ := Prod.mk.inj hdialling
  exact ⟨hdials, List.length_eq_zero_iff.1 htimers⟩

theorem Wired.finish (h : s.Wired) (hlive : s.isLive link = true) (ending : Ending) :
    (s.finish reconnect link ending).Wired := by
  grind [State.finish, handleDisconnect_done, setStage]

/-- A session that is dialling, and not closed, has no connection. -/
theorem Wired.not_isLive (h : s.Wired) (hfeed : s.feedCancelled ≠ true)
    (hstatus : s.status ≠ .connected) (i : ℕ) : s.isLive i = false := by grind

theorem Wired.connecting (h : s.Wired) (hfeed : s.feedCancelled ≠ true) (hdials : s.dials ≠ 0) :
    s.status = .connecting ∧ s.dials = 1 ∧ s.timers = [] := by
  have hdialling := h.dialling.resolve_left hfeed
  cases hstatus : s.status with
  | connecting =>
    rw [hstatus] at hdialling
    obtain ⟨hone, htimers⟩ := Prod.mk.inj hdialling
    exact ⟨rfl, hone, List.length_eq_zero_iff.1 htimers⟩
  | _ =>
    rw [hstatus] at hdialling
    exact absurd (Prod.mk.inj hdialling).1 hdials

theorem Wired.reconnecting (h : s.Wired) (hfeed : s.feedCancelled ≠ true) {timer : ℕ}
    (htimer : timer ∈ s.timers) : s.status = .reconnecting ∧ s.dials = 0 ∧ s.timers = [timer] := by
  have hdialling := h.dialling.resolve_left hfeed
  cases hstatus : s.status with
  | reconnecting =>
    rw [hstatus] at hdialling
    obtain ⟨hdials, htimers⟩ := Prod.mk.inj hdialling
    grind [List.length_eq_one_iff]
  | _ =>
    rw [hstatus] at hdialling
    rw [List.length_eq_zero_iff.1 (Prod.mk.inj hdialling).2] at htimer
    cases htimer

/-- A connection is wired up when no other is left. -/
theorem wired_wireUpConnection (hsource : ∀ (i : ℕ) (loop : Loop), s.loops[i]? = some loop →
      loop.source = i) (hlive : ∀ i, s.isLive i = false)
    (hdialling : s.feedCancelled = true ∨ s.dials = 0 ∧ s.timers = []) (dialled : Bool) :
    (s.wireUpConnection dialled).Wired where
  source i loop hi := by
    rcases Machine.getElem?_concat hi with hi | ⟨rfl, rfl⟩
    · exact hsource i loop hi
    · rfl
  live i hi := by
    obtain ⟨loop, hloop, hl⟩ := isLive_iff.1 hi
    rcases Machine.getElem?_concat hloop with hloop | ⟨rfl, rfl⟩
    · have := isLive_iff.2 ⟨loop, hloop, hl⟩
      rw [hlive i] at this
      cases this
    · exact ⟨rfl, .inr rfl⟩
  idle h := by cases h
  dialling := by
    refine hdialling.imp_right fun h => ?_
    rw [wireUpConnection, h.1, h.2]
    rfl

theorem Wired.receive (h : s.Wired) (hlive : s.isLive link = true) (frame : Frame O) :
    (s.receive link frame).Wired := by
  have hheard : (s.hear link).Wired ∧ (s.hear link).isLive link = true := by
    rw [hear]
    split
    · exact ⟨h, hlive⟩
    · refine ⟨?_, ?_⟩
      · exact { h.modify (f := fun loop => { loop with heardFromPeer := true }) (fun _ _ => rfl)
          hlive with }
      · obtain ⟨loop, hloop, hl⟩ := isLive_iff.1 hlive
        exact isLive_iff.2 ⟨{ loop with heardFromPeer := true }, by simp [hloop], hl⟩
  cases frame with
  | manageResponse requestId outcome => exact (hheard.1.setStage _ hheard.2).perform _
  | relayData => exact hheard.1.setStage _ hheard.2
  | other => exact hheard.1.setStage _ hheard.2

theorem Wired.startConsuming (h : s.Wired) (hlive : s.isLive link = true) :
    (s.startConsuming link).Wired := by
  refine h.modify (fun loop hloop => ?_) hlive
  grind

theorem Wired.wiringEnded (h : s.Wired) (hlive : s.isLive link = true)
    (result : Except String Unit) : (s.wiringEnded reconnect link result).Wired := by
  cases result with
  | ok => exact h.startConsuming hlive
  | error reason => grind [State.wiringEnded, wiringFailed, handleDisconnect_done, setStage]

theorem Wired.next (h : s.Wired) {e : Event O} (he : s.ConnectsOnce e) :
    (s.next reconnect e).Wired := by
  have live {stage : Stage} {link : ℕ} (hstage : s.stage link = some stage)
      (hne : ∀ ending, stage ≠ .done ending) : s.isLive link = true :=
    isLive_of_stage hstage hne
  cases e with
  | accept =>
    rw [State.next]
    split
    next hidle =>
      obtain ⟨hloops, -⟩ := h.idle hidle.1
      refine wired_wireUpConnection h.source (fun i => ?_) ?_ false
      · rw [isLive, hloops]
        rfl
      · refine h.dialling.imp_right fun hdialling => ?_
        rw [hidle.1] at hdialling
        obtain ⟨hdials, htimers⟩ := Prod.mk.inj hdialling
        exact ⟨hdials, List.length_eq_zero_iff.1 htimers⟩
    next => exact h
  | connect =>
    rw [State.next]
    split
    next hnone =>
      refine ⟨h.source, fun i hi => ?_, by simp [doConnect], .inr ?_⟩
      · have := (h.live i hi).1
        rw [hnone] at this
        cases this
      · simp [doConnect, he.1, he.2, Status.dialling]
    next => exact h
  | dialled =>
    rw [State.next]
    split_ifs with hdials hfeed
    · exact h
    · exact ⟨h.source, h.live, h.idle, .inl hfeed⟩
    · obtain ⟨hstatus, hone, htimers⟩ := h.connecting hfeed hdials
      refine wired_wireUpConnection (s := { s with dials := s.dials - 1 }) h.source ?_
        (.inr ⟨by simp [hone], htimers⟩) true
      exact h.not_isLive hfeed (by simp [hstatus])
  | dialFailed =>
    rw [State.next]
    split_ifs with hdials
    · exact h
    · refine wired_handleDisconnect (fun hfeed => ⟨h.source, h.live, h.idle, .inl hfeed⟩) h.source
        (fun hfeed => ?_) fun hfeed => ?_
      · rw [← Bool.not_eq_true] at hfeed
        exact h.not_isLive hfeed (by simp [(h.connecting hfeed hdials).1])
      · grind [connecting]
  | redial timer =>
    rw [State.next]
    split_ifs with htimer
    · refine ⟨h.source, fun i hi => ?_, by simp [doConnect], ?_⟩
      · refine (h.live i hi).imp_right fun hstatus => ?_
        by_cases hfeed : s.feedCancelled = true
        · exact .inl hfeed
        · rw [(h.reconnecting hfeed htimer).1] at hstatus
          simp [hfeed] at hstatus
      · by_cases hfeed : s.feedCancelled = true
        · exact .inl hfeed
        · obtain ⟨-, hdials, htimers⟩ := h.reconnecting hfeed htimer
          exact .inr (by simp [doConnect, hdials, htimers, Status.dialling])
    · exact h
  | wired link result => grind [State.next, wiringEnded]
  | received link frame => grind [State.next, setStage, receive]
  | opened link sender requestId outcome => grind [State.next, setStage, perform]
  | applied link => grind [State.next, setStage]
  | hooked link => grind [State.next, setStage]
  | streamEnded link =>
    rw [State.next]
    split_ifs with hstage
    · exact Wired.finish (s := s.onSessionEnd link) { h with } (live hstage (by simp)) .streamEnded
    · exact h
  | threw link =>
    rw [State.next]
    split_ifs with hconsuming
    · obtain ⟨stage, hstage, hconsuming⟩ := (Option.any_eq_true _ _).1 hconsuming
      exact h.finish (live hstage (by rintro ending rfl; cases hconsuming)) .threw
    · exact h
  | request target hasTimeout => exact h.perform _
  | paired call result => exact h.perform _
  | transmitted call result => exact h.perform _
  | timeout call => exact h.perform _
  | close =>
    refine ⟨h.source, fun i hi => ?_, h.idle, .inl rfl⟩
    exact ⟨(h.live i hi).1, .inl rfl⟩
  | closed =>
    rw [State.next]
    split_ifs with hfeed
    · refine ⟨h.source, fun i hi => ?_, by simp, .inl hfeed.1⟩
      exact ⟨(h.live i hi).1, .inl hfeed.1⟩
    · exact h

end State

end WireMesh.TypeScript.MeshSession
