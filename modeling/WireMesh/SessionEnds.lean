import WireMesh.TypeScript.ByteStream
import WireMesh.TypeScript.SessionConnections

/-!
# The ends of connections

A session calls `onSessionEnd` for a connection when the frame stream of that ends, once
(`session_end_reported`). It does not when an exception ends the loop: one from `receive()`, as for
a frame that is too long, from `applyFrame`, or from the `onFrame` hook (`session_end_unreported`).
-/

namespace WireMesh.TypeScript.MeshSession

open Machine

namespace State

variable {O : Type} {reconnect : Option ℕ} {s : State O} {e : Event O} {link : ℕ}

/-! ## Stages -/

theorem stage_setStage (s : State O) (link : ℕ) (stage : Stage) (i : ℕ) :
    (s.setStage link stage).stage i =
      if link = i then (s.stage i).map fun _ => stage else s.stage i := by grind [stage, setStage]

theorem loops_handleDisconnect (s : State O) :
    (s.handleDisconnect reconnect).loops = s.loops := by
  rw [handleDisconnect]
  split
  · rfl
  · split <;> rfl

theorem loops_finish (s : State O) (link : ℕ) (ending : Ending) :
    (s.finish reconnect link ending).loops = (s.setStage link (.done ending)).loops := by
  rw [finish]
  split
  · exact loops_handleDisconnect _
  · rfl

theorem stage_hear (s : State O) (link i : ℕ) : (s.hear link).stage i = s.stage i := by
  grind [hear, stage]

/-- What ends a loop. -/
def Ends (s : State O) (e : Event O) (link : ℕ) : Ending → Prop
  | .streamEnded => e = .streamEnded link ∧ s.stage link = some .receiving
  | .cancelled => s.feedCancelled = true
  | .threw => e = .threw link
  | .unwired => ∃ reason, e = .wired link (.error reason)

/-- What an event does with a loop. -/
inductive Moves (s : State O) (e : Event O) (link : ℕ) : Option Stage → Prop
  | same : s.Moves e link (s.stage link)
  | on {stage : Stage} (hs : ∀ ending, s.stage link ≠ some (.done ending))
      (hstage : ∀ ending, stage ≠ .done ending) : s.Moves e link (some stage)
  | ended {ending : Ending} (hs : ∀ ending, s.stage link ≠ some (.done ending))
      (h : s.Ends e link ending) : s.Moves e link (some (.done ending))

theorem moves_setStage {i : ℕ} {before stage : Stage} (hs : s.stage link = some before)
    (hbefore : ∀ ending, before ≠ .done ending)
    (hstage : ∀ ending, stage = .done ending → s.Ends e link ending) :
    s.Moves e i ((s.setStage link stage).stage i) := by
  rw [stage_setStage]
  split_ifs with heq
  · subst heq
    have hnot (ending : Ending) : s.stage link ≠ some (.done ending) := by grind
    rw [hs, Option.map_some]
    by_cases hdone : ∃ ending, stage = .done ending
    · obtain ⟨ending, rfl⟩ := hdone
      exact .ended hnot (hstage ending rfl)
    · exact .on hnot fun ending h => hdone ⟨ending, h⟩
  · exact .same

theorem stage_congr {t : State O} (h : t.loops = s.loops) (i : ℕ) : t.stage i = s.stage i := by
  rw [State.stage, State.stage, h]

theorem moves_wireUpConnection (s : State O) (e : Event O) (dialled : Bool) (i : ℕ) :
    s.Moves e i ((s.wireUpConnection dialled).stage i) := by
  rw [State.stage, wireUpConnection, List.getElem?_append]
  split_ifs with hlt
  · exact .same
  · have hnone : s.stage i = none := by grind [stage]
    rw [List.getElem?_singleton]
    split_ifs
    · exact .on (by simp [hnone]) (by simp)
    · rw [Option.map_none, ← hnone]
      exact .same

theorem moves_startConsuming (hs : s.stage link = some .wiring) (e : Event O) (i : ℕ) :
    s.Moves e i ((s.startConsuming link).stage i) := by
  have hstage : (s.startConsuming link).stage i = (s.setStage link .receiving).stage i := by
    grind [stage, startConsuming, setStage]
  rw [hstage]
  exact moves_setStage hs (by simp) (by simp)

theorem moves_done {before : Stage} (hs : s.stage link = some before)
    (hbefore : ∀ ending, before ≠ .done ending) (ending : Ending) (h : s.Ends e link ending)
    (i : ℕ) : s.Moves e i ((s.setStage link (.done ending)).stage i) :=
  moves_setStage hs hbefore fun _ heq => Stage.done.inj heq ▸ h

theorem moves_next (reconnect : Option ℕ) (s : State O) (e : Event O) (i : ℕ) :
    s.Moves e i ((s.next reconnect e).stage i) := by
  cases e with
  | accept =>
    rw [next]
    split_ifs
    · exact moves_wireUpConnection s _ false i
    · exact .same
  | connect | redial | closed =>
    rw [next]
    split_ifs <;> exact .same
  | dialled =>
    rw [next]
    split_ifs
    · exact .same
    · exact .same
    · exact moves_wireUpConnection s _ true i
  | dialFailed =>
    rw [next]
    split_ifs
    · exact .same
    · rw [stage_congr (loops_handleDisconnect _)]
      exact .same
  | wired link result =>
    rw [next]
    split_ifs with hstage
    · cases result with
      | ok => exact moves_startConsuming hstage _ i
      | error reason =>
        have hmoves : s.Moves (.wired link (.error reason)) i
            ((s.setStage link (.done .unwired)).stage i) :=
          moves_done hstage (by simp) .unwired ⟨reason, rfl⟩ i
        grind [wiringEnded, wiringFailed, stage_congr, loops_handleDisconnect]
    · exact .same
  | received link frame =>
    rw [next]
    split_ifs with hstage hfeed
    · exact moves_done hstage (by simp) .cancelled hfeed i
    · have going (relayed : Bool) : s.Moves (.received link frame) i
          (((s.hear link).setStage link (.applying relayed)).stage i) := by
        rw [stage_setStage, stage_hear, ← stage_setStage]
        exact moves_setStage hstage (by simp) (by simp)
      cases frame <;> exact going _
    · exact .same
  | opened link sender requestId outcome =>
    rw [next]
    split_ifs with hstage
    · exact moves_setStage hstage (by simp) (by simp)
    · exact .same
  | applied link =>
    rw [next]
    split
    next hstage => exact moves_setStage hstage (by simp) (by simp)
    next => exact .same
  | hooked link =>
    rw [next]
    split_ifs with hstage
    · exact moves_setStage hstage (by simp) (by simp)
    · exact .same
  | streamEnded link =>
    rw [next]
    split_ifs with hstage
    · rw [stage_congr (loops_finish _ link .streamEnded)]
      exact moves_done hstage (by simp) .streamEnded ⟨rfl, hstage⟩ i
    · exact .same
  | threw link =>
    rw [next]
    split_ifs with hconsuming
    · obtain ⟨stage, hstage, hconsuming⟩ := (Option.any_eq_true _ _).1 hconsuming
      rw [stage_congr (loops_finish s link .threw)]
      refine moves_done hstage ?_ .threw rfl i
      rintro ending rfl
      cases hconsuming
    · exact .same
  | request | paired | transmitted | timeout | close => exact .same

/-! ## Reports -/

theorem sessionEnds_handleDisconnect (s : State O) :
    (s.handleDisconnect reconnect).sessionEnds = s.sessionEnds := by
  rw [handleDisconnect]
  split
  · rfl
  · split <;> rfl

theorem sessionEnds_finish (s : State O) (link : ℕ) (ending : Ending) :
    (s.finish reconnect link ending).sessionEnds = s.sessionEnds := by
  rw [finish]
  split
  · exact sessionEnds_handleDisconnect _
  · rfl

theorem sessionEnds_next_of_ne (h : ∀ link, e ≠ .streamEnded link) :
    (s.next reconnect e).sessionEnds = s.sessionEnds := by
  cases e with
  | streamEnded link => exact absurd rfl (h link)
  | accept | connect | redial | closed | opened | hooked | applied =>
    rw [next]
    split <;> rfl
  | dialled =>
    rw [next]
    split_ifs <;> rfl
  | dialFailed => grind [next, sessionEnds_handleDisconnect]
  | wired link result =>
    rw [next]
    split
    · cases result with
      | ok => rfl
      | error reason =>
        rw [wiringEnded, wiringFailed]
        split
        · exact sessionEnds_handleDisconnect _
        · rfl
    · rfl
  | received link frame =>
    have hheard : (s.hear link).sessionEnds = s.sessionEnds := by
      rw [hear]
      split <;> rfl
    rw [next]
    split_ifs
    · rfl
    · cases frame <;> exact hheard
    · rfl
  | threw link => grind [next, sessionEnds_finish]
  | request | paired | transmitted | timeout | close => rfl

/-- The end of a frame stream is reported. -/
theorem next_streamEnded (reconnect : Option ℕ) (h : s.Wired)
    (hs : s.stage link = some .receiving) :
    (s.next reconnect (.streamEnded link)).stage link = some (.done .streamEnded) ∧
      (s.next reconnect (.streamEnded link)).sessionEnds = s.sessionEnds ++ [link] := by
  obtain ⟨loop, hloop, -⟩ := stage_eq_some.1 hs
  rw [next, if_pos hs, stage_congr (loops_finish _ link .streamEnded), stage_setStage, if_pos rfl,
    sessionEnds_finish, onSessionEnd, hloop, Option.map_some, h.source link loop hloop]
  grind [stage]

/-- How a loop has ended, and how often its end has been reported. -/
@[grind cases]
structure Reported (events : List (Event O)) (s : State O) : Prop where
  count : ∀ link, s.sessionEnds.count link =
    if s.stage link = some (.done .streamEnded) then 1 else 0
  threw : ∀ link, s.stage link = some (.done .threw) → .threw link ∈ events
  unwired : ∀ link, s.stage link = some (.done .unwired) →
    ∃ reason, .wired link (.error reason) ∈ events

theorem reported_init : Reported [] (init : State O) where
  count _ := rfl
  threw _ h := by cases h
  unwired _ h := by cases h

/-- A loop that has ended has done so before, or ends now. -/
theorem ends_of_stage_next {ending : Ending}
    (h : (s.next reconnect e).stage link = some (.done ending)) :
    s.stage link = some (.done ending) ∨
      (∀ ending', s.stage link ≠ some (.done ending')) ∧ s.Ends e link ending := by
  have hmoves := moves_next reconnect s e link
  rw [h] at hmoves
  generalize hstage : some (Stage.done ending) = stage at hmoves
  cases hmoves with
  | same => exact .inl rfl
  | on hs hne => exact absurd (Option.some.inj hstage).symm (hne ending)
  | ended hs hends =>
    cases hstage
    exact .inr ⟨hs, hends⟩

theorem stage_next_of_done {ending : Ending} (h : s.stage link = some (.done ending)) :
    (s.next reconnect e).stage link = some (.done ending) := by
  have hmoves := moves_next reconnect s e link
  generalize (s.next reconnect e).stage link = stage at hmoves
  cases hmoves with
  | same => exact h
  | on hs | ended hs => exact absurd h (hs ending)

/-- Only the end of the frame stream of a connection is an end that counts. -/
theorem count_next (hw : s.Wired) (hcount : ∀ link, s.sessionEnds.count link =
      if s.stage link = some (.done .streamEnded) then 1 else 0) (link : ℕ) :
    (s.next reconnect e).sessionEnds.count link =
      if (s.next reconnect e).stage link = some (.done .streamEnded) then 1 else 0 := by
  by_cases he : e = .streamEnded link ∧ s.stage link = some .receiving
  · grind [next_streamEnded]
  · have hsame : (s.next reconnect e).sessionEnds.count link = s.sessionEnds.count link := by
      grind [next_streamEnded, next, sessionEnds_next_of_ne]
    have hiff : (s.next reconnect e).stage link = some (.done .streamEnded) ↔
        s.stage link = some (.done .streamEnded) :=
      ⟨fun h => (ends_of_stage_next h).resolve_right fun hends => he hends.2, stage_next_of_done⟩
    rw [hsame, hcount]
    simp only [hiff]

theorem Reported.next {events : List (Event O)} (h : s.Reported events) (hw : s.Wired) :
    (s.next reconnect e).Reported (events ++ [e]) where
  count := count_next hw h.count
  threw link hstage := by
    rcases ends_of_stage_next hstage with hs | ⟨-, rfl⟩
    · exact List.mem_append_left _ (h.threw link hs)
    · exact List.mem_append_right _ (List.mem_singleton.2 rfl)
  unwired link hstage := by
    rcases ends_of_stage_next hstage with hs | ⟨-, reason, rfl⟩
    · grind
    · exact ⟨reason, List.mem_append_right _ (List.mem_singleton.2 rfl)⟩

theorem reported_run {events : List (Event O)}
    (h : Along (State.next reconnect) ConnectsOnce init events) :
    (run (State.next reconnect) init events).Wired ∧
      (run (State.next reconnect) init events).Reported events := by
  induction events using List.reverseRecOn with
  | nil => exact ⟨wired_init, reported_init⟩
  | append_singleton events e ih =>
    obtain ⟨hbefore, he⟩ := h.concat
    obtain ⟨hw, hreported⟩ := ih hbefore
    rw [run_append]
    exact ⟨hw.next he, hreported.next hw⟩

end State

open State

/-- Unless the handshake cannot be sent, the loop throws or the feed is cancelled, the end of a
    connection is reported exactly once, and never twice. -/
theorem session_end_reported {O : Type} (reconnect : Option ℕ) (events : List (Event O))
    (h : Along (next reconnect) ConnectsOnce init events) (link : ℕ) :
    (run (next reconnect) init events).sessionEnds.count link ≤ 1 ∧
    ∀ ending, (run (next reconnect) init events).stage link = some (.done ending) →
      ending ≠ .cancelled → (∀ reason, .wired link (.error reason) ∉ events) →
      .threw link ∉ events → (run (next reconnect) init events).sessionEnds.count link = 1 := by
  obtain ⟨-, hreported⟩ := reported_run h
  rw [hreported.count]
  refine ⟨by split <;> simp, fun ending hstage hcancelled hwired hthrew => ?_⟩
  cases ending with
  | streamEnded => exact if_pos hstage
  | cancelled => exact absurd rfl hcancelled
  | threw => exact absurd (hreported.threw link hstage) hthrew
  | unwired =>
    obtain ⟨reason, hmem⟩ := hreported.unwired link hstage
    exact absurd hmem (hwired reason)

/-- An accepted connection ends after a frame. -/
def sampleSession : List (Event ℕ) :=
  [.accept, .wired 0 (.ok ()), .received 0 .other, .applied 0, .hooked 0, .streamEnded 0]

theorem session_end_reported_sample :
    (run (next none) init sampleSession).sessionEnds.count 0 = 1 :=
  (session_end_reported none sampleSession (by decide +kernel) 0).2 .streamEnded rfl (by simp)
    (by simp [sampleSession]) (by simp [sampleSession])

/-- Whatever the loop of an accepted connection awaits may throw: `receive()`, at a frame that is
    too long, `applyFrame` and `onFrame`. Its end is then not reported. -/
theorem session_end_unreported :
    readFrames StreamCodec.sample [[255, 255, 255, 255]] =
        ([], .error (frameTooLong 4294967295)) ∧
      ∀ before ∈ [[], [.received 0 .other], [.received 0 .other, .applied 0]],
        let s : State ℕ :=
          run (next none) init ([.accept, .wired 0 (.ok ())] ++ before ++ [.threw 0])
        s.stage 0 = some (.done .threw) ∧ s.feedCancelled = false ∧ s.sessionEnds = [] := by
  refine ⟨?_, ?_⟩
  · rw [readFrames, Chunked.Reader.read_eq_drain]
    exact Chunked.Reader.drain_of_fail (by rfl)
  · intro before hbefore
    simp only [List.mem_cons, List.not_mem_nil, or_false] at hbefore
    rcases hbefore with rfl | rfl | rfl <;> exact ⟨rfl, rfl, rfl⟩

end WireMesh.TypeScript.MeshSession
