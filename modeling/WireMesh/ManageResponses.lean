import WireMesh.TypeScript.PendingRequests
import WireMesh.TypeScript.SessionConnections

/-!
# Responses to requests

Which response resolves a request of a session, whatever the order in which frames, timers, the ends
of connections and the requests themselves take their turns (`manage_responses_matched`).

A request that waits was made on the connection that the session has (`Held`), unless it registers
after that is lost. A relayed request does so whose pairing takes until then. The session rejects
what waits when it loses a connection, but not when it connects again, and so a response on the next
connection resolves the request (`manage_response_after_loss`).
-/

namespace WireMesh.TypeScript.MeshSession

open Machine

variable {O : Type} {reconnect : Option ℕ}

/-- A response, as it arrives at a session: directly, or opened under the channel of a device. -/
structure Response (O : Type) where
  link : ℕ
  sender : Option DeviceId
  requestId : ℕ
  outcome : O

def Event.response : Event O → Option (Response O)
  | .received link (.manageResponse requestId outcome) => some ⟨link, none, requestId, outcome⟩
  | .opened link sender requestId outcome => some ⟨link, some sender, requestId, outcome⟩
  | _ => none

namespace State

variable {s : State O} {e : Event O} {op : Requests.Op O}

/-! ## What an event does with the requests -/

/-- Only a response that arrives on a connection that is not lost is applied, only a call registers
    a request, and it does so on the connection that the session has. -/
inductive Performs (s : State O) : Event O → Requests.Op O → Prop
  | reject (e : Event O) (reason : String) : s.Performs e (.rejectPendingManageRequests reason)
  | request (target : Option DeviceId) (hasTimeout : Bool) :
      s.Performs (.request target hasTimeout) (.sendManageRequest target hasTimeout s.connection
        (s.connection.isSome && s.status = .connected))
  | paired (call : ℕ) (result : Except String Unit) :
      s.Performs (.paired call result) (.paired call result)
  | transmitted (call : ℕ) (result : Except String Unit) :
      s.Performs (.transmitted call result) (.transmitted call result)
  | timeout (call : ℕ) : s.Performs (.timeout call) (.timeout call)
  | response {e : Event O} {response : Response O} (he : e.response = some response)
      (hlive : s.isLive response.link = true) :
      s.Performs e (.applyManageResponse response.requestId response.outcome response.sender)

theorem Performs.connected {target : Option DeviceId} {hasTimeout connected : Bool}
    {link : Option ℕ}
    (h : s.Performs e (.sendManageRequest target hasTimeout link connected)) :
    link = s.connection ∧ connected = (s.connection.isSome && s.status = .connected) := by
  cases h
  exact ⟨rfl, rfl⟩

/-- An event leaves the requests alone, or performs one operation on them. -/
def Steps (s : State O) (e : Event O) (r : Requests O) : Prop :=
  r = s.requests ∨ ∃ op, s.Performs e op ∧ r = s.requests.perform op

theorem steps_handleDisconnect {t : State O} (ht : t.requests = s.requests) :
    s.Steps e (t.handleDisconnect reconnect).requests := by
  rw [handleDisconnect]
  split
  · exact .inl ht
  · refine .inr ⟨_, .reject e "disconnected before a response arrived", ?_⟩
    rw [← ht]
    split <;> rfl

theorem steps_finish {t : State O} (ht : t.requests = s.requests) (link : ℕ) (ending : Ending) :
    s.Steps e (t.finish reconnect link ending).requests := by
  rw [finish]
  split
  · exact steps_handleDisconnect ht
  · exact .inl ht

theorem requests_hear (s : State O) (link : ℕ) : (s.hear link).requests = s.requests := by
  rw [hear]
  split <;> rfl

/-- A frame leaves the connection as it is. -/
theorem receive_frame (s : State O) (link : ℕ) (frame : Frame O) :
    (s.receive link frame).connection = s.connection ∧
      (s.receive link frame).feedCancelled = s.feedCancelled ∧
      (s.receive link frame).status = s.status := by
  have hhear : (s.hear link).connection = s.connection ∧
      (s.hear link).feedCancelled = s.feedCancelled ∧ (s.hear link).status = s.status := by
    rw [hear]
    split <;> exact ⟨rfl, rfl, rfl⟩
  cases frame <;> exact hhear

theorem steps_next (reconnect : Option ℕ) (s : State O) (e : Event O) :
    s.Steps e (s.next reconnect e).requests := by
  cases e with
  | accept | connect | redial | applied | hooked | closed =>
    rw [next]
    split <;> exact .inl rfl
  | dialled =>
    rw [next]
    split_ifs <;> exact .inl rfl
  | dialFailed =>
    rw [next]
    split
    · exact .inl rfl
    · exact steps_handleDisconnect rfl
  | wired link result =>
    rw [next]
    split
    · cases result with
      | ok => exact .inl rfl
      | error reason =>
        rw [wiringEnded, wiringFailed]
        split
        · exact steps_handleDisconnect rfl
        · exact .inl rfl
    · exact .inl rfl
  | received link frame =>
    rw [next]
    split_ifs with hstage
    · exact .inl rfl
    · cases frame with
      | manageResponse requestId outcome =>
        refine .inr ⟨_, .response rfl (isLive_of_stage hstage (by simp)), ?_⟩
        rw [← requests_hear s link]
        rfl
      | relayData => exact .inl (requests_hear s link)
      | other => exact .inl (requests_hear s link)
    · exact .inl rfl
  | opened link sender requestId outcome =>
    rw [next]
    split_ifs with hstage
    · exact .inr ⟨_, .response rfl (isLive_of_stage hstage (by simp)), rfl⟩
    · exact .inl rfl
  | streamEnded link =>
    rw [next]
    split
    · exact steps_finish (s := s) (t := s.onSessionEnd link) rfl link .streamEnded
    · exact .inl rfl
  | threw link =>
    rw [next]
    split
    · exact steps_finish rfl link .threw
    · exact .inl rfl
  | request target hasTimeout => exact .inr ⟨_, .request target hasTimeout, rfl⟩
  | paired call result => exact .inr ⟨_, .paired call result, rfl⟩
  | transmitted call result => exact .inr ⟨_, .transmitted call result, rfl⟩
  | timeout call => exact .inr ⟨_, .timeout call, rfl⟩
  | close => exact .inr ⟨_, .reject .close _, rfl⟩

/-- Every event changes the requests as one of their operations does. -/
theorem valid_next (h : s.requests.Valid) (e : Event O) : (s.next reconnect e).requests.Valid := by
  rcases steps_next reconnect s e with heq | ⟨op, -, heq⟩
  · rwa [heq]
  · rw [heq]
    exact (Requests.change_perform _ op).valid h

/-! ## Requests that wait -/

/-- The connection of a call has not been lost. -/
def OnConnection (s : State O) (c : ℕ) : Prop :=
  (s.requests.calls[c]?.any fun x => x.link.any s.isLive) = true

/-- A relayed request that registers does so before its connection is lost. -/
def PairsInTime (s : State O) : Event O → Prop
  | .paired call (.ok ()) => s.OnConnection call
  | _ => True

/-- The requests that wait were made on the connection that the session has. -/
def Held (s : State O) : Prop :=
  ∀ id p, s.requests.pending.get id = some p →
    ∃ link, s.requests.links[p.call]? = some (some link) ∧ s.connection = some link ∧
      (s.feedCancelled = true ∨ s.status = .connected)

theorem held_init : (init : State O).Held := by
  intro id p hp
  cases hp

/-- What an event registers, it registers on the connection that the session has. -/
theorem Held.of_steps (h : s.Held) (hw : s.Wired) (he : s.PairsInTime e) {t : State O}
    (hsteps : s.Steps e t.requests) (hconnection : t.connection = s.connection)
    (hstatus : s.feedCancelled = true ∨ s.status = .connected →
      t.feedCancelled = true ∨ t.status = .connected) : t.Held := by
  intro id p hp
  rw [hconnection]
  rcases hsteps with heq | ⟨op, hop, heq⟩
  · rw [heq] at hp ⊢
    obtain ⟨link, hlink, hlinked, hconnected⟩ := h id p hp
    exact ⟨link, hlink, hlinked, hstatus hconnected⟩
  · rw [heq] at hp ⊢
    have hchange := Requests.change_perform s.requests op
    have keeps {link : ℕ} (hlink : s.requests.links[p.call]? = some (some link)) :
        (s.requests.perform op).links[p.call]? = some (some link) := by
      obtain ⟨hlt, -⟩ := List.getElem?_eq_some_iff.1 hlink
      obtain ⟨later, hlater⟩ := hchange.links_prefix
      rw [← hlater, List.getElem?_append_left hlt, hlink]
    rcases hchange.pending hp with hp | ⟨hasTimeout, link, rfl, hlink⟩ | rfl
    · obtain ⟨link, hlink, hlinked, hconnected⟩ := h id p hp
      exact ⟨link, keeps hlink, hlinked, hstatus hconnected⟩
    · grind [Performs.connected, Option.isSome_iff_exists]
    · cases hop with
      | paired =>
        obtain ⟨x, hx, hany⟩ := (Option.any_eq_true _ _).1 he
        grind [Option.any_eq_true, Requests.links]

/-- A session that is not closed rejects what waits. -/
theorem Held.handleDisconnect (h : s.Held) : (s.handleDisconnect reconnect).Held := by
  rw [State.handleDisconnect]
  split
  · exact h
  · intro id p hp
    split at hp <;> cases hp

theorem Held.finish (h : s.Held) (link : ℕ) (ending : Ending) :
    (s.finish reconnect link ending).Held := by
  rw [State.finish]
  split
  · exact Held.handleDisconnect h
  · exact h

theorem Held.next (h : s.Held) (hw : s.Wired) (he : s.PairsInTime e) :
    (s.next reconnect e).Held := by
  have steps := steps_next reconnect s e
  -- Without a connection, or while the session dials, nothing waits.
  have absent {t : State O} (hs : s.connection = none) (ht : t.requests = s.requests) : t.Held := by
    intro id p hp
    rw [ht] at hp
    obtain ⟨link, -, hlinked, -⟩ := h id p hp
    rw [hs] at hlinked
    cases hlinked
  have dialling {t : State O} (hfeed : s.feedCancelled ≠ true) (hstatus : s.status ≠ .connected)
      (ht : t.requests = s.requests) : t.Held := by
    intro id p hp
    rw [ht] at hp
    obtain ⟨link, -, -, hconnected⟩ := h id p hp
    exact absurd (hconnected.resolve_left hfeed) hstatus
  cases e with
  | accept =>
    rw [State.next]
    split_ifs with hidle
    · exact absent (hw.idle hidle.1).2 rfl
    · exact h
  | connect =>
    rw [State.next]
    split_ifs with hnone
    · exact absent hnone rfl
    · exact h
  | dialled =>
    rw [State.next]
    split_ifs with hdials hfeed
    · exact h
    · exact h
    · exact dialling hfeed (by simp [(hw.connecting hfeed hdials).1]) rfl
  | dialFailed =>
    rw [State.next]
    split_ifs
    · exact h
    · exact Held.handleDisconnect h
  | redial timer =>
    rw [State.next]
    split_ifs with htimer
    · by_cases hfeed : s.feedCancelled = true
      · exact h.of_steps hw he (.inl rfl) rfl fun _ => .inl hfeed
      · exact dialling hfeed (by simp [(hw.reconnecting hfeed htimer).1]) rfl
    · exact h
  | wired link result =>
    rw [State.next]
    split_ifs
    · cases result with
      | ok => exact h
      | error reason =>
        rw [wiringEnded, wiringFailed]
        split_ifs
        · exact Held.handleDisconnect h
        · exact h
    · exact h
  | received link frame =>
    rw [State.next] at steps ⊢
    split_ifs at steps ⊢
    · exact h
    · grind [receive_frame, of_steps]
    · exact h
  | opened link sender requestId outcome =>
    rw [State.next] at steps ⊢
    split_ifs at steps ⊢
    · exact h.of_steps hw he steps rfl id
    · exact h
  | applied link =>
    rw [State.next]
    split <;> exact h
  | hooked link =>
    rw [State.next]
    split_ifs <;> exact h
  | streamEnded link =>
    rw [State.next]
    split_ifs
    · exact Held.finish (s := s.onSessionEnd link) h link .streamEnded
    · exact h
  | threw link => grind [State.next, finish]
  | request | paired | transmitted | timeout => exact h.of_steps hw he steps rfl id
  | close => exact h.of_steps hw he steps rfl fun _ => .inl rfl
  | closed => grind [State.next, of_steps]

/-! ## Runs -/

/-- An event resolves the promise of a call. -/
def Resolves (reconnect : Option ℕ) (s : State O) (e : Event O) (c : ℕ) (o : O) : Prop :=
  ¬ Requests.Answered s.requests.calls c o ∧
    Requests.Answered (s.next reconnect e).requests.calls c o

/-- An event is the response to a request that has been registered and has not timed out, from where
    the request was sent. -/
def Matches (s : State O) (e : Event O) (c : ℕ) (o : O) : Prop :=
  ∃ (x : Call O) (response : Response O), s.requests.calls[c]? = some x ∧
    e.response = some response ∧ response.outcome = o ∧
    x.requestId = some response.requestId ∧ x.target = response.sender ∧
    x.result ≠ some .timedOut

@[grind cases]
structure Valid (s : State O) : Prop where
  requests : s.requests.Valid
  wired : s.Wired
  held : s.Held

theorem valid_init : (init : State O).Valid := ⟨Requests.valid_empty, wired_init, held_init⟩

def Allowed (s : State O) (e : Event O) : Prop := s.ConnectsOnce e ∧ s.PairsInTime e

theorem Valid.next (h : s.Valid) (he : s.Allowed e) : (s.next reconnect e).Valid :=
  ⟨valid_next h.requests e, h.wired.next he.1, h.held.next h.wired he.2⟩

theorem valid_run {events : List (Event O)} (h : Along (next reconnect) Allowed init events) :
    (run (next reconnect) init events).Valid :=
  run_along valid_init (fun _ _ hs he => hs.next he) h

/-- A promise is resolved by a response that waits for its request. -/
theorem pending_of_resolves {c : ℕ} {o : O} (h : Resolves reconnect s e c o) :
    ∃ (response : Response O) (p : PendingManageRequest), e.response = some response ∧
      s.isLive response.link = true ∧ response.outcome = o ∧
      s.requests.pending.get response.requestId = some p ∧ p.call = c ∧
      p.expectedFrom = response.sender := by
  obtain ⟨hnot, hanswered⟩ := h
  rcases steps_next reconnect s e with heq | ⟨op, hop, heq⟩
  · rw [heq] at hanswered
    exact absurd hanswered hnot
  · rw [heq] at hanswered
    rcases (Requests.change_perform _ op).of_answered hanswered with hbefore | ⟨id, p, rfl, hp, rfl⟩
    · exact absurd hbefore hnot
    · generalize hsender : p.expectedFrom = sender at hop
      cases hop with
      | @response _ response he hlive => exact ⟨response, p, he, hlive, rfl, hp, rfl, hsender⟩

theorem matches_of_resolves (h : s.requests.Valid) {c : ℕ} {o : O}
    (hr : Resolves reconnect s e c o) : s.Matches e c o := by
  obtain ⟨response, p, he, -, houtcome, hp, rfl, hsender⟩ := pending_of_resolves hr
  obtain ⟨x, hx⟩ := h.waits _ p hp
  exact ⟨x, response, hx.call, he, houtcome, hx.requestId, hx.target.trans hsender, hx.result⟩

/-- A response arrives on the connection that the session has, and the request waits on it. -/
theorem Valid.onConnection (h : s.Valid) {c : ℕ} {o : O} (hr : Resolves reconnect s e c o) :
    s.OnConnection c := by
  obtain ⟨response, p, -, hlive, -, hp, rfl, -⟩ := pending_of_resolves hr
  obtain ⟨x, hx⟩ := h.requests.waits _ p hp
  obtain ⟨link, hlink, hlinked, -⟩ := h.held _ p hp
  grind [Requests.links, OnConnection]

theorem resolves_unique {c c' : ℕ} {o o' : O} (h : Resolves reconnect s e c o)
    (h' : Resolves reconnect s e c' o') : c' = c := by
  obtain ⟨response, p, he, -, -, hp, rfl, -⟩ := pending_of_resolves h
  obtain ⟨response', p', he', -, -, hp', rfl, -⟩ := pending_of_resolves h'
  grind

/-- Every promise that has been resolved has been resolved by some event. -/
theorem exists_resolves (events : List (Event O)) {c : ℕ} {o : O}
    (h : Requests.Answered (run (next reconnect) init events).requests.calls c o) :
    ∃ before e after, events = before ++ e :: after ∧
      Resolves reconnect (run (next reconnect) init before) e c o := by
  induction events using List.reverseRecOn with
  | nil =>
    obtain ⟨x, hx, -⟩ := h
    cases hx
  | append_singleton events e ih =>
    rw [run_append] at h
    by_cases hbefore :
        Requests.Answered (run (next reconnect) init events).requests.calls c o
    · grind
    · exact ⟨events, e, [], rfl, hbefore, h⟩

def pairsInTime (s : State O) : Event O → Bool
  | .paired call (.ok ()) => s.requests.calls[call]?.any fun x => x.link.any s.isLive
  | _ => true

theorem pairsInTime_iff (s : State O) (e : Event O) :
    s.pairsInTime e = true ↔ s.PairsInTime e := by
  unfold pairsInTime PairsInTime
  split
  · exact Iff.rfl
  · exact iff_of_true rfl trivial

instance decidablePairsInTime (s : State O) (e : Event O) : Decidable (s.PairsInTime e) :=
  decidable_of_iff (s.pairsInTime e = true) (pairsInTime_iff s e)

instance decidableAllowed (s : State O) (e : Event O) : Decidable (s.Allowed e) :=
  inferInstanceAs (Decidable (_ ∧ _))

end State

open State

/-- A response resolves one request at most, and that is a request that it matches. On a session
    whose relayed requests are paired in time, it is also a request whose connection is not lost. -/
theorem manage_responses_matched {O : Type} (reconnect : Option ℕ) (events : List (Event O)) :
    (∀ before e after c o, events = before ++ e :: after →
      Resolves reconnect (run (next reconnect) init before) e c o →
        Matches (run (next reconnect) init before) e c o ∧
        (∀ c' o', Resolves reconnect (run (next reconnect) init before) e c' o' → c' = c) ∧
        (Along (next reconnect) Allowed init events →
          OnConnection (run (next reconnect) init before) c)) ∧
    ∀ c x o, (run (next reconnect) init events).requests.calls[c]? = some x →
      x.result = some (.resolved o) →
        ∃ before e after, events = before ++ e :: after ∧
          Resolves reconnect (run (next reconnect) init before) e c o := by
  have valid (events : List (Event O)) : (run (next reconnect) init events).requests.Valid :=
    run_invariant (P := fun s : State O => s.requests.Valid) Requests.valid_empty
      (fun _ e hs => valid_next hs e) events
  refine ⟨?_, ?_⟩
  · rintro before e after c o rfl hresolves
    refine ⟨matches_of_resolves (valid before) hresolves, ?_, ?_⟩
    · exact fun c' o' => resolves_unique hresolves
    · exact fun h => (valid_run (along_append.1 h).1).onConnection hresolves
  · intro c x o hx hresult
    have hsound := (valid events).sound x (List.mem_of_getElem? hx)
    exact exists_resolves events ⟨x, hx, hsound o hresult⟩

/-- A request is relayed, paired in time, and answered. -/
def sampleExchange : List (Event ℕ) :=
  [.connect, .dialled, .wired 0 (.ok ()), .request (some (.pad [1])) true, .paired 0 (.ok ()),
    .transmitted 0 (.ok ()), .received 0 .relayData]

theorem manage_responses_matched_sample :
    Resolves none (run (next none) init sampleExchange) (.opened 0 (.pad [1]) 0 7) 0 7 ∧
      OnConnection (run (next none) init sampleExchange) 0 := by
  have hresolves : Resolves none (run (next none) init sampleExchange) (.opened 0 (.pad [1]) 0 7)
      0 7 := by
    refine ⟨?_, _, rfl, rfl⟩
    rintro ⟨x, hx, ho⟩
    cases hx
    cases ho
  refine ⟨hresolves, ?_⟩
  exact ((manage_responses_matched none (sampleExchange ++ [.opened 0 (.pad [1]) 0 7])).1
    sampleExchange (.opened 0 (.pad [1]) 0 7) [] 0 7 rfl hresolves).2.2 (by decide +kernel)

/-- The connection ends while a relayed request is waiting for its pairing, and the session connects
    again. -/
def sampleLoss : List (Event ℕ) :=
  [.connect, .dialled, .wired 0 (.ok ()), .request (some (.pad [1])) false, .streamEnded 0,
    .paired 0 (.ok ()), .transmitted 0 (.ok ()), .redial 0, .dialled, .wired 1 (.ok ()),
    .received 1 .relayData]

/-- A response resolves the request on the next connection. -/
theorem manage_response_after_loss :
    Resolves (some 1) (run (next (some 1)) init sampleLoss) (.opened 1 (.pad [1]) 0 7) 0 7 ∧
      ¬ OnConnection (run (next (some 1)) init sampleLoss) 0 ∧
      (run (next (some 1)) init (sampleLoss ++ [.opened 1 (.pad [1]) 0 7])).requests.calls.map
        Call.result = [some (.resolved 7)] := by
  refine ⟨⟨?_, _, rfl, rfl⟩, ?_, rfl⟩
  · rintro ⟨x, hx, ho⟩
    cases hx
    cases ho
  · rw [OnConnection]
    decide +kernel

end WireMesh.TypeScript.MeshSession
