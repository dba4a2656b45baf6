import WireMesh.Attribution

/-!
# Who writes to a log in the mailbox

The mailbox of the hub takes entries of a log from the device that the hub attributes to the
connection they come on. Connections are opened by honest devices, each of which sends entries
of its own log only, or by an adversary, which may gossip again the adverts of others that it
has seen.

When a device has gone, its advert that an adversary gossips again registers the device to the
adversary, who can then write to the log of the device (`log_written_by_replay`). What keeps it
from doing so is a registration of the device that is at least as new
(`log_written_by_device`).
-/

namespace WireMesh.TypeScript.RelayHub

variable {Conn Value : Type} [DecidableEq Conn] {options : RelayHubOptions Value}
  {opener : Conn → Option DeviceId} {device : DeviceId} {events : List (Event Conn Value)}
  {s : State Conn Value} {e : Event Conn Value}

/-- The task that goes on at the event. -/
def Event.resumed (s : State Conn Value) : Event Conn Value → Option (Task Conn Value)
  | .resume i => s.tasks[i]?
  | _ => none

/-- The adverts that have passed, if the task is to handle a gossip frame. -/
def Task.adverts (cache : VerdictCache (PeerAdvert Value)) :
    Task Conn Value → Option (List (PeerAdvert Value))
  | verifying _ requests => verified cache requests
  | _ => none

/-- An advert of the device that the adversary gossips finds the device registered to another
    connection, under an advert that is at least as new. The connections that `opener` gives a
    device for are opened by that device, the others by the adversary. -/
def Guarded (opener : Conn → Option DeviceId) (device : DeviceId) (s : State Conn Value)
    (e : Event Conn Value) : Prop :=
  ∀ t ∈ e.resumed s, ∀ adverts ∈ t.adverts s.cache, opener t.connection = none →
    ∀ advert ∈ adverts, advert.device = device → ∃ r ∈ s.maps.devices.get device,
      r.connection ≠ t.connection ∧ advert.snapshotSeconds ≤ r.advert.snapshotSeconds

instance (s : State Conn Value) (e : Event Conn Value) :
    Decidable (Guarded opener device s e) := by
  unfold Guarded
  infer_instance

/-! ## The adversary does not become the device -/

/-- The device is neither registered nor attributed to a connection of the adversary. -/
@[grind cases]
structure Distinct (opener : Conn → Option DeviceId) (device : DeviceId) (m : Maps Conn Value) :
    Prop where
  registered : ∀ c, opener c = none → ¬m.RegisteredTo device c
  attributed : ∀ c, opener c = none → m.connectionDevice c ≠ some device

theorem distinct_next (h : Distinct opener device s.maps) (hguarded : Guarded opener device s e) :
    Distinct opener device (next options s e).maps := by
  have hstep := mapsStep options s e
  generalize (next options s e).maps = m at hstep ⊢
  cases hstep with
  | @acts _ actor _ hactor hacts =>
    cases hacts with
    | @gossips i adverts hverified =>
      have hregistered (c : Conn) (hc : opener c = none) :
          ¬(s.maps.gossip options.extensionPolicy actor adverts).RegisteredTo device c := by
        rintro ⟨r, hr, rfl⟩
        rcases s.maps.gossip_get options.extensionPolicy actor adverts device with
          hget | ⟨advert, hadvert, hget, hsupersedes⟩
        · exact h.registered _ hc ⟨r, hget ▸ hr, rfl⟩
        · -- The registration that is there is not superseded.
          obtain rfl := Option.some.inj (hget.symm.trans hr)
          obtain ⟨requests, htask, hrequests⟩ := hverified
          obtain ⟨hmem, -⟩ := (s.maps.gossiped_registers options.extensionPolicy actor
            adverts).accepted advert hadvert
          obtain ⟨r, hr, hne, hle⟩ := hguarded (.verifying actor requests) htask adverts
            hrequests hc advert hmem (Directory.advert_device hget)
          exact absurd ((hsupersedes r hr).lt hne) (not_lt.2 hle)
      refine ⟨hregistered, ?_⟩
      intro c hc
      rcases s.maps.connectionDevice_gossip options.extensionPolicy actor adverts with
        hsame | ⟨own, hown, hattributes⟩
      · rw [hsame]
        exact h.attributed c hc
      · rw [hattributes, Function.update_apply]
        grind
    | _ => exact ⟨h.registered, h.attributed⟩
  | forget gone =>
    have hforgotten := Maps.forgotten_forgetConnection s.maps gone
    constructor
    · rintro c hc ⟨r, hr, rfl⟩
      rw [hforgotten.devices, Directory.get_filter] at hr
      exact h.registered _ hc ⟨r, hr.1, rfl⟩
    · intro c hc
      rw [hforgotten.connectionDevice, Function.update_apply]
      grind
  | stop => exact ⟨by simp [Maps.RegisteredTo, Maps.clear], by simp [Maps.clear]⟩
  | same => exact h

/-! ## What is in the log -/

/-- The entry was sent by the device, on a connection that it has opened. -/
def SentByDevice (opener : Conn → Option DeviceId) (device : DeviceId)
    (events : List (Event Conn Value)) (seq : ℕ) (value : Bytes) : Prop :=
  ∃ c frame, opener c = some device ∧ .frame c (.data (.dataEntries frame)) ∈ events ∧
    frame.peer = device ∧ frame.Carries seq value

/-- What may be written under a key: an entry of the log if the device has sent it. -/
def Authentic (opener : Conn → Option DeviceId) (device : DeviceId)
    (events : List (Event Conn Value)) (key : String) (value : Bytes) : Prop :=
  ∀ seq, key = entryKey device seq → SentByDevice opener device events seq value

omit [DecidableEq Conn] in
theorem Authentic.concat {key : String} {value : Bytes}
    (h : Authentic opener device events key value) (e : Event Conn Value) :
    Authentic opener device (events ++ [e]) key value := by
  intro seq hkey
  obtain ⟨c, frame, hc, hframe, hsent⟩ := h seq hkey
  exact ⟨c, frame, hc, List.mem_append_left _ hframe, hsent⟩

/-- All that is in the log, or is going to be written to it, was sent by the device. -/
@[grind cases]
structure OwnLog (opener : Conn → Option DeviceId) (device : DeviceId)
    (events : List (Event Conn Value)) (s : State Conn Value) : Prop where
  distinct : Distinct opener device s.maps
  tasks : ∀ c sender program, .answering c sender program ∈ s.tasks →
    program.Writes (Authentic opener device events)
  storage : ∀ key value, s.storage.lookup key = some value →
    Authentic opener device events key value

omit [DecidableEq Conn] in
/-- A frame that the mailbox is going to handle carries entries of the log only if it is from
    the device. -/
theorem authentic_of_owns (hdistinct : Distinct opener device s.maps) {c : Conn}
    {frame : DataFrame} {key : String} {value : Bytes}
    (hhonest : ∀ sender entries, opener c = some sender → frame = .dataEntries entries →
      entries.peer = sender)
    (hframe : .frame c (.data frame) ∈ events)
    (h : Mailbox.Owns (s.maps.connectionDevice c) frame key value) :
    Authentic opener device events key value := by
  intro seq hkey
  obtain ⟨hsender, entries, rfl, hpeer, hcarries⟩ := h device seq hkey
  cases hc : opener c with
  | none => exact absurd hsender (hdistinct.attributed c hc)
  | some sender =>
    have howner := hhonest sender entries hc rfl
    exact ⟨c, entries, by rw [hc, ← howner, hpeer], hframe, hpeer, hcarries⟩

theorem ownLog_next (h : OwnLog opener device events s) (hguarded : Guarded opener device s e)
    (hhonest : ∀ c sender frame, e = .frame c (.data (.dataEntries frame)) →
      opener c = some sender → frame.peer = sender) :
    OwnLog opener device (events ++ [e]) (next options s e) := by
  refine ⟨distinct_next h.distinct hguarded, ?_, ?_⟩
  · intro c sender program htask
    rcases tasks_next htask with htask | ⟨-, hnew⟩
    · exact (h.tasks c sender program htask).mono fun key value hown => hown.concat e
    · cases hnew with
      | answering hlimits c frame =>
        refine (Mailbox.handle_writes _ frame).mono fun key value howns => ?_
        grind [authentic_of_owns]
      | answers hanswering =>
        grind [StorageProgram.Writes.step, StorageProgram.Writes.mono, Authentic.concat]
  · intro key value hvalue
    rcases storage_next options s e with
      hsame | ⟨i, c, sender, program, rfl, htask, hstep⟩
    · grind [Authentic.concat]
    · rw [hstep] at hvalue
      have hprogram := h.tasks _ _ _ (List.mem_of_getElem? htask)
      rcases (hprogram.step s.storage).2 with hsame | ⟨key', value', hown, hwritten⟩
      · grind [Authentic.concat]
      · grind [AList.lookup_insert, Authentic.concat, AList.lookup_insert_ne]

/-- Every entry in the log of the device was sent by the device, if honest devices send entries of
    their own logs only, and an advert of the device that the adversary gossips again always finds
    the device registered elsewhere, under an advert that is at least as new. -/
theorem log_written_by_device (options : RelayHubOptions Value)
    (opener : Conn → Option DeviceId) (device : DeviceId) (events : List (Event Conn Value))
    (hhonest : ∀ c sender frame, .frame c (.data (.dataEntries frame)) ∈ events →
      opener c = some sender → frame.peer = sender)
    (hguarded : Machine.Along (next options) (Guarded opener device) (State.init ∅) events)
    {seq : ℕ} {value : Bytes}
    (hentry : (Machine.run (next options) (State.init ∅) events).storage.lookup
      (entryKey device seq) = some value) :
    SentByDevice opener device events seq value := by
  have hown : OwnLog opener device events (Machine.run (next options) (State.init ∅) events) := by
    clear hentry
    induction events using List.reverseRecOn with
    | nil =>
      have hdistinct : Distinct opener device (State.init ∅ : State Conn Value).maps :=
        ⟨by simp [Maps.RegisteredTo, State.init, Maps.empty], by simp [State.init, Maps.empty]⟩
      exact ⟨hdistinct, by simp [State.init], by simp [State.init]⟩
    | append_singleton events e ih =>
      obtain ⟨hbefore, he⟩ := hguarded.concat
      rw [Machine.run_append]
      refine ownLog_next (ih ?_ hbefore) he ?_
      · intro c sender frame hframe
        exact hhonest c sender frame (List.mem_append_left _ hframe)
      · rintro c sender frame rfl
        exact hhonest c sender frame (by simp)
  exact hown.storage _ value hentry seq rfl

/-- Connection 1 is opened by the first device, all others by the adversary. -/
def sampleOpener (connection : ℕ) : Option DeviceId :=
  if connection = 1 then some (.pad [1]) else none

/-- The connection sends the first entry of the log of the first device. -/
def sampleEntries (connection : ℕ) (entry : Bytes) : List (Event ℕ Unit) :=
  .frame connection (.data (.dataEntries { peer := .pad [1], fromSeq := 0, entries := [entry] })) ::
    .replicate 10 (.resume 0)

/-- The first device has gossiped its advert, which is forwarded to the adversary. -/
def seenAdvert : List (Event ℕ Unit) :=
  [.register 1, .register 2] ++ sampleGossip 0 1 (sampleAdvert 1 100 sampleSeconds_lt)

/-- While the first device stays, the adversary gossips its advert again, to no effect. -/
theorem log_written_by_device_replay :
    SentByDevice sampleOpener (.pad [1]) (seenAdvert ++ sampleGossip 0 2 (sampleAdvert 1 100) ++
      sampleEntries 2 [66] ++ sampleEntries 1 [65]) 1 [65] := by
  refine log_written_by_device .sample sampleOpener (.pad [1]) _ ?_ (by decide +kernel)
    (by decide +kernel)
  intro c sender frame hframe hc
  simp only [seenAdvert, sampleGossip, sampleEntries, List.replicate, List.mem_append,
    List.mem_cons, reduceCtorEq, List.not_mem_nil, Event.frame.injEq, Frame.data.injEq,
    DataFrame.dataEntries.injEq, and_false, or_false, false_or] at hframe
  rcases hframe with ⟨rfl, rfl⟩ | ⟨rfl, rfl⟩
  · cases hc
  · exact Option.some.inj hc

/-- The adversary has seen the advert of the first device, and gossips it again after the device
    has gone. It then writes to the log of the device, which has never sent an entry. -/
theorem log_written_by_replay :
    let replayed := seenAdvert ++ .forget 1 :: sampleGossip 0 2 (sampleAdvert 1 100) ++
      sampleEntries 2 [66]
    .send 1 2 (.gossip [sampleAdvert 1 100]) ∈ (step .sample
        (Machine.run (next .sample) (State.init ∅) (seenAdvert.take 5)) (.resume 0)).2 ∧
      (Machine.run (next .sample) (State.init ∅) replayed).storage.lookup
        (entryKey (.pad [1]) 1) = some [66] ∧
      ¬SentByDevice sampleOpener (.pad [1]) replayed 1 [66] := by
  refine ⟨by decide +kernel, by decide +kernel, ?_⟩
  rintro ⟨c, frame, hc, hframe, -⟩
  simp only [seenAdvert, sampleGossip, sampleEntries, List.replicate, List.mem_append,
    List.mem_cons, reduceCtorEq, List.not_mem_nil, Event.frame.injEq, Frame.data.injEq,
    DataFrame.dataEntries.injEq, and_false, or_false, false_or] at hframe
  obtain ⟨rfl, rfl⟩ := hframe
  cases hc

end WireMesh.TypeScript.RelayHub
