import WireMesh.TypeScript.RelayMaps
import WireMesh.TypeScript.RelaySteps

/-!
# The devices that the hub vouches for

What the hub relays is stamped with a device: the one that the frame names, which must be
registered to the connection, or the one that the hub attributes to the connection. The
attribution is made when the connection gossips, and it stays when another connection takes
the device over, so that the hub goes on vouching for it (`stamp_after_takeover`). As long as
the attributed device is not taken over, the stamp is right (`stamp_registered`).
-/

namespace WireMesh.TypeScript.RelayHub

variable {Conn Value : Type} [DecidableEq Conn] {options : RelayHubOptions Value}

instance (m : Maps Conn Value) (device : DeviceId) (c : Conn) :
    Decidable (m.RegisteredTo device c) :=
  decidable_of_iff _ registeredTo_iff

/-- The frame names the device that it is from, if it is one that needs it. -/
def Frame.named : Frame Value → Bool
  | relayConnect _ sourceDevice => sourceDevice.isSome
  | relayData _ _ fromDevice => fromDevice.isSome
  | _ => true

/-- At the event, another connection takes over the device that is attributed to `c`. -/
def TakesOver (options : RelayHubOptions Value) (c : Conn) (s : State Conn Value)
    (e : Event Conn Value) : Prop :=
  ∃ device other, s.maps.connectionDevice c = some device ∧ s.maps.RegisteredTo device c ∧
    other ≠ c ∧ (next options s e).maps.RegisteredTo device other

instance (c : Conn) (s : State Conn Value) (e : Event Conn Value) :
    Decidable (TakesOver options c s e) :=
  decidable_of_iff (∃ device ∈ s.maps.connectionDevice c, s.maps.RegisteredTo device c ∧
      ∃ r ∈ (next options s e).maps.devices.get device, r.connection ≠ c) <| by
    constructor
    · rintro ⟨device, hdevice, hregistered, r, hr, hne⟩
      exact ⟨device, r.connection, hdevice, hregistered, hne, r, hr, rfl⟩
    · rintro ⟨device, other, hdevice, hregistered, hne, r, hr, rfl⟩
      exact ⟨device, hdevice, hregistered, r, hr, hne⟩

/-- What is attributed to the connection is registered to it. -/
def Attributed (m : Maps Conn Value) (c : Conn) : Prop :=
  ∀ device, m.connectionDevice c = some device → m.RegisteredTo device c

/-- The attribution stays right if the device stays with the connection. -/
theorem Attributed.gossip {m : Maps Conn Value} {c : Conn} (h : Attributed m c)
    (policy : Option (AdvertExtensionPolicy Value)) (actor : Conn)
    (adverts : List (PeerAdvert Value))
    (hkeeps : ∀ device other, m.connectionDevice c = some device → m.RegisteredTo device c →
      (m.gossip policy actor adverts).RegisteredTo device other → other = c) :
    Attributed (m.gossip policy actor adverts) c := by
  intro device hdevice
  rcases m.connectionDevice_gossip policy actor adverts with hsame | ⟨own, hown, hattributes⟩
  · rw [hsame] at hdevice ⊢
    exact h device hdevice
  · by_cases hc : c = actor
    · subst hc
      rw [hattributes, Function.update_self] at hdevice
      cases hdevice
      exact hown
    · rw [hattributes, Function.update_of_ne hc] at hdevice
      obtain ⟨r, hr, hrc⟩ := h device hdevice
      -- A device that is registered stays so when another connection gossips.
      rcases m.gossip_get policy actor adverts device with hget | ⟨advert, -, hget, -⟩
      · exact ⟨r, hget.trans hr, hrc⟩
      · exact ⟨_, hget, hkeeps device actor hdevice (h device hdevice) ⟨_, hget, rfl⟩⟩

theorem Attributed.forget {m : Maps Conn Value} {c : Conn} (h : Attributed m c) (gone : Conn) :
    Attributed (m.forgetConnection gone).1 c := by
  intro device hdevice
  have hforgotten := Maps.forgotten_forgetConnection m gone
  rw [hforgotten.connectionDevice, Function.update_apply] at hdevice
  split at hdevice
  next => cases hdevice
  next hc =>
    obtain ⟨r, hr, rfl⟩ := h device hdevice
    refine ⟨r, ?_, rfl⟩
    grind [Directory.get_filter]

/-- Without a takeover, the attribution stays right. -/
theorem attributed_next {s : State Conn Value} {c : Conn} (h : Attributed s.maps c)
    (e : Event Conn Value) (hkeeps : ¬TakesOver options c s e) :
    Attributed (next options s e).maps c := by
  have hstep := mapsStep options s e
  generalize hm : (next options s e).maps = m at hstep ⊢
  cases hstep with
  | @acts _ actor _ hactor hacts =>
    cases hacts with
    | @gossips i adverts hverified =>
      refine h.gossip _ _ _ fun device other hdevice hregistered hnext => ?_
      by_contra hne
      exact hkeeps ⟨device, other, hdevice, hregistered, hne, hm ▸ hnext⟩
    | _ => exact h
  | forget gone => exact h.forget gone
  | stop =>
    intro device hdevice
    cases hdevice
  | same => exact h

theorem attributed_run (options : RelayHubOptions Value) (storage : KeyValueStorage)
    {events : List (Event Conn Value)} {c : Conn}
    (h : Machine.Along (next options) (fun s e => ¬TakesOver options c s e) (State.init storage)
      events) :
    Attributed (Machine.run (next options) (State.init storage) events).maps c := by
  refine Machine.run_along (P := fun s => Attributed s.maps c) ?_
    (fun _ e hattributed hkeeps => attributed_next hattributed e hkeeps) h
  intro device hdevice
  cases hdevice

/-- The device that a frame acts for is registered to its connection, if the frame names it or
    the attribution is right. -/
theorem registeredTo_of_initiatorOf {m : Maps Conn Value} {c : Conn} {claimed : Option DeviceId}
    {device : DeviceId} (h : m.initiatorOf c claimed = some device)
    (hc : claimed.isSome ∨ Attributed m c) : m.RegisteredTo device c := by
  cases claimed with
  | none =>
    rcases hc with hc | hc
    · cases hc
    · exact hc device h
  | some named => grind [Maps.initiatorOf, registeredTo_iff]

/-- A frame that the hub relays from `c` is stamped with a device that is registered to `c`, if
    the frame names its device or the one that is attributed to `c` has not been taken over. -/
theorem stamp_registered (options : RelayHubOptions Value) (storage : KeyValueStorage)
    (events : List (Event Conn Value)) (e : Event Conn Value) {c recipient : Conn}
    {frame : Frame Value} {device : DeviceId}
    (hsend : .send c recipient frame ∈
      (step options (Machine.run (next options) (State.init storage) events) e).2)
    (hstamp : frame.stamp = some device)
    (h : (∀ f, e = .frame c f → f.named) ∨
      Machine.Along (next options) (fun s e => ¬TakesOver options c s e) (State.init storage)
        events) :
    (Machine.run (next options) (State.init storage) (events ++ [e])).maps.RegisteredTo device
      c := by
  rw [Machine.run_append, Machine.run_cons, Machine.run_nil]
  set s := Machine.run (next options) (State.init storage) events
  obtain ⟨f, rfl, hrelays⟩ := (sends_step hsend).relays_of_relayed (Frame.relayed_of_stamp hstamp)
  have hattributed : f.named ∨ Attributed s.maps c :=
    h.imp (fun h => h f rfl) (attributed_run options storage)
  have hregistered : s.maps.RegisteredTo device c := by
    cases hrelays with
    | connect hget hne hinitiator =>
      cases hstamp
      exact registeredTo_of_initiatorOf hinitiator hattributed
    | inbound hup hget hne hsource =>
      cases hstamp
      exact hsource
    | data hpeer hsender =>
      cases hstamp
      exact registeredTo_of_initiatorOf hsender hattributed
  -- Relaying leaves the registrations as they are.
  obtain ⟨r, hr, hc⟩ := hregistered
  have hstep := mapsStep options s (.frame c f)
  generalize (next options s (.frame c f)).maps = m at hstep ⊢
  cases hstep with
  | acts hactor hacts => cases hacts <;> exact ⟨r, hr, hc⟩
  | same => exact ⟨r, hr, hc⟩

/-- The first device is registered to connection 1, the second one to connection 2. -/
def twoDevices : List (Event ℕ Unit) :=
  [.register 1, .register 2, .register 3] ++ sampleGossip 0 1 (sampleAdvert 1 100) ++
    sampleGossip 1 2 (sampleAdvert 2 100)

/-- Connection 1 asks for the second device without naming its own. -/
theorem stamp_registered_twoDevices :
    (Machine.run (next .sample) (State.init ∅)
      (twoDevices ++ [.frame 1 (.relayConnect (.pad [2]) none)])).maps.RegisteredTo
        (.pad [1]) 1 := by
  have hsend : .send 1 2 (.relayInbound (.pad [1]) (some (.pad [2]))) ∈
      (step .sample (Machine.run (next .sample) (State.init ∅) twoDevices)
        (.frame 1 (.relayConnect (.pad [2]) none))).2 := by decide +kernel
  exact stamp_registered .sample ∅ twoDevices _ hsend rfl (.inr (by decide +kernel))

/-- Connection 3 takes over the first device, and the hub still vouches for connection 1 to be
    that device. -/
theorem stamp_after_takeover :
    let taken := twoDevices ++ sampleGossip 2 3 (sampleAdvert 1 200)
    let request : Event ℕ Unit := .frame 1 (.relayConnect (.pad [2]) none)
    .send 1 2 (.relayInbound (.pad [1]) (some (.pad [2]))) ∈
        (step .sample (Machine.run (next .sample) (State.init ∅) taken) request).2 ∧
      ¬(Machine.run (next .sample) (State.init ∅) (taken ++ [request])).maps.RegisteredTo
        (.pad [1]) 1 ∧
      (Machine.run (next .sample) (State.init ∅) (taken ++ [request])).maps.RegisteredTo
        (.pad [1]) 3 := by
  decide +kernel

end WireMesh.TypeScript.RelayHub
