import WireMesh.Attribution

/-!
# The connections that the hub forgets

When a connection is forgotten, the hub finds those who refer to it through the pairings of the
connection itself. So all pairings should be in both directions (`Linked`), which they are as
long as the devices stay with their connections: a pairing that is made anew with the
connection that has taken a device over replaces the one with the connection that had it, in
one direction only. And a handler that was suspended may register the connection after it is
forgotten. These are the two ways in which a connection leaves a trace
(`forgotten_leaves_trace`); without them it leaves none (`forgotten_leaves_no_trace`).
-/

namespace WireMesh.TypeScript.RelayHub

variable {Conn Value : Type} [DecidableEq Conn] {options : RelayHubOptions Value}
  {s : State Conn Value} {m : Maps Conn Value} {e : Event Conn Value} {c : Conn}

/-- At the event, a device moves from one connection to another one. -/
def Moves (options : RelayHubOptions Value) (s : State Conn Value) (e : Event Conn Value) : Prop :=
  ∃ device a b, s.maps.RegisteredTo device a ∧ a ≠ b ∧
    (next options s e).maps.RegisteredTo device b

instance : Decidable (Moves options s e) :=
  decidable_of_iff (∃ r ∈ s.maps.devices.values,
      ∃ r' ∈ (next options s e).maps.devices.get r.advert.device,
        r.connection ≠ r'.connection) <| by
    constructor
    · rintro ⟨r, hr, r', hr', hne⟩
      exact ⟨_, _, _, ⟨r, Directory.mem_values.1 hr, rfl⟩, hne, r', hr', rfl⟩
    · rintro ⟨device, _, _, ⟨r, hr, rfl⟩, hne, r', hr', rfl⟩
      grind [Directory.advert_device, Directory.mem_values]

/-! ## Pairings in both directions -/

/-- Attributions and pairings are with the connections that devices are registered to, and
    pairings are in both directions. -/
@[grind cases]
structure Linked (m : Maps Conn Value) : Prop where
  attributed : ∀ c, Attributed m c
  paired : ∀ a device b, m.paired a device = some b →
    m.RegisteredTo device b ∧ ∃ device', m.paired b device' = some a
  recent : ∀ a b, m.mostRecentPairing a = some b → ∃ device, m.paired a device = some b

/-- Who is paired, and under which devices. -/
theorem Pairs.registered {f : Frame Value} {a b : Conn} {aDevice bDevice : DeviceId}
    (h : Pairs m c f a aDevice b bDevice) (hc : Attributed m c) :
    a ≠ b ∧ m.RegisteredTo aDevice a ∧ m.RegisteredTo bDevice b := by
  cases h with
  | @connect target initiator source registration hget hne hinitiator =>
    refine ⟨hne.symm, registeredTo_of_initiatorOf hinitiator (.inr hc), registration, ?_, rfl⟩
    rw [Directory.advert_device hget, hget]
  | @inbound source target registration hup hget hne hsource =>
    exact ⟨hne, ⟨registration, hget, rfl⟩, hsource⟩

/-- A pairing that is made keeps the others, as their devices are registered to the connections
    that they are with. -/
theorem Linked.addPairing (h : Linked m) {a b : Conn} {aDevice bDevice : DeviceId} (hne : a ≠ b)
    (ha : m.RegisteredTo aDevice a) (hb : m.RegisteredTo bDevice b) :
    Linked (m.addPairing a aDevice b bDevice) := by
  have hkept {x y : Conn} {device : DeviceId} (hpaired : m.paired x device = some y) :
      (m.addPairing a aDevice b bDevice).paired x device = some y := by
    grind [Maps.paired_addPairing, Maps.RegisteredTo.unique]
  have hab : (m.addPairing a aDevice b bDevice).paired a bDevice = some b := by
    rw [Maps.paired_addPairing, if_neg (fun hx => hne hx.1), if_pos ⟨rfl, rfl⟩]
  have hba : (m.addPairing a aDevice b bDevice).paired b aDevice = some a := by
    rw [Maps.paired_addPairing, if_pos ⟨rfl, rfl⟩]
  refine ⟨h.attributed, ?_, ?_⟩
  · intro x device y hpaired
    rw [Maps.paired_addPairing] at hpaired
    split_ifs at hpaired with hxb hxa
    · obtain ⟨rfl, rfl⟩ := hxb
      cases hpaired
      exact ⟨ha, bDevice, hab⟩
    · obtain ⟨rfl, rfl⟩ := hxa
      cases hpaired
      exact ⟨hb, aDevice, hba⟩
    · obtain ⟨hy, device', hback⟩ := h.paired x device y hpaired
      exact ⟨hy, device', hkept hback⟩
  · grind [Maps.mostRecentPairing_addPairing]

namespace Linked

/-- Nobody is left paired with a connection that is forgotten. -/
theorem paired_forgotten {m' : Maps Conn Value} (h : Linked m) (hforgotten : m.Forgotten c m')
    {x y : Conn} {device : DeviceId} :
    m'.paired x device = some y ↔ x ≠ c ∧ y ≠ c ∧ m.paired x device = some y := by
  grind [Maps.Forgotten.paired_iff, Maps.mem_peersOf]

theorem recent_forgotten {m' : Maps Conn Value} (h : Linked m) (hforgotten : m.Forgotten c m')
    {x y : Conn} (hrecent : m'.mostRecentPairing x = some y) :
    x ≠ c ∧ y ≠ c ∧ m.mostRecentPairing x = some y := by grind [Maps.mem_peersOf]

theorem forget (h : Linked m) (gone : Conn) : Linked (m.forgetConnection gone).1 := by
  have hforgotten := Maps.forgotten_forgetConnection m gone
  refine ⟨fun c => (h.attributed c).forget gone, ?_, ?_⟩
  · intro x device y hpaired
    obtain ⟨hx, hy, hpaired⟩ := (h.paired_forgotten hforgotten).1 hpaired
    obtain ⟨⟨r, hr, rfl⟩, device', hback⟩ := h.paired x device y hpaired
    refine ⟨⟨r, ?_, rfl⟩, device', (h.paired_forgotten hforgotten).2 ⟨hy, hx, hback⟩⟩
    grind [Directory.get_filter]
  · intro x y hrecent
    obtain ⟨hx, hy, hrecent⟩ := h.recent_forgotten hforgotten hrecent
    obtain ⟨device, hpaired⟩ := h.recent x y hrecent
    exact ⟨device, (h.paired_forgotten hforgotten).2 ⟨hx, hy, hpaired⟩⟩

end Linked

/-- Gossip keeps pairings, as long as it moves no device. -/
theorem Linked.gossip (h : Linked m) (policy : Option (AdvertExtensionPolicy Value)) (actor : Conn)
    (adverts : List (PeerAdvert Value))
    (hmoves : ∀ device a b, m.RegisteredTo device a →
      (m.gossip policy actor adverts).RegisteredTo device b → a = b) :
    Linked (m.gossip policy actor adverts) := by
  obtain ⟨-, -, hpairings, hrecent⟩ := m.gossip_frame policy actor adverts
  refine ⟨fun c => ?_, ?_, ?_⟩
  · grind [Attributed.gossip]
  · intro a device b hpaired
    rw [Maps.paired, hpairings] at hpaired
    obtain ⟨⟨r, hr, hb⟩, device', hback⟩ := h.paired a device b hpaired
    refine ⟨?_, device', by rw [Maps.paired, hpairings]; exact hback⟩
    rcases m.gossip_get policy actor adverts device with hget | ⟨advert, -, hget, -⟩
    · exact ⟨r, hget.trans hr, hb⟩
    · exact ⟨_, hget, (hmoves device b actor ⟨r, hr, hb⟩ ⟨_, hget, rfl⟩).symm⟩
  · intro a b hab
    rw [hrecent] at hab
    obtain ⟨device, hpaired⟩ := h.recent a b hab
    exact ⟨device, by rw [Maps.paired, hpairings]; exact hpaired⟩

/-- As long as no device moves, pairings are in both directions. -/
theorem linked_next (h : Linked s.maps) (e : Event Conn Value) (hmoves : ¬Moves options s e) :
    Linked (next options s e).maps := by
  have hstep := mapsStep options s e
  generalize hm : (next options s e).maps = m at hstep ⊢
  cases hstep with
  | @acts _ actor _ hactor hacts =>
    cases hacts with
    | @gossips i adverts hverified =>
      refine h.gossip _ _ _ fun device a b ha hb => ?_
      by_contra hne
      exact hmoves ⟨device, a, b, ha, hne, hm ▸ hb⟩
    | pairs hpairs => grind [Pairs.registered, Linked.addPairing]
    | _ => exact ⟨h.attributed, h.paired, h.recent⟩
  | forget gone => exact h.forget gone
  | stop =>
    exact ⟨by simp [Attributed, Maps.clear], by simp [Maps.paired, Maps.clear],
      by simp [Maps.clear]⟩
  | same => exact h

theorem linked_run (options : RelayHubOptions Value) (storage : KeyValueStorage)
    {events : List (Event Conn Value)}
    (h : Machine.Along (next options) (fun s e => ¬Moves options s e) (State.init storage)
      events) :
    Linked (Machine.run (next options) (State.init storage) events).maps := by
  refine Machine.run_along (P := fun s => Linked s.maps) ?_
    (fun _ e hlinked hmoves => linked_next hlinked e hmoves) h
  constructor <;> grind [Attributed, State.init, Maps.empty, Maps.paired]

/-! ## No trace -/

/-- None of the maps refers to the connection. -/
@[grind cases]
structure NoTrace (m : Maps Conn Value) (c : Conn) : Prop where
  connections : c ∉ m.connections
  devices : ∀ device, ¬m.RegisteredTo device c
  connectionDevice : m.connectionDevice c = none
  pairings : m.pairings c = none
  paired : ∀ x device, m.paired x device ≠ some c
  mostRecentPairing : m.mostRecentPairing c = none
  recent : ∀ x, m.mostRecentPairing x ≠ some c

/-- The handler may yet make the connection known to the hub. -/
def Task.registers : Task Conn Value → Bool
  | verifying _ _ => true
  | attaching _ => true
  | _ => false

/-- The connection that the event comes from. -/
def Event.source : Event Conn Value → Option Conn
  | register c => some c
  | frame c _ => some c
  | attachUplink c => some c
  | _ => none

theorem noTrace_forget (h : Linked m) (c : Conn) : NoTrace (m.forgetConnection c).1 c := by
  have hforgotten := Maps.forgotten_forgetConnection m c
  constructor
  · grind [LiveSet.mem_delete]
  · rintro device ⟨r, hr, hc⟩
    grind [Directory.get_filter]
  · rw [hforgotten.connectionDevice, Function.update_self]
  · rw [hforgotten.pairings, if_pos rfl]
  · intro x device hpaired
    exact ((h.paired_forgotten hforgotten).1 hpaired).2.1 rfl
  · rw [hforgotten.mostRecentPairing, if_pos rfl]
  · grind [Linked.recent_forgotten]

namespace NoTrace

theorem gossip (h : NoTrace m c) {actor : Conn} (hactor : actor ≠ c)
    (policy : Option (AdvertExtensionPolicy Value)) (adverts : List (PeerAdvert Value)) :
    NoTrace (m.gossip policy actor adverts) c := by
  obtain ⟨hconnections, -, hpairings, hrecent⟩ := m.gossip_frame policy actor adverts
  constructor
  · rw [hconnections]
    exact h.connections
  · rintro device ⟨r, hr, hc⟩
    rcases m.gossip_get policy actor adverts device with hget | ⟨advert, -, hget, -⟩
    · exact h.devices device ⟨r, hget ▸ hr, hc⟩
    · cases hget.symm.trans hr
      exact hactor hc
  · rcases m.connectionDevice_gossip policy actor adverts with hsame | ⟨device, -, hattributes⟩
    · rw [hsame]
      exact h.connectionDevice
    · rw [hattributes, Function.update_of_ne hactor.symm]
      exact h.connectionDevice
  · rw [hpairings]
    exact h.pairings
  · intro x device
    rw [Maps.paired, hpairings]
    exact h.paired x device
  · rw [hrecent]
    exact h.mostRecentPairing
  · rw [hrecent]
    exact h.recent

theorem addPairing (h : NoTrace m c) {a b : Conn} {aDevice bDevice : DeviceId} (ha : a ≠ c)
    (hb : b ≠ c) : NoTrace (m.addPairing a aDevice b bDevice) c := by
  refine ⟨h.connections, h.devices, h.connectionDevice, ?_, ?_, ?_, ?_⟩
  · rw [Maps.addPairing, Maps.setPairing, Maps.setPairing]
    grind
  · grind [Maps.paired_addPairing]
  · grind [Maps.mostRecentPairing_addPairing]
  · grind [Maps.mostRecentPairing_addPairing]

/-- Nobody who is paired is unknown. -/
theorem ne_of_pairs (h : NoTrace m c) {actor : Conn} (hactor : actor ≠ c) {f : Frame Value}
    {a b : Conn} {aDevice bDevice : DeviceId} (hpairs : Pairs m actor f a aDevice b bDevice) :
    a ≠ c ∧ b ≠ c := by
  have hregistered {device : DeviceId} {r : Registration Conn Value}
      (hr : m.devices.get device = some r) : r.connection ≠ c :=
    fun hc => h.devices device ⟨r, hr, hc⟩
  cases hpairs with
  | connect hget => exact ⟨hactor, hregistered hget⟩
  | inbound hup hget => exact ⟨hregistered hget, hactor⟩

theorem forget (h : NoTrace m c) (gone : Conn) : NoTrace (m.forgetConnection gone).1 c := by
  have hforgotten := Maps.forgotten_forgetConnection m gone
  constructor
  · grind [LiveSet.mem_delete]
  · rintro device ⟨r, hr, hc⟩
    rw [hforgotten.devices, Directory.get_filter] at hr
    exact h.devices device ⟨r, hr.1, hc⟩
  · rw [hforgotten.connectionDevice, Function.update_apply, h.connectionDevice, ite_self]
  · rw [hforgotten.pairings, h.pairings]
    simp
  · intro x device hpaired
    exact h.paired x device (hforgotten.paired_iff.1 hpaired).2.1
  · grind
  · grind

/-- Nothing but a frame or a handler of the connection makes it known again. -/
theorem next (h : NoTrace s.maps c) (hsource : e.source ≠ some c)
    (htasks : ∀ t ∈ s.tasks, t.connection = c → ¬t.registers) :
    NoTrace (next options s e).maps c := by
  have hstep := mapsStep options s e
  generalize (RelayHub.next options s e).maps = m at hstep ⊢
  have hframe {actor : Conn} {f : Frame Value} (he : e = .frame actor f) : actor ≠ c := by
    rintro rfl
    exact hsource (he ▸ rfl)
  cases hstep with
  | @acts _ actor _ hactor hacts =>
    cases hacts with
    | idle => exact h
    | connects hconnects =>
      have hne : actor ≠ c := by
        rintro rfl
        rcases hconnects with rfl | htask
        · exact hsource rfl
        · exact htasks _ htask rfl rfl
      refine ⟨?_, h.devices, h.connectionDevice, h.pairings, h.paired, h.mostRecentPairing,
        h.recent⟩
      grind [LiveSet.mem_add]
    | attaches => exact ⟨h.connections, h.devices, h.connectionDevice, h.pairings, h.paired,
        h.mostRecentPairing, h.recent⟩
    | attachesAtOnce =>
      refine ⟨?_, h.devices, h.connectionDevice, h.pairings, h.paired, h.mostRecentPairing,
        h.recent⟩
      rw [LiveSet.mem_add]
      refine fun hmem => hmem.elim h.connections ?_
      rintro rfl
      exact hsource rfl
    | @gossips i adverts hverified =>
      obtain ⟨requests, htask, -⟩ := hverified
      refine h.gossip ?_ _ _
      rintro rfl
      exact htasks _ (List.mem_of_getElem? htask) rfl rfl
    | pairs hpairs => grind [ne_of_pairs, addPairing]
  | forget gone => exact h.forget gone
  | stop =>
    exact ⟨LiveSet.notMem_clear, by simp [Maps.RegisteredTo, Maps.clear], rfl, rfl,
      by simp [Maps.paired, Maps.clear], rfl, by simp [Maps.clear]⟩
  | same => exact h

end NoTrace

/-- A handler that may make a connection known is started by the connection only. -/
theorem registers_next {t : Task Conn Value} (ht : t ∈ (next options s e).tasks)
    (hregisters : t.registers) : t ∈ s.tasks ∨ e.source = some t.connection := by
  refine (tasks_next ht).imp_right ?_
  rintro ⟨-, hnew⟩
  cases hnew with
  | verifying => rfl
  | attaching => rfl
  | _ => cases hregisters

/-- The hub knows nothing of the connection, and no handler is about to change that. -/
@[grind cases]
structure Gone (s : State Conn Value) (c : Conn) : Prop where
  noTrace : NoTrace s.maps c
  tasks : ∀ t ∈ s.tasks, t.connection = c → ¬t.registers

theorem gone_next (h : Gone s c) (e : Event Conn Value) (hsource : e.source ≠ some c) :
    Gone (next options s e) c := by constructor <;> grind [NoTrace.next, registers_next]

/-- A connection that is forgotten leaves no trace, if no device has moved before, no handler that
    may make the connection known is suspended, and nothing comes from it any more. -/
theorem forgotten_leaves_no_trace (options : RelayHubOptions Value) (storage : KeyValueStorage)
    (before later : List (Event Conn Value)) (c : Conn)
    (hmoves : Machine.Along (next options) (fun s e => ¬Moves options s e) (State.init storage)
      before)
    (htasks : ∀ t ∈ (Machine.run (next options) (State.init storage) before).tasks,
      t.connection = c → ¬t.registers)
    (hlater : ∀ e ∈ later, e.source ≠ some c) :
    NoTrace (Machine.run (next options) (State.init storage) (before ++ .forget c :: later)).maps
      c := by
  rw [Machine.run_append, Machine.run_cons]
  set s := Machine.run (next options) (State.init storage) before
  have hgone : Gone (next options s (.forget c)) c :=
    ⟨noTrace_forget (linked_run options storage hmoves) c, htasks⟩
  have halong : Machine.Along (next options) (fun _ e => e.source ≠ some c)
      (next options s (.forget c)) later := by
    rintro _ e _ rfl
    exact hlater e (by simp)
  have hlater := Machine.run_along (P := fun s => Gone s c) hgone
    (fun _ e hgone hsource => gone_next hgone e hsource) halong
  exact hlater.noTrace

/-- Connections 1 and 2 are paired, and connection 1 is forgotten, after which connection 2
    gossips again. -/
theorem forgotten_leaves_no_trace_twoDevices :
    NoTrace (Machine.run (next .sample) (State.init ∅)
      ((twoDevices ++ [.frame 1 (.relayConnect (.pad [2]) none)]) ++
        .forget 1 :: sampleGossip 2 2 (sampleAdvert 2 200))).maps 1 :=
  forgotten_leaves_no_trace .sample ∅ _ _ 1 (by decide +kernel) (by decide +kernel)
    (by decide +kernel)

/-- Connection 1 is paired with connection 2, and then with connection 3, which has taken over
    the device of connection 2. Connection 2 goes on to refer to connection 1 after that is
    forgotten. And a connection that is forgotten while its advert is verified is registered
    afterwards. -/
theorem forgotten_leaves_trace :
    let request : Event ℕ Unit := .frame 1 (.relayConnect (.pad [2]) none)
    (Machine.run (next .sample) (State.init ∅) (twoDevices ++ [request] ++
      sampleGossip 2 3 (sampleAdvert 2 200) ++ [request, .forget 1])).maps.paired 2 (.pad [1]) =
        some 1 ∧
    (Machine.run (next .sample) (State.init ∅) (twoDevices ++ [request] ++
      sampleGossip 2 3 (sampleAdvert 2 200) ++ [request, .forget 1])).maps.mostRecentPairing 2 =
        some 1 ∧
    (Machine.run (next .sample) (State.init ∅)
      [.register 1, .frame 1 (.gossip [sampleAdvert 1 100]), .forget 1, .resolve 0, .settle 0,
        .resume 0]).maps.RegisteredTo (.pad [1]) 1 := by
  decide +kernel

end WireMesh.TypeScript.RelayHub
