import WireMesh.TypeScript.RelayHub

/-!
# The maps of the relay hub

What the handlers of the hub do to its registrations and its pairings.

* `gossip_get`: a gossip frame leaves the registration of a device as it is, or moves it to
  the connection that gossips, under an advert that supersedes it.
* `connectionDevice_gossip`: a connection that gossips is attributed a device that is
  registered to it.
* `forgotten_forgetConnection`: what is left when a connection is forgotten. It is no longer
  paired with those it was paired with, in either direction.
-/

namespace WireMesh.TypeScript.RelayHub

variable {Conn Value : Type}

namespace Directory

variable {devices : Directory Conn Value} {device : DeviceId} {r : Registration Conn Value}

@[simp]
theorem get_empty : (empty : Directory Conn Value).get device = none := rfl

theorem get_register (devices : Directory Conn Value) (connection : Conn)
    (advert : PeerAdvert Value) (device : DeviceId) :
    (devices.register connection advert).get device =
      if device = advert.device then some { connection, advert } else devices.get device :=
  OrderedMap.get_set _ _ _ _

theorem get_filter {p : Registration Conn Value → Bool} :
    (devices.filter p).get device = some r ↔ devices.get device = some r ∧ p r :=
  OrderedMap.get_filter_eq_some

theorem mem_values : r ∈ devices.values ↔ devices.get r.advert.device = some r := by
  constructor
  · intro h
    obtain ⟨device, hget⟩ := OrderedMap.mem_values_iff.1 h
    rw [devices.keyed device r hget]
    exact hget
  · intro h
    exact OrderedMap.mem_values_iff.2 ⟨_, h⟩

theorem advert_device (h : devices.get device = some r) : r.advert.device = device :=
  devices.keyed device r h

end Directory

variable [DecidableEq Conn]

omit [DecidableEq Conn] in
theorem Maps.RegisteredTo.unique {m : Maps Conn Value} {device : DeviceId} {a b : Conn}
    (ha : m.RegisteredTo device a) (hb : m.RegisteredTo device b) : a = b := by
  obtain ⟨r, hr, rfl⟩ := ha
  obtain ⟨r', hr', rfl⟩ := hb
  rw [Option.some.inj (hr.symm.trans hr')]

/-! ## Gossip -/

theorem supersedes.le {r : Registration Conn Value} {advert : PeerAdvert Value} {c : Conn}
    (h : supersedes r advert c) : r.advert.snapshotSeconds ≤ advert.snapshotSeconds := by
  grind [supersedes]

theorem supersedes.lt {r : Registration Conn Value} {advert : PeerAdvert Value} {c : Conn}
    (h : supersedes r advert c) (hne : r.connection ≠ c) :
    r.advert.snapshotSeconds < advert.snapshotSeconds := by
  rwa [supersedes, if_neg hne] at h

/-- An advert that takes over from one that the same connection has just registered supersedes
    what that one has superseded. -/
theorem supersedes.trans {r : Registration Conn Value} {advert advert' : PeerAdvert Value}
    {c : Conn} (h : supersedes r advert c) (h' : supersedes ⟨c, advert⟩ advert' c) :
    supersedes r advert' c := by grind [supersedes]

/-- The policy of the hub, if it has one, allows the advert. -/
def Allowed (policy : Option (AdvertExtensionPolicy Value)) (advert : PeerAdvert Value) : Prop :=
  policy.elim (.ok ()) (checkAdvertExtensions advert) = .ok ()

namespace Maps

variable {m : Maps Conn Value} {policy : Option (AdvertExtensionPolicy Value)} {c : Conn}

/-- An advert leaves all as it is, or is allowed and registered. -/
theorem registerAdvert_cases (policy : Option (AdvertExtensionPolicy Value)) (c : Conn)
    (g : Gossiped Conn Value) (advert : PeerAdvert Value) :
    ((registerAdvert policy c g advert).devices = g.devices ∧
        (registerAdvert policy c g advert).accepted = g.accepted) ∨
      Allowed policy advert ∧
        (∀ r, g.devices.get advert.device = some r → supersedes r advert c) ∧
        (registerAdvert policy c g advert).devices = g.devices.register c advert ∧
        (registerAdvert policy c g advert).accepted = g.accepted ++ [advert] := by
  unfold registerAdvert
  split
  next => exact .inl ⟨rfl, rfl⟩
  next hallowed =>
    dsimp only
    split
    next hget =>
      refine .inr ⟨hallowed, ?_, rfl, rfl⟩
      rintro r hr
      rw [hget] at hr
      cases hr
    next previous hget =>
      by_cases hsupersedes : supersedes previous advert c
      · rw [if_neg (not_not.2 hsupersedes)]
        refine .inr ⟨hallowed, ?_, ?_⟩
        · grind
        · split_ifs <;> exact ⟨rfl, rfl⟩
      · grind

/-- What a gossip frame makes of the registrations so far. -/
@[grind cases]
structure Registers (policy : Option (AdvertExtensionPolicy Value)) (c : Conn)
    (devices : Directory Conn Value) (adverts : List (PeerAdvert Value))
    (g : Gossiped Conn Value) : Prop where
  get : ∀ device, g.devices.get device = devices.get device ∨
    ∃ advert ∈ g.accepted, g.devices.get device = some ⟨c, advert⟩ ∧
      ∀ r, devices.get device = some r → supersedes r advert c
  accepted : ∀ advert ∈ g.accepted, advert ∈ adverts ∧ Allowed policy advert
  /-- What is accepted is registered. -/
  registered : ∀ advert ∈ g.accepted, ∃ r, g.devices.get advert.device = some r ∧ r.connection = c
  devices_eq : g.accepted = [] → g.devices = devices

theorem gossiped_registers (m : Maps Conn Value) (policy : Option (AdvertExtensionPolicy Value))
    (c : Conn) (adverts : List (PeerAdvert Value)) :
    Registers policy c m.devices adverts (m.gossiped policy c adverts) := by
  unfold gossiped
  induction adverts using List.reverseRecOn with
  | nil => exact ⟨fun _ => .inl rfl, by simp, by simp, fun _ => rfl⟩
  | append_singleton adverts advert ih =>
    rw [List.foldl_append, List.foldl_cons, List.foldl_nil]
    set g := adverts.foldl (registerAdvert policy c) ⟨m.devices, [], [], []⟩
    have hmem : ∀ a ∈ g.accepted, a ∈ adverts ++ [advert] ∧ Allowed policy a := by grind
    rcases registerAdvert_cases policy c g advert with ⟨hdevices, haccepted⟩ |
      ⟨hallowed, hsupersedes, hdevices, haccepted⟩
    · constructor <;> grind
    · constructor
      · grind [Directory.get_register, supersedes.trans]
      · grind
      · rw [haccepted]
        intro a ha
        rw [hdevices, Directory.get_register]
        split_ifs with hdevice
        · exact ⟨_, rfl, rfl⟩
        · grind
      · intro h
        rw [haccepted] at h
        simp at h

@[simp]
theorem attributeDevice_devices : (m.attributeDevice c).devices = m.devices := by
  rw [attributeDevice]
  split <;> rfl

theorem gossip_devices (adverts : List (PeerAdvert Value)) :
    (m.gossip policy c adverts).devices = (m.gossiped policy c adverts).devices := by
  grind [gossip, gossiped_registers, attributeDevice_devices]

/-- Nothing but registrations and attributions is changed by gossip. -/
theorem gossip_frame (m : Maps Conn Value) (policy : Option (AdvertExtensionPolicy Value))
    (c : Conn) (adverts : List (PeerAdvert Value)) :
    (m.gossip policy c adverts).connections = m.connections ∧
      (m.gossip policy c adverts).uplink = m.uplink ∧
      (m.gossip policy c adverts).pairings = m.pairings ∧
      (m.gossip policy c adverts).mostRecentPairing = m.mostRecentPairing := by
  grind [gossip, attributeDevice]

/-- The registration of a device stays as it is, or moves to the connection. -/
theorem gossip_get (m : Maps Conn Value) (policy : Option (AdvertExtensionPolicy Value))
    (c : Conn) (adverts : List (PeerAdvert Value)) (device : DeviceId) :
    (m.gossip policy c adverts).devices.get device = m.devices.get device ∨
      ∃ advert ∈ (m.gossiped policy c adverts).accepted,
        (m.gossip policy c adverts).devices.get device = some ⟨c, advert⟩ ∧
        ∀ r, m.devices.get device = some r → supersedes r advert c := by
  grind [gossip_devices, gossiped_registers]

/-- A connection that devices are registered to is attributed one of them. -/
theorem connectionDevice_attributeDevice {r : Registration Conn Value}
    (hr : r ∈ m.devices.values) (hc : r.connection = c) :
    ∃ device, m.RegisteredTo device c ∧ (m.attributeDevice c).connectionDevice =
      Function.update m.connectionDevice c (some device) := by
  rw [attributeDevice]
  split
  next hnone => grind
  next registration hfind =>
    have hmem := Directory.mem_values.1 (List.mem_of_find?_eq_some hfind)
    have hconnection : registration.connection = c := by simpa using List.find?_some hfind
    exact ⟨_, ⟨registration, hmem, hconnection⟩, rfl⟩

/-- A connection that gossips is attributed a device of its own, or nothing has changed. -/
theorem connectionDevice_gossip (m : Maps Conn Value)
    (policy : Option (AdvertExtensionPolicy Value)) (c : Conn)
    (adverts : List (PeerAdvert Value)) :
    m.gossip policy c adverts = m ∨ ∃ device, (m.gossip policy c adverts).RegisteredTo device c ∧
      (m.gossip policy c adverts).connectionDevice =
        Function.update m.connectionDevice c (some device) := by
  rw [gossip]
  split_ifs with hempty
  · exact .inl rfl
  · -- One of the accepted adverts is still registered to the connection.
    have haccepted : (m.gossiped policy c adverts).accepted ≠ [] := by simpa using hempty
    obtain ⟨advert, hadvert⟩ := List.exists_mem_of_ne_nil _ haccepted
    obtain ⟨r, hget, hr⟩ := (gossiped_registers m policy c adverts).registered advert hadvert
    have hmem : r ∈ (m.gossiped policy c adverts).devices.values := by
      rw [Directory.mem_values, Directory.advert_device hget, hget]
    obtain ⟨device, hregistered, hdevice⟩ := connectionDevice_attributeDevice
      (m := { m with devices := (m.gossiped policy c adverts).devices }) hmem hr
    obtain ⟨r', hget', hr'⟩ := hregistered
    exact .inr ⟨device, ⟨r', by rw [attributeDevice_devices]; exact hget', hr'⟩, hdevice⟩

/-! ## Pairings -/

theorem paired_setPairing (c c' peer : Conn) (device device' : DeviceId) :
    (m.setPairing c device peer).paired c' device' =
      if c' = c ∧ device' = device then some peer else m.paired c' device' := by
  unfold paired setPairing
  dsimp only
  by_cases hc : c' = c
  · subst hc
    rw [Function.update_self, Option.bind_some, OrderedMap.get_set]
    by_cases hdevice : device' = device
    · simp [hdevice]
    · rw [if_neg hdevice, if_neg (fun h => hdevice h.2)]
      cases m.pairings c' <;> rfl
  · rw [Function.update_of_ne hc, if_neg (fun h => hc h.1)]

/-- The pairings of two connections that have just been paired. -/
theorem paired_addPairing {a b : Conn} {aDevice bDevice : DeviceId} (x : Conn)
    (device : DeviceId) :
    (m.addPairing a aDevice b bDevice).paired x device =
      if x = b ∧ device = aDevice then some a
      else if x = a ∧ device = bDevice then some b else m.paired x device := by
  change ((m.setPairing a bDevice b).setPairing b aDevice a).paired x device = _
  rw [paired_setPairing, paired_setPairing]

theorem mostRecentPairing_addPairing {a b : Conn} {aDevice bDevice : DeviceId} (x : Conn) :
    (m.addPairing a aDevice b bDevice).mostRecentPairing x =
      if x = b then some a else if x = a then some b else m.mostRecentPairing x := by
  simp only [addPairing, Function.update_apply]

/-! ## Departures -/

/-- The connections that a connection is paired with. -/
def peersOf (m : Maps Conn Value) (c : Conn) : List Conn :=
  (m.pairings c).elim [] OrderedMap.values

omit [DecidableEq Conn] in
theorem mem_peersOf {x : Conn} : x ∈ m.peersOf c ↔ ∃ device, m.paired c device = some x := by
  unfold peersOf paired
  cases m.pairings c with
  | none => simp
  | some own => exact OrderedMap.mem_values_iff

/-- The pairings of a connection, less those with `c`. -/
def without (c : Conn) (own : OrderedMap DeviceId Conn) : OrderedMap DeviceId Conn :=
  own.filter fun e => e.2 ≠ c

theorem get_without {own : OrderedMap DeviceId Conn} {device : DeviceId} {x : Conn} :
    (without c own).get device = some x ↔ own.get device = some x ∧ x ≠ c := by
  rw [without, OrderedMap.get_filter_eq_some, decide_eq_true_eq]

theorem without_without (own : OrderedMap DeviceId Conn) :
    without c (without c own) = without c own := by
  ext1
  simp [without, OrderedMap.filter]

/-- What is left of the pairings when the peers are told of a departure. -/
theorem forgetPeers_pairings (peers : List Conn) (m : Maps Conn Value) (x : Conn) :
    (forgetPeers c peers m).1.pairings x =
      if x ∈ peers then (m.pairings x).map (without c) else m.pairings x := by
  induction peers generalizing m with
  | nil => rfl
  | cons peer peers ih =>
    change (forgetPeers c peers (m.forgetPeer c peer)).1.pairings x = _
    rw [ih]
    by_cases hx : x = peer
    · subst hx
      have hpeer : (m.forgetPeer c x).pairings x = (m.pairings x).map (without c) :=
        Function.update_self _ _ _
      rw [hpeer, if_pos List.mem_cons_self]
      split_ifs
      · cases m.pairings x with
        | none => rfl
        | some own => exact congrArg some (without_without own)
      · rfl
    · have hpeer : (m.forgetPeer c peer).pairings x = m.pairings x := Function.update_of_ne hx _ _
      simp only [hpeer, List.mem_cons, hx, false_or]

theorem forgetPeers_mostRecentPairing (peers : List Conn) (m : Maps Conn Value) (x : Conn) :
    (forgetPeers c peers m).1.mostRecentPairing x =
      if x ∈ peers ∧ m.mostRecentPairing x = some c then none else m.mostRecentPairing x := by
  induction peers generalizing m with
  | nil => simp [forgetPeers]
  | cons peer peers ih =>
    change (forgetPeers c peers (m.forgetPeer c peer)).1.mostRecentPairing x = _
    rw [ih]
    have hpeer : (m.forgetPeer c peer).mostRecentPairing x =
        if x = peer ∧ m.mostRecentPairing x = some c then none else m.mostRecentPairing x := by
      unfold forgetPeer
      grind
    grind

/-- Telling the peers changes nothing else. -/
theorem forgetPeers_frame (peers : List Conn) (m : Maps Conn Value) :
    (forgetPeers c peers m).1.connections = m.connections ∧
      (forgetPeers c peers m).1.uplink = m.uplink ∧
      (forgetPeers c peers m).1.devices = m.devices ∧
      (forgetPeers c peers m).1.connectionDevice = m.connectionDevice := by
  induction peers generalizing m with
  | nil => exact ⟨rfl, rfl, rfl, rfl⟩
  | cons peer peers ih => exact ih (m.forgetPeer c peer)

/-- What is left when a connection is forgotten. -/
@[grind cases]
structure Forgotten (m : Maps Conn Value) (c : Conn) (m' : Maps Conn Value) : Prop where
  connections : m'.connections = m.connections.delete c
  uplink : m'.uplink = if m.uplink = some c then none else m.uplink
  devices : m'.devices = m.devices.filter fun r => r.connection ≠ c
  connectionDevice : m'.connectionDevice = Function.update m.connectionDevice c none
  pairings : ∀ x, m'.pairings x = if x = c then none
    else if x ∈ m.peersOf c then (m.pairings x).map (without c) else m.pairings x
  mostRecentPairing : ∀ x, m'.mostRecentPairing x = if x = c then none
    else if x ∈ m.peersOf c ∧ m.mostRecentPairing x = some c then none else m.mostRecentPairing x

/-- What is left of the pairings of the others is what their own maps had, less what was with
    `c` if they were paired in both directions. -/
theorem Forgotten.paired_iff {m' : Maps Conn Value} (h : Forgotten m c m') {x y : Conn}
    {device : DeviceId} :
    m'.paired x device = some y ↔
      x ≠ c ∧ m.paired x device = some y ∧ (x ∈ m.peersOf c → y ≠ c) := by
  unfold paired
  rw [h.pairings]
  by_cases hx : x = c
  · simp [hx]
  · by_cases hpeer : x ∈ m.peersOf c
    · cases m.pairings x <;> simp [hx, hpeer, get_without]
    · simp [hx, hpeer]

theorem forgotten_forgetConnection (m : Maps Conn Value) (c : Conn) :
    Forgotten m c (m.forgetConnection c).1 := by
  have hdrop (x : Conn) : (m.drop c).mostRecentPairing x =
      if x = c then none else m.mostRecentPairing x := Function.update_apply _ _ _ _
  unfold forgetConnection
  cases hown : m.pairings c with
  | none =>
    have hpeers : m.peersOf c = [] := by rw [peersOf, hown]; rfl
    refine ⟨rfl, rfl, rfl, rfl, fun x => ?_, fun x => ?_⟩
    · rw [hpeers, if_neg List.not_mem_nil]
      split_ifs with hx
      · rw [hx]
        exact hown
      · rfl
    · refine (hdrop x).trans ?_
      simp [hpeers]
  | some own =>
    have hpeers : m.peersOf c = own.values := by rw [peersOf, hown]; rfl
    obtain ⟨hconnections, huplink, hdevices, hdevice⟩ :=
      forgetPeers_frame (c := c) own.values (m.drop c)
    refine ⟨hconnections, huplink, hdevices, hdevice, fun x => ?_, fun x => ?_⟩
    · rw [hpeers]
      by_cases hx : x = c
      · grind
      · rw [if_neg hx]
        refine (Function.update_of_ne hx _ _).trans ?_
        exact forgetPeers_pairings own.values (m.drop c) x
    · grind [forgetPeers_mostRecentPairing]

end Maps

end WireMesh.TypeScript.RelayHub
