import WireMesh.Machine
import WireMesh.TypeScript.Mailbox
import WireMesh.TypeScript.PeerAdvert
import WireMesh.TypeScript.VerdictCache

/-!
# The relay hub

The hub of `relay-hub.ts`. Devices make themselves known to it by the adverts they gossip,
and it remembers over which connection each of them is reached (`Maps.devices`). A connection
that asks for a device is paired with that of the device, and data is relayed within such
pairings.

The handlers of frames are asynchronous. A handler runs until it awaits something, and is
then a *task* of the hub (`Task`), which goes on at any later moment: after its adverts are
verified, after a send, or after an operation on the storage. Anything may happen in between
(`Event`), so that a run of the hub is any list of events (`Machine.run`).

* `Maps`: the registrations and the pairings, and what a handler does to them.
* `step`: what an event does, and what the hub sends.
-/

namespace WireMesh.TypeScript.RelayHub

/-! ## Frames -/

/-- The frames that the hub handles and sends, and all the others. -/
inductive Frame (Value : Type)
  | gossip (peers : List (PeerAdvert Value))
  | relayConnect (targetDevice : DeviceId) (sourceDevice : Option DeviceId)
  | relayInbound (sourceDevice : DeviceId) (targetDevice : Option DeviceId)
  | relayData (payload : Bytes) (toDevice fromDevice : Option DeviceId)
  | data (frame : DataFrame)
  | ping
  | pong
  | other
deriving DecidableEq

/-- The device that a relayed frame is stamped with. -/
def Frame.stamp {Value : Type} : Frame Value → Option DeviceId
  | relayInbound sourceDevice _ => some sourceDevice
  | relayData _ _ fromDevice => fromDevice
  | _ => none

/-- The frames that are delivered within pairings. -/
def Frame.relayed {Value : Type} : Frame Value → Bool
  | relayInbound _ _ => true
  | relayData _ _ _ => true
  | _ => false

/-! ## Maps -/

/-- The connection that a device is reached over, with the advert that says so. -/
structure Registration (Conn Value : Type) where
  connection : Conn
  advert : PeerAdvert Value
deriving DecidableEq

/-- The registrations of devices. A device is registered under an advert of its own. -/
structure Directory (Conn Value : Type) where
  registrations : OrderedMap DeviceId (Registration Conn Value)
  keyed : ∀ device registration, registrations.get device = some registration →
    registration.advert.device = device

namespace Directory

variable {Conn Value : Type}

def empty : Directory Conn Value where
  registrations := .empty
  keyed device registration h := by simp at h

def get (devices : Directory Conn Value) (device : DeviceId) :
    Option (Registration Conn Value) :=
  devices.registrations.get device

def values (devices : Directory Conn Value) : List (Registration Conn Value) :=
  devices.registrations.values

def register (devices : Directory Conn Value) (connection : Conn) (advert : PeerAdvert Value) :
    Directory Conn Value where
  registrations := devices.registrations.set advert.device { connection, advert }
  keyed device registration h := by grind [OrderedMap.get_set, keyed]

/-- The registrations that satisfy a condition. -/
def filter (devices : Directory Conn Value) (p : Registration Conn Value → Bool) :
    Directory Conn Value where
  registrations := devices.registrations.filter fun e => p e.2
  keyed device registration h :=
    devices.keyed device registration (OrderedMap.get_filter_eq_some.1 h).1

end Directory

/-- The state of a connection, to be kept by the host. -/
structure RelayConnectionState (Value : Type) where
  device : DeviceId
  adverts : List (PeerAdvert Value)
  pairedDevices : List DeviceId
  mostRecentDevice : Option DeviceId
deriving DecidableEq

/-- What the hub has in memory, with connections in `Conn`. -/
structure Maps (Conn Value : Type) where
  connections : LiveSet Conn
  uplink : Option Conn
  devices : Directory Conn Value
  connectionDevice : Conn → Option DeviceId
  pairings : Conn → Option (OrderedMap DeviceId Conn)
  mostRecentPairing : Conn → Option Conn

/-- What the hub does to the outside: it sends a frame because of one from the connection
    `cause`, or calls back its host. -/
inductive Output (Conn Value : Type)
  | send (cause recipient : Conn) (frame : Frame Value)
  | stateChanged (connection : Conn) (state : Option (RelayConnectionState Value))
  | advertRefused (device : DeviceId) (key : String)
  | mailboxRefused (device : Option DeviceId) (reason : MailboxRefusalReason)
deriving DecidableEq

section Maps

variable {Conn Value : Type} [DecidableEq Conn]

/-- Whether a verified advert takes over a registration: it is newer, or it comes from the
    same connection and is not older. -/
def supersedes (registered : Registration Conn Value) (advert : PeerAdvert Value)
    (connection : Conn) : Prop :=
  if registered.connection = connection then
    registered.advert.snapshotSeconds ≤ advert.snapshotSeconds
  else registered.advert.snapshotSeconds < advert.snapshotSeconds

instance (registered : Registration Conn Value) (advert : PeerAdvert Value)
    (connection : Conn) : Decidable (supersedes registered advert connection) := by
  unfold supersedes
  infer_instance

namespace Maps

/-- The hub after it is stopped. -/
def clear (m : Maps Conn Value) : Maps Conn Value where
  connections := m.connections.clear
  uplink := none
  devices := .empty
  connectionDevice _ := none
  pairings _ := none
  mostRecentPairing _ := none

def empty : Maps Conn Value where
  connections := .empty
  uplink := none
  devices := .empty
  connectionDevice _ := none
  pairings _ := none
  mostRecentPairing _ := none

/-- The connection that one is paired with under a device. -/
def paired (m : Maps Conn Value) (connection : Conn) (device : DeviceId) : Option Conn :=
  (m.pairings connection).bind fun own => own.get device

/-- The device is registered to the connection. -/
def RegisteredTo (m : Maps Conn Value) (device : DeviceId) (connection : Conn) : Prop :=
  ∃ registration, m.devices.get device = some registration ∧
    registration.connection = connection

def setPairing (m : Maps Conn Value) (connection : Conn) (device : DeviceId) (peer : Conn) :
    Maps Conn Value :=
  { m with
    pairings := Function.update m.pairings connection
      (some (((m.pairings connection).getD .empty).set device peer)) }

def addPairing (m : Maps Conn Value) (a : Conn) (aDevice : DeviceId) (b : Conn)
    (bDevice : DeviceId) : Maps Conn Value :=
  { (m.setPairing a bDevice b).setPairing b aDevice a with
    mostRecentPairing := Function.update (Function.update m.mostRecentPairing a (some b)) b
      (some a) }

def exportConnection (m : Maps Conn Value) (connection : Conn) :
    Option (RelayConnectionState Value) := do
  let device ← m.connectionDevice connection
  let own := (m.pairings connection).getD .empty
  return {
    device
    adverts := (m.devices.values.filter fun r => r.connection = connection).map
      Registration.advert
    pairedDevices := own.keys
    mostRecentDevice := do
      let recent ← m.mostRecentPairing connection
      return (← own.entries.find? fun e => e.2 = recent).1 }

/-- The callback for a connection, with what it reads. -/
def stateChanged (m : Maps Conn Value) (connection : Conn) : Output Conn Value :=
  .stateChanged connection (m.exportConnection connection)

/-- A peer no longer refers to the connection. -/
def forgetPeer (connection : Conn) (m : Maps Conn Value) (peer : Conn) : Maps Conn Value :=
  { m with
    pairings := Function.update m.pairings peer
      ((m.pairings peer).map fun own => own.filter fun e => e.2 ≠ connection)
    mostRecentPairing := if m.mostRecentPairing peer = some connection then
      Function.update m.mostRecentPairing peer none else m.mostRecentPairing }

/-- The peers are told one after the other. -/
def forgetPeers (connection : Conn) :
    List Conn → Maps Conn Value → Maps Conn Value × List (Output Conn Value)
  | [], m => (m, [])
  | peer :: peers, m =>
    let m := m.forgetPeer connection peer
    let (forgotten, outputs) := forgetPeers connection peers m
    (forgotten, m.stateChanged peer :: outputs)

/-- The connection is dropped, and the devices that are registered to it. -/
def drop (m : Maps Conn Value) (connection : Conn) : Maps Conn Value :=
  { m with
    connections := m.connections.delete connection
    devices := m.devices.filter fun r => r.connection ≠ connection
    connectionDevice := Function.update m.connectionDevice connection none
    mostRecentPairing := Function.update m.mostRecentPairing connection none
    uplink := if m.uplink = some connection then none else m.uplink }

def forgetConnection (m : Maps Conn Value) (connection : Conn) :
    Maps Conn Value × List (Output Conn Value) :=
  match m.pairings connection with
  | none => (m.drop connection, [])
  | some own =>
    let (forgotten, outputs) := forgetPeers connection own.values (m.drop connection)
    ({ forgotten with pairings := Function.update forgotten.pairings connection none }, outputs)

/-- The device that a frame from the connection acts for: the one it names, if it is
    registered to the connection, or the one the hub attributes to the connection. -/
def initiatorOf (m : Maps Conn Value) (connection : Conn) (claimed : Option DeviceId) :
    Option DeviceId :=
  match claimed with
  | none => m.connectionDevice connection
  | some device =>
    if (m.devices.get device).map Registration.connection = some connection then some device
    else none

/-! ## Relaying -/

/-- A request to be paired with the connection of a device. The connection of the device is
    told, be it that the device is behind the upstream hub, which then pairs it in turn. -/
def relayConnect (m : Maps Conn Value) (connection : Conn) (targetDevice : DeviceId)
    (sourceDevice : Option DeviceId) : Maps Conn Value × List (Output Conn Value) :=
  match m.devices.get targetDevice with
  | none => (m, [])
  | some registration =>
    if registration.connection = connection then (m, []) else
    match m.initiatorOf connection sourceDevice with
    | none => (m, [])
    | some initiatorDevice =>
      if m.uplink = some connection then (m, []) else
      let paired := m.addPairing connection initiatorDevice registration.connection
        registration.advert.device
      (paired, [paired.stateChanged connection, paired.stateChanged registration.connection,
        .send connection registration.connection
          (if m.uplink = some registration.connection then
            .relayConnect registration.advert.device (some initiatorDevice)
          else .relayInbound initiatorDevice (some registration.advert.device))])

/-- The upstream hub tells that a device of its own was paired with one of this hub. -/
def handleUplinkInbound (m : Maps Conn Value) (connection : Conn) (sourceDevice : DeviceId)
    (targetDevice : Option DeviceId) : Maps Conn Value × List (Output Conn Value) :=
  match targetDevice with
  | none => (m, [])
  | some target =>
    if m.uplink ≠ some connection then (m, []) else
    match m.devices.get target with
    | none => (m, [])
    | some registration =>
      if registration.connection = connection ∨
          (m.devices.get sourceDevice).map Registration.connection ≠ some connection then
        (m, [])
      else
        let paired := m.addPairing registration.connection target connection sourceDevice
        (paired, [paired.stateChanged registration.connection, paired.stateChanged connection,
          .send connection registration.connection (.relayInbound sourceDevice (some target))])

/-- The connection that data is for: the one that it is paired with under the device it is
    for, or most recently. -/
def route (m : Maps Conn Value) (connection : Conn) (toDevice : Option DeviceId) : Option Conn :=
  match toDevice with
  | some device => m.paired connection device
  | none => m.mostRecentPairing connection

def relayData (m : Maps Conn Value) (connection : Conn) (payload : Bytes)
    (toDevice fromDevice : Option DeviceId) : List (Output Conn Value) :=
  match m.route connection toDevice, m.initiatorOf connection fromDevice with
  | some peer, some sender =>
    if fromDevice.all fun claimed => m.paired peer claimed = some connection then
      [.send connection peer (.relayData payload toDevice (some sender))]
    else []
  | _, _ => []

/-! ## Gossip -/

/-- What has become of the adverts of a frame so far. -/
structure Gossiped (Conn Value : Type) where
  devices : Directory Conn Value
  accepted : List (PeerAdvert Value)
  supplanted : List Conn
  refused : List (Output Conn Value)

/-- An advert is registered if the policy allows it and it supersedes the registration of its
    device. -/
def registerAdvert (policy : Option (AdvertExtensionPolicy Value)) (connection : Conn)
    (g : Gossiped Conn Value) (advert : PeerAdvert Value) : Gossiped Conn Value :=
  match policy.elim (.ok ()) (checkAdvertExtensions advert) with
  | .error key => { g with refused := g.refused ++ [.advertRefused advert.device key] }
  | .ok _ =>
    let registered : Gossiped Conn Value :=
      { g with
        devices := g.devices.register connection advert
        accepted := g.accepted ++ [advert] }
    match g.devices.get advert.device with
    | none => registered
    | some previous =>
      if ¬supersedes previous advert connection then g
      else if previous.connection = connection ∨ previous.connection ∈ g.supplanted then registered
      else { registered with supplanted := g.supplanted ++ [previous.connection] }

/-- The verified adverts of a frame are registered one after the other. -/
def gossiped (m : Maps Conn Value) (policy : Option (AdvertExtensionPolicy Value))
    (connection : Conn) (verified : List (PeerAdvert Value)) : Gossiped Conn Value :=
  verified.foldl (registerAdvert policy connection) ⟨m.devices, [], [], []⟩

/-- The hub attributes to a connection the first device that is registered to it. -/
def attributeDevice (m : Maps Conn Value) (connection : Conn) : Maps Conn Value :=
  match m.devices.values.find? fun r => r.connection = connection with
  | none => m
  | some registration =>
    { m with
      connectionDevice :=
        Function.update m.connectionDevice connection (some registration.advert.device) }

/-- The hub after the verified adverts of a frame from the connection. -/
def gossip (m : Maps Conn Value) (policy : Option (AdvertExtensionPolicy Value))
    (connection : Conn) (verified : List (PeerAdvert Value)) : Maps Conn Value :=
  let g := m.gossiped policy connection verified
  if g.accepted.isEmpty then m else { m with devices := g.devices }.attributeDevice connection

/-- The adverts that a connection is caught up with. -/
def catchUp (m : Maps Conn Value) (connection : Conn) : List (PeerAdvert Value) :=
  (m.devices.values.filter fun r => r.connection ≠ connection).map Registration.advert

end Maps

end Maps

/-! ## Handlers -/

structure RelayHubOptions (Value : Type) where
  identity : PeerAdvertVerifier
  encoding : TailEncoding Value
  extensionPolicy : Option (AdvertExtensionPolicy Value) := none
  mailbox : Option MailboxLimits := none

/-- A handler that awaits something, with the connection that it handles a frame of. -/
inductive Task (Conn Value : Type)
  /-- The adverts of a gossip frame are being verified. An advert that cannot be encoded is
      refused, the others wait for the verdict of a computation. -/
  | verifying (connection : Conn) (requests : List (PeerAdvert Value × Option ℕ))
  /-- Adverts are being forwarded to the connections, from a position on. -/
  | forwarding (connection : Conn) (accepted : List (PeerAdvert Value)) (position : ℕ)
  /-- All has been forwarded. -/
  | catchingUp (connection : Conn)
  /-- The upstream hub is being sent the adverts of this one. -/
  | attaching (connection : Conn)
  /-- The mailbox is handling a frame from a connection attributed to `sender`. -/
  | answering (connection : Conn) (sender : Option DeviceId) (program : StorageM Mailbox.Reply)

def Task.connection {Conn Value : Type} : Task Conn Value → Conn
  | verifying connection _ => connection
  | forwarding connection _ _ => connection
  | catchingUp connection => connection
  | attaching connection => connection
  | answering connection _ _ => connection

structure State (Conn Value : Type) where
  maps : Maps Conn Value
  tasks : List (Task Conn Value)
  /-- The cache of verdicts, which is shared with others. -/
  cache : VerdictCache (PeerAdvert Value)
  storage : KeyValueStorage

inductive Event (Conn Value : Type)
  /-- A connection is there. -/
  | register (connection : Conn)
  /-- A frame has come on a connection. -/
  | frame (connection : Conn) (frame : Frame Value)
  /-- The task with the given number goes on. -/
  | resume (task : ℕ)
  /-- A connection is gone. -/
  | forget (connection : Conn)
  /-- A connection to an upstream hub is there. -/
  | attachUplink (connection : Conn)
  | stop
  /-- Another user of the verifier verifies an advert. -/
  | verify (advert : PeerAdvert Value)
  /-- A computation of the cache has run. -/
  | resolve (computation : ℕ)
  /-- Its verdict is given to those who wait for it. -/
  | settle (computation : ℕ)
deriving DecidableEq

/-- The most that the cache of verdicts may take. -/
def peerAdvertVerdictBudgetBytes : ℕ := 8 * 1024 * 1024

section Handlers

variable {Conn Value : Type} [DecidableEq Conn] (options : RelayHubOptions Value)

/-- The signed bytes of an advert that can be encoded. -/
def signedBytes (advert : PeerAdvert Value) : Bytes :=
  (peerAdvertSigningInput options.encoding advert).getD []

/-- The checks of an advert with its signed bytes. -/
def check (advert : PeerAdvert Value) : Option Bool :=
  checkPeerAdvert options.identity advert (signedBytes options advert)

/-- What the cache remembers a verdict by. -/
def requestParts (advert : PeerAdvert Value) : List Bytes :=
  [advert.signature, signedBytes options advert]

/-- The cache after the call, and the number of the computation that gives the verdict, unless
    the advert is refused at once. -/
def verifyPeerAdvert (cache : VerdictCache (PeerAdvert Value)) (advert : PeerAdvert Value) :
    VerdictCache (PeerAdvert Value) × Option ℕ :=
  match peerAdvertSigningInput options.encoding advert with
  | none => (cache, none)
  | some _ =>
    let (cache, computation) := cache.verdict peerAdvertVerdictBudgetBytes
      (requestParts options advert) advert
    (cache, some computation)

def verifyAll (cache : VerdictCache (PeerAdvert Value)) : List (PeerAdvert Value) →
    VerdictCache (PeerAdvert Value) × List (PeerAdvert Value × Option ℕ)
  | [] => (cache, [])
  | advert :: peers =>
    let (cache, computation) := verifyPeerAdvert options cache advert
    let (cache, requests) := verifyAll cache peers
    (cache, (advert, computation) :: requests)

/-- The adverts that have passed, once all the verdicts are there. -/
def verified (cache : VerdictCache (PeerAdvert Value)) :
    List (PeerAdvert Value × Option ℕ) → Option (List (PeerAdvert Value))
  | [] => some []
  | (_, none) :: requests => verified cache requests
  | (advert, some computation) :: requests => do
    let passed ← cache.answer computation
    let rest ← verified cache requests
    return if passed then advert :: rest else rest

namespace State

/-- The task is suspended. -/
def suspend (s : State Conn Value) (task : Task Conn Value) : State Conn Value :=
  { s with tasks := s.tasks ++ [task] }

/-- Adverts are forwarded to the next one of the other connections, if there is one. -/
def forward (s : State Conn Value) (connection : Conn) (accepted : List (PeerAdvert Value))
    (position : ℕ) : State Conn Value × List (Output Conn Value) :=
  match s.maps.connections.next position fun other => other ≠ connection with
  | none => (s.suspend (.catchingUp connection), [])
  | some (number, other) =>
    (s.suspend (.forwarding connection accepted (number + 1)),
      [.send connection other (.gossip accepted)])

/-- The verified adverts of a frame are registered. -/
def registered (s : State Conn Value) (connection : Conn) (verified : List (PeerAdvert Value)) :
    State Conn Value :=
  { s with maps := s.maps.gossip options.extensionPolicy connection verified }

/-- The adverts of a frame have been verified. -/
def gossip (s : State Conn Value) (connection : Conn) (verified : List (PeerAdvert Value)) :
    State Conn Value × List (Output Conn Value) :=
  let g := s.maps.gossiped options.extensionPolicy connection verified
  if g.accepted.isEmpty then (s, g.refused) else
  let registered := s.registered options connection verified
  let (forwarded, sends) := registered.forward connection g.accepted 0
  (forwarded, g.refused ++ registered.maps.stateChanged connection ::
    g.supplanted.map registered.maps.stateChanged ++ sends)

/-- A task, which is no longer among those of the hub, goes on. -/
def resume (s : State Conn Value) : Task Conn Value → State Conn Value × List (Output Conn Value)
  | .verifying connection requests => match verified s.cache requests with
    | none => (s.suspend (.verifying connection requests), [])
    | some verified => s.gossip options connection verified
  | .forwarding connection accepted position => s.forward connection accepted position
  | .catchingUp connection =>
    let catchUp := s.maps.catchUp connection
    -- Two hubs do not catch each other up.
    (s, if catchUp.isEmpty ∨ s.maps.uplink = some connection then []
      else [.send connection connection (.gossip catchUp)])
  | .attaching connection =>
    ({ s with maps := { s.maps with connections := s.maps.connections.add connection } }, [])
  | .answering connection sender program => match program with
    | .ret (.error reason) => (s, [.mailboxRefused sender reason])
    | .ret (.ok reply) =>
      (s, reply.toList.map fun frame => .send connection connection (.data frame))
    | program =>
      let (storage, program) := program.step s.storage
      ({ s with storage }.suspend (.answering connection sender program), [])

def handleFrame (s : State Conn Value) (connection : Conn) :
    Frame Value → State Conn Value × List (Output Conn Value)
  | .gossip peers =>
    let (cache, requests) := verifyAll options s.cache peers
    ({ s with cache }.suspend (.verifying connection requests), [])
  | .relayConnect targetDevice sourceDevice =>
    let (maps, outputs) := s.maps.relayConnect connection targetDevice sourceDevice
    ({ s with maps }, outputs)
  | .relayInbound sourceDevice targetDevice =>
    let (maps, outputs) := s.maps.handleUplinkInbound connection sourceDevice targetDevice
    ({ s with maps }, outputs)
  | .relayData payload toDevice fromDevice =>
    (s, s.maps.relayData connection payload toDevice fromDevice)
  | .data frame => match options.mailbox with
    | none => (s, [])
    | some limits =>
      let sender := s.maps.connectionDevice connection
      (s.suspend (.answering connection sender (Mailbox.handle limits sender frame)), [])
  | .ping => (s, [.send connection connection .pong])
  | .pong => (s, [])
  | .other => (s, [])

/-- The upstream hub is told of all the devices, before it counts as connected. -/
def handleUplink (s : State Conn Value) (connection : Conn) :
    State Conn Value × List (Output Conn Value) :=
  if s.maps.uplink.isSome then (s, []) else
  let attached := { s with maps := { s.maps with uplink := some connection } }
  let adverts := s.maps.devices.values.map Registration.advert
  if adverts.isEmpty then
    ({ s with maps :=
        { attached.maps with connections := s.maps.connections.add connection } }, [])
  else
    (attached.suspend (.attaching connection), [.send connection connection (.gossip adverts)])

end State

def step (s : State Conn Value) : Event Conn Value → State Conn Value × List (Output Conn Value)
  | .register connection =>
    ({ s with maps := { s.maps with connections := s.maps.connections.add connection } }, [])
  | .frame connection frame => s.handleFrame options connection frame
  | .resume task => match s.tasks[task]? with
    | none => (s, [])
    | some suspended => { s with tasks := s.tasks.eraseIdx task }.resume options suspended
  | .forget connection =>
    let (maps, outputs) := s.maps.forgetConnection connection
    ({ s with maps }, outputs)
  | .attachUplink connection => s.handleUplink connection
  | .stop => ({ s with maps := s.maps.clear }, [])
  | .verify advert => ({ s with cache := (verifyPeerAdvert options s.cache advert).1 }, [])
  | .resolve computation => ({ s with cache := s.cache.resolve (check options) computation }, [])
  | .settle computation => ({ s with cache := s.cache.settle computation }, [])

/-- The state after an event. -/
def next (s : State Conn Value) (e : Event Conn Value) : State Conn Value := (step options s e).1

/-- The hub as it is created over a storage. -/
def State.init (storage : KeyValueStorage) : State Conn Value where
  maps := .empty
  tasks := []
  cache := .empty
  storage := storage

end Handlers

/-! ## A hub to evaluate -/

/-- A hub with a mailbox, for which a device signs with its public key. -/
def RelayHubOptions.sample : RelayHubOptions Unit where
  identity :=
    { verify key _ signature := .ok (signature = key.publicKey)
      deriveDeviceId := .pad }
  encoding :=
    { encode _ := none
      delimited := by rintro b b' ⟨_, h⟩; cases h }
  mailbox := some { maxLogs := 10, maxLogBytes := 1000, maxEntryBytes := 100, readBatch := 10 }

/-- An advert of the device with the given number. -/
def sampleAdvert (n : UInt8) (snapshotSeconds : ℕ) (h : snapshotSeconds < 2 ^ 64 := by decide) :
    PeerAdvert Unit where
  device := .pad [n]
  addresses := []
  snapshotSeconds := snapshotSeconds
  identityKey := { alg := -8, publicKey := [n] }
  signature := [n]
  extensions := []
  snapshotSeconds_lt := by simpa using h
  alg_lt := by simp
  publicKey_lt := by simp

theorem sampleSeconds_lt : 100 < 2 ^ 64 := by decide

/-- The connection gossips an advert, whose verdict is that of the computation with the given
    number. It is verified, registered and forwarded, with three connections at most. -/
def sampleGossip (computation : ℕ) (connection : ℕ) (advert : PeerAdvert Unit) :
    List (Event ℕ Unit) :=
  [.frame connection (.gossip [advert]), .resolve computation, .settle computation, .resume 0,
    .resume 0, .resume 0, .resume 0]

end WireMesh.TypeScript.RelayHub
