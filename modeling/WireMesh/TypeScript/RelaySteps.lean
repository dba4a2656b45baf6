import WireMesh.TypeScript.RelayHub

/-!
# The steps of the relay hub

All that an event can do, said once: to the maps of the hub (`mapsStep`), to its tasks
(`tasks_next`), to the storage (`storage_next`), and what it can make the hub send
(`sends_step`). What is proved of the runs of the hub is proved from these.
-/

namespace WireMesh.TypeScript.RelayHub

variable {Conn Value : Type} [DecidableEq Conn] {options : RelayHubOptions Value}
  {s : State Conn Value} {e : Event Conn Value}

/-- The connection that the event is about: the one it names, or that of the handler that
    goes on. -/
inductive Actor (s : State Conn Value) : Event Conn Value → Conn → Prop
  | register (c : Conn) : Actor s (.register c) c
  | frame (c : Conn) (f : Frame Value) : Actor s (.frame c f) c
  | attachUplink (c : Conn) : Actor s (.attachUplink c) c
  | resume {i : ℕ} {t : Task Conn Value} (h : s.tasks[i]? = some t) :
    Actor s (.resume i) t.connection

/-! ## Maps -/

/-- A frame from `c` pairs two connections under two devices. -/
inductive Pairs (m : Maps Conn Value) (c : Conn) : Frame Value → Conn → DeviceId → Conn →
    DeviceId → Prop
  | connect {target initiator : DeviceId} {source : Option DeviceId}
    {registration : Registration Conn Value} (hget : m.devices.get target = some registration)
    (hne : registration.connection ≠ c) (hinitiator : m.initiatorOf c source = some initiator)
    (hdown : m.uplink ≠ some c) :
    Pairs m c (.relayConnect target source) c initiator registration.connection
      registration.advert.device
  | inbound {source target : DeviceId} {registration : Registration Conn Value}
    (hup : m.uplink = some c) (hget : m.devices.get target = some registration)
    (hne : registration.connection ≠ c) (hsource : m.RegisteredTo source c) :
    Pairs m c (.relayInbound source (some target)) registration.connection target c source

/-- The task is to handle a gossip frame whose adverts have been verified. -/
def Verified (s : State Conn Value) (task : ℕ) (c : Conn) (adverts : List (PeerAdvert Value)) :
    Prop :=
  ∃ requests, s.tasks[task]? = some (.verifying c requests) ∧
    verified s.cache requests = some adverts

/-- What a handler of the connection does to the maps. -/
inductive Acts (options : RelayHubOptions Value) (s : State Conn Value) (c : Conn) :
    Event Conn Value → Maps Conn Value → Prop
  | idle {e : Event Conn Value} : Acts options s c e s.maps
  | connects {e : Event Conn Value} (h : e = .register c ∨ .attaching c ∈ s.tasks) :
    Acts options s c e { s.maps with connections := s.maps.connections.add c }
  | attaches (h : s.maps.uplink = none) :
    Acts options s c (.attachUplink c) { s.maps with uplink := some c }
  | attachesAtOnce (h : s.maps.uplink = none) :
    Acts options s c (.attachUplink c)
      { s.maps with uplink := some c, connections := s.maps.connections.add c }
  | gossips {i : ℕ} {adverts : List (PeerAdvert Value)} (h : Verified s i c adverts) :
    Acts options s c (.resume i) (s.maps.gossip options.extensionPolicy c adverts)
  | pairs {f : Frame Value} {a b : Conn} {aDevice bDevice : DeviceId}
    (h : Pairs s.maps c f a aDevice b bDevice) :
    Acts options s c (.frame c f) (s.maps.addPairing a aDevice b bDevice)

/-- What an event does to the maps. -/
inductive MapsStep (options : RelayHubOptions Value) (s : State Conn Value) :
    Event Conn Value → Maps Conn Value → Prop
  | acts {e : Event Conn Value} {c : Conn} {m : Maps Conn Value} (hactor : Actor s e c)
    (h : Acts options s c e m) : MapsStep options s e m
  | forget (c : Conn) : MapsStep options s (.forget c) (s.maps.forgetConnection c).1
  | stop : MapsStep options s .stop s.maps.clear
  | same {e : Event Conn Value} : MapsStep options s e s.maps

theorem forward_maps (s : State Conn Value) (c : Conn) (accepted : List (PeerAdvert Value))
    (position : ℕ) : (s.forward c accepted position).1.maps = s.maps := by
  rw [State.forward]
  split <;> rfl

theorem gossip_maps (s : State Conn Value) (c : Conn) (adverts : List (PeerAdvert Value)) :
    (s.gossip options c adverts).1.maps = s.maps.gossip options.extensionPolicy c adverts := by
  rw [State.gossip]
  split
  next h => rw [Maps.gossip, if_pos h]
  next => exact forward_maps _ _ _ _

omit [DecidableEq Conn] in
theorem registeredTo_iff {m : Maps Conn Value} {device : DeviceId} {c : Conn} :
    (m.devices.get device).map Registration.connection = some c ↔ m.RegisteredTo device c :=
  Option.map_eq_some_iff

theorem relayConnect_cases (m : Maps Conn Value) (c : Conn) (target : DeviceId)
    (source : Option DeviceId) :
    m.relayConnect c target source = (m, []) ∨ ∃ registration initiator,
      m.devices.get target = some registration ∧ registration.connection ≠ c ∧
      m.initiatorOf c source = some initiator ∧ m.uplink ≠ some c ∧
      let paired := m.addPairing c initiator registration.connection registration.advert.device
      m.relayConnect c target source =
        (paired, [paired.stateChanged c, paired.stateChanged registration.connection,
          .send c registration.connection
            (if m.uplink = some registration.connection then
              .relayConnect registration.advert.device (some initiator)
            else .relayInbound initiator (some registration.advert.device))]) := by
  cases hget : m.devices.get target with
  | none => exact .inl (by simp [Maps.relayConnect, hget])
  | some registration => grind [Maps.relayConnect]

theorem handleUplinkInbound_cases (m : Maps Conn Value) (c : Conn) (source : DeviceId)
    (target : Option DeviceId) :
    m.handleUplinkInbound c source target = (m, []) ∨ ∃ device registration,
      target = some device ∧ m.uplink = some c ∧ m.devices.get device = some registration ∧
      registration.connection ≠ c ∧ m.RegisteredTo source c ∧
      let paired := m.addPairing registration.connection device c source
      m.handleUplinkInbound c source target =
        (paired, [paired.stateChanged registration.connection, paired.stateChanged c,
          .send c registration.connection (.relayInbound source (some device))]) := by
  unfold Maps.handleUplinkInbound
  grind [registeredTo_iff]

/-- What an event does to the maps of the hub. -/
theorem mapsStep (options : RelayHubOptions Value) (s : State Conn Value) (e : Event Conn Value) :
    MapsStep options s e (next options s e).maps := by
  cases e with
  | register c => exact .acts (.register c) (.connects (.inl rfl))
  | frame c f =>
    cases f with
    | relayConnect target source =>
      change MapsStep options s _ (s.maps.relayConnect c target source).1
      rcases relayConnect_cases s.maps c target source with
        h | ⟨registration, initiator, hget, hne, hinitiator, hdown, h⟩
      · rw [h]
        exact .same
      · rw [h]
        exact .acts (.frame c _) (.pairs (.connect hget hne hinitiator hdown))
    | relayInbound source target =>
      change MapsStep options s _ (s.maps.handleUplinkInbound c source target).1
      rcases handleUplinkInbound_cases s.maps c source target with
        h | ⟨device, registration, rfl, hup, hget, hne, hsource, h⟩
      · rw [h]
        exact .same
      · rw [h]
        exact .acts (.frame c _) (.pairs (.inbound hup hget hne hsource))
    | data frame =>
      rw [next, step, State.handleFrame]
      split <;> exact .same
    | _ => exact .same
  | resume i =>
    rw [next, step]
    split
    next => exact .same
    next t ht =>
      refine .acts (.resume ht) ?_
      cases t with
      | verifying c requests =>
        rw [State.resume]
        split
        next => exact .idle
        next adverts hadverts =>
          rw [gossip_maps]
          exact .gossips ⟨requests, ht, hadverts⟩
      | forwarding c accepted position =>
        rw [State.resume, forward_maps]
        exact .idle
      | catchingUp c => exact .idle
      | attaching c => exact .connects (.inr (List.mem_of_getElem? ht))
      | answering c sender program => cases program with
        | ret reply => cases reply <;> exact .idle
        | get key rest => exact .idle
        | set key value rest => exact .idle
  | forget c => exact .forget c
  | attachUplink c =>
    rw [next, step, State.handleUplink]
    split_ifs with hup
    · exact .same
    · refine .acts (.attachUplink c) ?_
      rw [Option.not_isSome_iff_eq_none] at hup
      dsimp only
      split
      · exact .attachesAtOnce hup
      · exact .attaches hup
  | stop => exact .stop
  | verify advert => exact .same
  | resolve computation => exact .same
  | settle computation => exact .same

/-! ## Tasks -/

/-- The adverts are being forwarded, or are about to be. -/
def Forwards (options : RelayHubOptions Value) (s : State Conn Value) (c : Conn)
    (accepted : List (PeerAdvert Value)) : Prop :=
  (∃ task adverts, Verified s task c adverts ∧
    accepted = (s.maps.gossiped options.extensionPolicy c adverts).accepted) ∨
  ∃ position, .forwarding c accepted position ∈ s.tasks

/-- A task that the event makes. -/
inductive NewTask (options : RelayHubOptions Value) (s : State Conn Value) :
    Event Conn Value → Task Conn Value → Prop
  | verifying (c : Conn) (peers : List (PeerAdvert Value)) :
    NewTask options s (.frame c (.gossip peers))
      (.verifying c (verifyAll options s.cache peers).2)
  | forwarding {i : ℕ} {c : Conn} {accepted : List (PeerAdvert Value)}
    (h : Forwards options s c accepted) (position : ℕ) :
    NewTask options s (.resume i) (.forwarding c accepted position)
  | catchingUp {i : ℕ} (c : Conn) : NewTask options s (.resume i) (.catchingUp c)
  | attaching (c : Conn) : NewTask options s (.attachUplink c) (.attaching c)
  | answering {limits : MailboxLimits} (hlimits : options.mailbox = some limits) (c : Conn)
    (frame : DataFrame) :
    NewTask options s (.frame c (.data frame)) (.answering c (s.maps.connectionDevice c)
      (Mailbox.handle limits (s.maps.connectionDevice c) frame))
  | answers {i : ℕ} {c : Conn} {sender : Option DeviceId} {program : StorageM Mailbox.Reply}
    (h : s.tasks[i]? = some (.answering c sender program)) :
    NewTask options s (.resume i) (.answering c sender (program.step s.storage).2)

omit [DecidableEq Conn] in
theorem mem_suspend {t t' : Task Conn Value} :
    t ∈ (s.suspend t').tasks ↔ t ∈ s.tasks ∨ t = t' := by
  simp [State.suspend]

/-- A handler that forwards goes on with the next connection, or has done with them. -/
theorem mem_tasks_forward {c : Conn} {accepted : List (PeerAdvert Value)} {position : ℕ}
    {t : Task Conn Value} (h : t ∈ (s.forward c accepted position).1.tasks) :
    t ∈ s.tasks ∨ t = .catchingUp c ∨ ∃ position, t = .forwarding c accepted position := by
  grind [State.forward, mem_suspend]

theorem mem_tasks_gossip {c : Conn} {adverts : List (PeerAdvert Value)} {t : Task Conn Value}
    (h : t ∈ (s.gossip options c adverts).1.tasks) :
    t ∈ s.tasks ∨ t = .catchingUp c ∨ ∃ position, t = .forwarding c
      (s.maps.gossiped options.extensionPolicy c adverts).accepted position := by
  rw [State.gossip] at h
  split at h
  · exact .inl h
  · exact mem_tasks_forward (s := s.registered options c adverts) h

/-- The tasks after an event are those before, or one of the connection that it is about. -/
theorem tasks_next {t : Task Conn Value} (h : t ∈ (next options s e).tasks) :
    t ∈ s.tasks ∨ Actor s e t.connection ∧ NewTask options s e t := by
  cases e with
  | frame c f =>
    cases f with
    | gossip peers =>
      refine (mem_suspend.1 h).imp_right ?_
      rintro rfl
      exact ⟨.frame c _, .verifying c peers⟩
    | data frame =>
      rw [next, step, State.handleFrame] at h
      split at h
      next => exact .inl h
      next limits hlimits =>
        refine (mem_suspend.1 h).imp_right ?_
        rintro rfl
        exact ⟨.frame c _, .answering hlimits c frame⟩
    | _ => exact .inl h
  | resume i =>
    rw [next, step] at h
    split at h
    next => exact .inl h
    next t' ht' =>
      have hactor := Actor.resume ht'
      have hkept {t : Task Conn Value} (h : t ∈ s.tasks.eraseIdx i) : t ∈ s.tasks :=
        List.mem_of_mem_eraseIdx h
      cases t' with
      | verifying c requests =>
        rw [State.resume] at h
        split at h
        next => grind [mem_suspend]
        next adverts hadverts =>
          rcases mem_tasks_gossip h with h | rfl | ⟨position, rfl⟩
          · exact .inl (hkept h)
          · exact .inr ⟨hactor, .catchingUp c⟩
          · exact .inr ⟨hactor, .forwarding
              (.inl ⟨i, adverts, ⟨requests, ht', hadverts⟩, rfl⟩) position⟩
      | forwarding c accepted position =>
        rcases mem_tasks_forward h with h | rfl | ⟨position', rfl⟩
        · exact .inl (hkept h)
        · exact .inr ⟨hactor, .catchingUp c⟩
        · exact .inr ⟨hactor, .forwarding (.inr ⟨position, List.mem_of_getElem? ht'⟩) position'⟩
      | catchingUp c => exact .inl (hkept h)
      | attaching c => exact .inl (hkept h)
      | answering c sender program =>
        have hanswers {program' : StorageM Mailbox.Reply}
            (h : t ∈ s.tasks.eraseIdx i ++ [.answering c sender program'])
            (hprogram : program' = (program.step s.storage).2) :
            t ∈ s.tasks ∨ Actor s (.resume i) t.connection ∧ NewTask options s (.resume i) t := by
          rcases List.mem_append.1 h with h | h
          · exact .inl (hkept h)
          · obtain rfl := List.mem_singleton.1 h
            exact .inr ⟨hactor, hprogram ▸ .answers ht'⟩
        cases program with
        | ret reply => cases reply <;> exact .inl (hkept h)
        | get key rest => exact hanswers h rfl
        | set key value rest => exact hanswers h rfl
  | attachUplink c =>
    rw [next, step, State.handleUplink] at h
    split_ifs at h
    · exact .inl h
    · dsimp only at h
      split at h
      · exact .inl h
      · refine (mem_suspend.1 h).imp_right ?_
        rintro rfl
        exact ⟨.attachUplink c, .attaching c⟩
  | _ => exact .inl h

/-! ## Sends -/

/-- What the hub relays of a frame from `c`, to whom. -/
inductive Relays (m : Maps Conn Value) (c : Conn) : Frame Value → Conn → Frame Value → Prop
  | connect {target initiator : DeviceId} {source : Option DeviceId}
    {registration : Registration Conn Value} (hget : m.devices.get target = some registration)
    (hne : registration.connection ≠ c) (hinitiator : m.initiatorOf c source = some initiator)
    (hdown : m.uplink ≠ some c) :
    Relays m c (.relayConnect target source) registration.connection
      (.relayInbound initiator (some registration.advert.device))
  | inbound {source target : DeviceId} {registration : Registration Conn Value}
    (hup : m.uplink = some c) (hget : m.devices.get target = some registration)
    (hne : registration.connection ≠ c) (hsource : m.RegisteredTo source c) :
    Relays m c (.relayInbound source (some target)) registration.connection
      (.relayInbound source (some target))
  | data {payload : Bytes} {toDevice fromDevice : Option DeviceId} {peer : Conn}
    {sender : DeviceId} (hpeer : m.route c toDevice = some peer)
    (hsender : m.initiatorOf c fromDevice = some sender)
    (hclaimed : ∀ claimed ∈ fromDevice, m.paired peer claimed = some c) :
    Relays m c (.relayData payload toDevice fromDevice) peer
      (.relayData payload toDevice (some sender))

/-- What an event makes the hub send, because of a connection and to one. -/
inductive Sends (options : RelayHubOptions Value) (s : State Conn Value) :
    Event Conn Value → Conn → Conn → Frame Value → Prop
  | relays {c recipient : Conn} {f frame : Frame Value} (h : Relays s.maps c f recipient frame) :
    Sends options s (.frame c f) c recipient frame
  | upstream {f : Frame Value} (c recipient : Conn) (target initiator : DeviceId) :
    Sends options s (.frame c f) c recipient (.relayConnect target (some initiator))
  | forwards {i : ℕ} {c : Conn} {accepted : List (PeerAdvert Value)}
    (h : Forwards options s c accepted) (recipient : Conn) :
    Sends options s (.resume i) c recipient (.gossip accepted)
  | catchesUp {i : ℕ} (c : Conn) :
    Sends options s (.resume i) c c (.gossip (s.maps.catchUp c))
  | announces (c : Conn) :
    Sends options s (.attachUplink c) c c
      (.gossip (s.maps.devices.values.map Registration.advert))
  | replies {i : ℕ} (c : Conn) (frame : DataFrame) :
    Sends options s (.resume i) c c (.data frame)
  | pong (c : Conn) : Sends options s (.frame c .ping) c c .pong

theorem Sends.relays_of_relayed {c recipient : Conn} {frame : Frame Value}
    (h : Sends options s e c recipient frame) (hrelayed : frame.relayed) :
    ∃ f, e = .frame c f ∧ Relays s.maps c f recipient frame := by
  cases h with
  | @relays _ _ f _ h => exact ⟨f, rfl, h⟩
  | _ => cases hrelayed

/-- Only what is relayed is stamped with a device. -/
theorem Frame.relayed_of_stamp {frame : Frame Value} {device : DeviceId}
    (h : frame.stamp = some device) : frame.relayed := by
  cases frame <;> first | rfl | cases h

theorem notMem_forgetPeers {c : Conn} {cause recipient : Conn} {frame : Frame Value}
    {peers : List Conn} {m : Maps Conn Value} :
    .send cause recipient frame ∉ (Maps.forgetPeers c peers m).2 := by
  induction peers generalizing m with
  | nil => exact List.not_mem_nil
  | cons peer peers ih =>
    intro h
    rcases List.mem_cons.1 h with h | h
    · cases h
    · exact ih h

theorem mem_forward {c cause recipient : Conn} {frame : Frame Value}
    {accepted : List (PeerAdvert Value)} {position : ℕ}
    (h : .send cause recipient frame ∈ (s.forward c accepted position).2) :
    cause = c ∧ frame = .gossip accepted := by grind [State.forward]

theorem mem_refused {policy : Option (AdvertExtensionPolicy Value)} {c : Conn}
    {m : Maps Conn Value} {adverts : List (PeerAdvert Value)} {output : Output Conn Value}
    (h : output ∈ (m.gossiped policy c adverts).refused) :
    ∃ device key, output = .advertRefused device key := by
  unfold Maps.gossiped at h
  induction adverts using List.reverseRecOn with
  | nil => cases h
  | append_singleton adverts advert ih =>
    rw [List.foldl_append, List.foldl_cons, List.foldl_nil] at h
    grind [Maps.registerAdvert]

/-- What an event makes the hub send. -/
theorem sends_step {cause recipient : Conn} {frame : Frame Value}
    (h : .send cause recipient frame ∈ (step options s e).2) :
    Sends options s e cause recipient frame := by
  cases e with
  | frame c f =>
    cases f with
    | relayConnect target source =>
      replace h : _ ∈ (s.maps.relayConnect c target source).2 := h
      rcases relayConnect_cases s.maps c target source with
        heq | ⟨registration, initiator, hget, hne, hinitiator, hdown, heq⟩
      · rw [heq] at h
        cases h
      · simp only [heq, Maps.stateChanged, List.mem_cons, reduceCtorEq, List.not_mem_nil,
          Output.send.injEq, or_false, false_or] at h
        obtain ⟨rfl, rfl, rfl⟩ := h
        split_ifs
        · exact .upstream _ _ _ _
        · exact .relays (.connect hget hne hinitiator hdown)
    | relayInbound source target =>
      replace h : _ ∈ (s.maps.handleUplinkInbound c source target).2 := h
      rcases handleUplinkInbound_cases s.maps c source target with
        heq | ⟨device, registration, rfl, hup, hget, hne, hsource, heq⟩
      · rw [heq] at h
        cases h
      · simp only [heq, Maps.stateChanged, List.mem_cons, reduceCtorEq, List.not_mem_nil,
          Output.send.injEq, or_false, false_or] at h
        obtain ⟨rfl, rfl, rfl⟩ := h
        exact .relays (.inbound hup hget hne hsource)
    | relayData payload toDevice fromDevice =>
      replace h : _ ∈ s.maps.relayData c payload toDevice fromDevice := h
      unfold Maps.relayData at h
      split at h
      next peer sender hpeer hsender =>
        split at h
        next hclaimed =>
          cases List.mem_singleton.1 h
          refine .relays (.data hpeer hsender ?_)
          grind [Option.mem_def]
        next => cases h
      next => cases h
    | data frame => grind [step, State.handleFrame]
    | ping =>
      cases List.mem_singleton.1 h
      exact .pong _
    | gossip peers => cases h
    | pong => cases h
    | other => cases h
  | resume i =>
    rw [step] at h
    split at h
    next => cases h
    next t ht =>
      have hmem := List.mem_of_getElem? ht
      cases t with
      | verifying c requests =>
        rw [State.resume] at h
        split at h
        next => cases h
        next adverts hadverts =>
          rw [State.gossip] at h
          split at h
          · grind [mem_refused]
          · simp only [List.mem_append, List.mem_cons, List.mem_map, Maps.stateChanged,
              reduceCtorEq, and_false, exists_false, or_false] at h
            rcases h with h | h
            · grind [mem_refused]
            · obtain ⟨rfl, rfl⟩ := mem_forward h
              exact .forwards (.inl ⟨i, adverts, ⟨requests, ht, hadverts⟩, rfl⟩) _
      | forwarding c accepted position =>
        obtain ⟨rfl, rfl⟩ := mem_forward h
        exact .forwards (.inr ⟨position, hmem⟩) _
      | catchingUp c =>
        rw [State.resume] at h
        split_ifs at h
        · cases h
        · cases List.mem_singleton.1 h
          exact .catchesUp _
      | attaching c => cases h
      | answering c sender program =>
        cases program with
        | ret reply =>
          cases reply with
          | error reason => simp [State.resume] at h
          | ok reply =>
            obtain ⟨frame, -, heq⟩ := List.mem_map.1 h
            cases heq
            exact .replies _ frame
        | get key rest => cases h
        | set key value rest => cases h
  | forget c =>
    replace h : _ ∈ (s.maps.forgetConnection c).2 := h
    grind [Maps.forgetConnection, notMem_forgetPeers]
  | attachUplink c =>
    rw [step, State.handleUplink] at h
    split_ifs at h
    · cases h
    · dsimp only at h
      split at h
      · cases h
      · cases List.mem_singleton.1 h
        exact .announces _
  | register c => cases h
  | stop => cases h
  | verify advert => cases h
  | resolve computation => cases h
  | settle computation => cases h

/-! ## The cache and the storage -/

/-- Only verifications and computations change the cache. -/
theorem cache_next : (next options s e).cache = match e with
    | .frame _ (.gossip peers) => (verifyAll options s.cache peers).1
    | .verify advert => (verifyPeerAdvert options s.cache advert).1
    | .resolve computation => s.cache.resolve (check options) computation
    | .settle computation => s.cache.settle computation
    | _ => s.cache := by
  have hforward (s : State Conn Value) (c : Conn) (accepted : List (PeerAdvert Value))
      (position : ℕ) : (s.forward c accepted position).1.cache = s.cache := by
    rw [State.forward]
    split <;> rfl
  cases e with
  | frame c f =>
    cases f with
    | data frame =>
      rw [next, step, State.handleFrame]
      split <;> rfl
    | _ => rfl
  | resume i =>
    rw [next, step]
    split
    next => rfl
    next t ht =>
      cases t with
      | verifying c requests =>
        rw [State.resume]
        split
        next => rfl
        next =>
          rw [State.gossip]
          split
          · rfl
          · exact hforward _ _ _ _
      | forwarding c accepted position => exact hforward _ _ _ _
      | catchingUp c => rfl
      | attaching c => rfl
      | answering c sender program => cases program with
        | ret reply => cases reply <;> rfl
        | get key rest => rfl
        | set key value rest => rfl
  | attachUplink c =>
    rw [next, step, State.handleUplink]
    split_ifs
    · rfl
    · dsimp only
      split <;> rfl
  | _ => rfl

/-- The storage is only changed by the mailbox. -/
theorem storage_next (options : RelayHubOptions Value) (s : State Conn Value)
    (e : Event Conn Value) : (next options s e).storage = s.storage ∨
    ∃ i c sender program, e = .resume i ∧ s.tasks[i]? = some (.answering c sender program) ∧
      (next options s e).storage = (program.step s.storage).1 := by
  have hforward (s : State Conn Value) (c : Conn) (accepted : List (PeerAdvert Value))
      (position : ℕ) : (s.forward c accepted position).1.storage = s.storage := by
    rw [State.forward]
    split <;> rfl
  cases e with
  | frame c f =>
    cases f with
    | data frame =>
      rw [next, step, State.handleFrame]
      split <;> exact .inl rfl
    | _ => exact .inl rfl
  | resume i =>
    rw [next, step]
    split
    next => exact .inl rfl
    next t ht =>
      cases t with
      | verifying c requests =>
        rw [State.resume]
        split
        next => exact .inl rfl
        next =>
          rw [State.gossip]
          split
          · exact .inl rfl
          · exact .inl (hforward _ _ _ _)
      | forwarding c accepted position => exact .inl (hforward _ _ _ _)
      | catchingUp c => exact .inl rfl
      | attaching c => exact .inl rfl
      | answering c sender program =>
        refine .inr ⟨i, c, sender, program, rfl, ht, ?_⟩
        cases program with
        | ret reply => cases reply <;> rfl
        | get key rest => rfl
        | set key value rest => rfl
  | attachUplink c =>
    rw [next, step, State.handleUplink]
    split_ifs
    · exact .inl rfl
    · dsimp only
      split <;> exact .inl rfl
  | _ => exact .inl rfl

end WireMesh.TypeScript.RelayHub
