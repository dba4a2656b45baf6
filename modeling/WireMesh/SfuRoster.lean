import WireMesh.TypeScript.SfuCall

/-!
# Who takes part in a call, and what the others are told

The live tracks are those of participants, and a device whose newest session is connected takes
part, as long as a participant is removed only when it is gone: after its newest session has ended,
and not while one of its offers is handled. Nothing in the code sees to that.

A track map that answers an offer lists what the backend has reported for the connection. The maps
that are sent later list the identifiers of the senders' connections instead.

* `roster_has_no_ghosts`, `track_maps_attributed`: what holds under these conditions.
* `roster_ghost`, `track_map_of_other_connection`: what happens without.
-/

namespace WireMesh.TypeScript

/-- The entry whose tracks a handler will set. -/
def SfuHandler.offering : SfuHandler → Option ParticipantEntry
  | .authorizing entry _ => some entry
  | .joining entry _ => some entry
  | _ => none

/-- The join result that a handler still has to report. -/
def SfuHandler.joinResult : SfuHandler → Option (ParticipantEntry × JoinResult)
  | .responding entry _ result => some (entry, result)
  | .answering entry _ result => some (entry, result)
  | _ => none

namespace SfuCall

/-! ## The roster -/

/-- Offers are taken up from participants, and a device is removed when it is gone. -/
def Orderly (s : SfuCall) : Event → Prop
  | .offer entry _ => ∃ current, s.participants.get entry.participantId = some current
  | .removeParticipant deviceId =>
    (∀ entry ∈ s.newest deviceId, entry.number ∈ s.ended) ∧
    ∀ n handler entry, s.handlers.get n = some handler → handler.offering = some entry →
      entry.participantId ≠ participantIdFor deviceId
  | _ => True

@[grind cases]
structure Roster (s : SfuCall) : Prop where
  live : ∀ key tracks, s.liveTracks.get key = some tracks →
    ∃ entry, s.participants.get key = some entry
  offering : ∀ n handler entry, s.handlers.get n = some handler →
    handler.offering = some entry →
      ∃ current, s.participants.get entry.participantId = some current
  present : ∀ deviceId entry, s.newest deviceId = some entry → entry.number ∉ s.ended →
    s.participants.get (participantIdFor deviceId) = some entry

variable {s : SfuCall}

theorem roster_new : Roster new := by
  refine ⟨fun _ _ h => ?_, fun _ _ _ h => ?_, fun _ _ h => ?_⟩
  · cases h
  · cases h
  · cases h

/-- The parts that the roster is about. -/
def roster (s : SfuCall) :=
  (s.participants, s.liveTracks, s.added, s.ended)

/-- A handler gets further, or ends, and nothing else changes. -/
theorem Roster.of_handlers (h : Roster s) {s' : SfuCall} (hsame : s'.roster = s.roster)
    (hhandlers : ∀ n handler entry, s'.handlers.get n = some handler →
      handler.offering = some entry →
        ∃ m handler', s.handlers.get m = some handler' ∧
          handler'.offering = some entry) :
    Roster s' := by
  simp only [roster, Prod.mk.injEq] at hsame
  obtain ⟨hparticipants, hlive, hadded, hended⟩ := hsame
  refine ⟨?_, fun n handler entry hget hoffering => ?_, ?_⟩
  · rw [hparticipants, hlive]
    exact h.live
  · obtain ⟨m, handler', hget', hoffering'⟩ := hhandlers n handler entry hget hoffering
    rw [hparticipants]
    exact h.offering m handler' entry hget' hoffering'
  · simp only [newest, hparticipants, hended, hadded]
    exact h.present

theorem Roster.await (h : Roster s) (n : ℕ) {handler : SfuHandler}
    (hoffering : handler.offering = none) : Roster (s.await n handler) := by
  refine h.of_handlers rfl fun m handler' entry hget hentry => ?_
  grind [SfuCall.await, OrderedMap.get_set]

theorem Roster.finish (h : Roster s) (n : ℕ) : Roster (s.finish n) := by
  refine h.of_handlers rfl fun m handler' entry hget hentry => ?_
  grind [SfuCall.finish, OrderedMap.get_delete_eq_some]

theorem Roster.sendTrackMap (h : Roster s) (entry : ParticipantEntry) (negotiationId : Option ℕ)
    (tracks : List SfuTrack) : Roster (s.sendTrackMap entry negotiationId tracks) := by
  cases negotiationId with
  | none => exact h
  | some negotiationId => exact ⟨h.live, h.offering, h.present⟩

theorem Roster.advance (h : Roster s) (n : ℕ) (handler : SfuHandler) :
    Roster (s.advance n handler) := by
  cases handler with
  | authorizing | joining | leaving => exact h
  | responding entry negotiationId result => exact h.await n rfl
  | answering entry negotiationId result =>
    rw [SfuCall.advance]
    split_ifs
    · exact (h.sendTrackMap ..).await n rfl
    · exact h.await n rfl
  | mapping entry => exact h.await n rfl
  | republishing rest =>
    cases rest with
    | nil => exact h.finish n
    | cons participantId rest =>
      refine Roster.await ?_ n rfl
      rw [republishTo]
      split
      · exact h
      · exact h.sendTrackMap ..

theorem participantIdFor_inj {a b : DeviceId} : participantIdFor a = participantIdFor b ↔ a = b :=
  deviceIdToHex_inj

theorem Roster.addParticipant (h : Roster s) (deviceId : DeviceId) :
    Roster (s.next (.addParticipant deviceId)) := by
  refine ⟨fun key tracks hget => ?_, fun n handler entry hget hoffering => ?_,
    fun device entry hnewest hconnected => ?_⟩
  · obtain ⟨entry, hentry⟩ := h.live key tracks hget
    grind [SfuCall.next, OrderedMap.get_set]
  · obtain ⟨current, hcurrent⟩ := h.offering n handler entry hget hoffering
    grind [SfuCall.next, OrderedMap.get_set]
  · have hold := h.present device
    rw [newest] at hold hnewest
    simp only [SfuCall.next, List.find?_cons] at hnewest hconnected ⊢
    rw [OrderedMap.get_set, ParticipantEntry.participantId]
    by_cases hdevice : device = deviceId
    · subst hdevice
      simpa using hnewest
    · rw [if_neg (mt participantIdFor_inj.1 hdevice)]
      rw [decide_eq_false (fun heq => hdevice heq.symm)] at hnewest
      exact hold entry hnewest hconnected

theorem Roster.removeParticipant (h : Roster s) {deviceId : DeviceId}
    (horderly : Orderly s (.removeParticipant deviceId)) :
    Roster (s.next (.removeParticipant deviceId)) := by
  obtain ⟨hgone, hoffers⟩ := horderly
  rw [SfuCall.next]
  split
  · exact h
  refine ⟨fun key tracks hget => ?_, fun n handler entry hget hoffering => ?_,
    fun device entry hnewest hconnected => ?_⟩
  · obtain ⟨hget, hne⟩ := OrderedMap.get_delete_eq_some.1 hget
    obtain ⟨entry, hentry⟩ := h.live key tracks hget
    exact ⟨entry, OrderedMap.get_delete_eq_some.2 ⟨hentry, hne⟩⟩
  · simp only [start, SfuCall.await, OrderedMap.get_set] at hget
    split_ifs at hget with hn
    · cases hget
      cases hoffering
    · obtain ⟨current, hcurrent⟩ := h.offering n handler entry hget hoffering
      exact ⟨current, OrderedMap.get_delete_eq_some.2
        ⟨hcurrent, hoffers n handler entry hget hoffering⟩⟩
  · refine OrderedMap.get_delete_eq_some.2
      ⟨h.present device entry hnewest hconnected, fun heq => ?_⟩
    obtain rfl := participantIdFor_inj.1 heq
    exact hconnected (hgone entry hnewest)

theorem Roster.next (h : Roster s) {e : Event} (horderly : Orderly s e) : Roster (s.next e) := by
  cases e with
  | addParticipant deviceId => exact h.addParticipant deviceId
  | sessionEnd number =>
    exact ⟨h.live, h.offering, fun device entry hnewest hconnected =>
      h.present device entry hnewest fun hmem => hconnected (List.mem_cons_of_mem _ hmem)⟩
  | offer entry negotiationId =>
    rw [SfuCall.next]
    split_ifs
    · refine ⟨h.live, fun n handler entry' hget hoffering => ?_, h.present⟩
      simp only [start, SfuCall.await, OrderedMap.get_set] at hget
      split_ifs at hget with hn
      · cases hget
        cases hoffering
        exact horderly
      · exact h.offering n handler entry' hget hoffering
    · exact h
  | authorized n ok =>
    rw [SfuCall.next]
    split
    · next entry negotiationId hget =>
      split_ifs
      · refine h.of_handlers rfl fun m handler' entry' hget' hentry => ?_
        simp only [SfuCall.await, OrderedMap.get_set] at hget'
        split_ifs at hget' with hm
        · cases hget'
          exact ⟨n, _, hget, hentry⟩
        · exact ⟨m, handler', hget', hentry⟩
      · exact h.finish n
    · exact h
  | joined n result =>
    rw [SfuCall.next]
    split
    · next entry negotiationId hget =>
      have hcurrent := h.offering n _ entry hget rfl
      have hoffering : SfuHandler.offering (.responding entry negotiationId result) = none := rfl
      have hawait := h.await n hoffering
      refine ⟨fun key tracks hlive => ?_, hawait.offering, h.present⟩
      simp only [OrderedMap.get_set] at hlive
      split_ifs at hlive with hkey
      · rw [hkey]
        exact hcurrent
      · exact h.live key tracks hlive
    · exact h
  | advance n =>
    rw [SfuCall.next]
    split
    · exact h.advance n _
    · exact h
  | removeParticipant deviceId => exact h.removeParticipant horderly
  | left n affected =>
    rw [SfuCall.next]
    split
    · exact h.await n rfl
    · exact h
  | fail n => exact h.finish n

/-! ## Track maps -/

/-- Every track of the map was reported by the backend as consumed on the recipient's connection,
    and as the media of the member that is named. -/
def Attributed (reports : List (ParticipantEntry × ConsumedTrack)) (map : SentTrackMap) : Prop :=
  ∀ track ∈ map.tracks, ∃ consumed, (map.recipient, consumed) ∈ reports ∧
    consumed.mid = track.mid ∧ consumed.kind = track.kind ∧
    consumed.fromParticipantId = participantIdFor track.member

/-- The reported source of every consumed track takes part when it is looked up, and nobody else has
    a live track when a map is sent again. -/
def Direct (s : SfuCall) : Event → Prop
  | .advance n => ∀ handler, s.handlers.get n = some handler → match handler with
    | .answering _ _ result => ∀ track ∈ result.consumed,
      ∃ owner ∈ s.participants.values, owner.participantId = track.fromParticipantId
    | .republishing (participantId :: _) => s.tracksForRecipient participantId = []
    | _ => True
  | _ => True

@[grind cases]
structure Told (s : SfuCall) : Prop where
  sent : ∀ map ∈ s.sent, Attributed s.reports map
  reported : ∀ n handler entry result, s.handlers.get n = some handler →
    handler.joinResult = some (entry, result) →
      ∀ track ∈ result.consumed, (entry, track) ∈ s.reports

theorem told_new : Told new := by
  refine ⟨fun _ h => ?_, fun _ _ _ _ h => ?_⟩
  · cases h
  · cases h

/-- A handler goes on with nothing to report but what is reported. -/
theorem Told.of_handlers (h : Told s) {s' : SfuCall} (hsent : s'.sent = s.sent)
    (hreports : s'.reports = s.reports)
    (hhandlers : ∀ n handler entry result, s'.handlers.get n = some handler →
      handler.joinResult = some (entry, result) →
        ∃ m handler', s.handlers.get m = some handler' ∧
          handler'.joinResult = some (entry, result)) : Told s' := by
  refine ⟨by rw [hsent, hreports]; exact h.sent, fun n handler entry result hget hresult => ?_⟩
  obtain ⟨m, handler', hget', hresult'⟩ := hhandlers n handler entry result hget hresult
  rw [hreports]
  exact h.reported m handler' entry result hget' hresult'

theorem Told.await (h : Told s) (n : ℕ) {handler : SfuHandler}
    (hresult : handler.joinResult = none) : Told (s.await n handler) := by
  refine h.of_handlers rfl rfl fun m handler' entry result hget hentry => ?_
  grind [SfuCall.await, OrderedMap.get_set]

theorem Told.finish (h : Told s) (n : ℕ) : Told (s.finish n) := by
  refine h.of_handlers rfl rfl fun m handler' entry result hget hentry => ?_
  grind [SfuCall.finish, OrderedMap.get_delete_eq_some]

theorem Told.sendTrackMap (h : Told s) {entry : ParticipantEntry} {tracks : List SfuTrack}
    (htracks : ∀ negotiationId, Attributed s.reports ⟨entry, negotiationId, tracks⟩)
    (negotiationId : Option ℕ) : Told (s.sendTrackMap entry negotiationId tracks) := by
  cases negotiationId with
  | none => exact h
  | some negotiationId =>
    refine ⟨fun map hmap => ?_, h.reported⟩
    rcases List.mem_append.1 hmap with hmap | hmap
    · exact h.sent map hmap
    · obtain rfl := List.mem_singleton.1 hmap
      exact htracks negotiationId

/-- What is consumed is attributed to the participant that it comes from. -/
theorem participantIdFor_consumedEntry {entry : ParticipantEntry} {track : ConsumedTrack}
    (h : ∃ owner ∈ s.participants.values, owner.participantId = track.fromParticipantId) :
    participantIdFor (s.consumedEntry entry track).member = track.fromParticipantId := by
  obtain ⟨owner, howner, hid⟩ := h
  rw [consumedEntry]
  cases hfind : s.participants.values.find? (·.participantId = track.fromParticipantId) with
  | none => exact absurd (List.find?_eq_none.1 hfind owner howner) (by simp [hid])
  | some found =>
    have hfound := List.find?_some hfind
    exact of_decide_eq_true hfound

theorem Told.advance (h : Told s) {n : ℕ} {handler : SfuHandler}
    (hget : s.handlers.get n = some handler) (hdirect : Direct s (.advance n)) :
    Told (s.advance n handler) := by
  have hdirect := hdirect handler hget
  cases handler with
  | authorizing | joining | leaving => exact h
  | responding entry negotiationId result =>
    refine h.of_handlers rfl rfl fun m handler' entry' result' hget' hresult => ?_
    simp only [SfuCall.advance, SfuCall.await, OrderedMap.get_set] at hget'
    split_ifs at hget' with hm
    · cases hget'
      exact ⟨n, _, hget, hresult⟩
    · exact ⟨m, handler', hget', hresult⟩
  | answering entry negotiationId result =>
    rw [SfuCall.advance]
    split_ifs
    · refine (h.sendTrackMap (fun _ track htrack => ?_) _).await n rfl
      obtain ⟨consumed, hconsumed, rfl⟩ := List.mem_map.1 htrack
      exact ⟨consumed, h.reported n _ entry result hget rfl consumed hconsumed, rfl, rfl,
        (participantIdFor_consumedEntry (hdirect consumed hconsumed)).symm⟩
    · exact h.await n rfl
  | mapping entry => exact h.await n rfl
  | republishing rest =>
    cases rest with
    | nil => exact h.finish n
    | cons participantId rest =>
      refine Told.await ?_ n rfl
      rw [republishTo, show s.tracksForRecipient participantId = [] from hdirect]
      split
      · exact h
      · exact h.sendTrackMap (fun _ track htrack => absurd htrack List.not_mem_nil) _

theorem Told.next (h : Told s) {e : Event} (hdirect : Direct s e) : Told (s.next e) := by
  cases e with
  | addParticipant deviceId => exact ⟨h.sent, h.reported⟩
  | sessionEnd number => exact ⟨h.sent, h.reported⟩
  | offer entry negotiationId =>
    rw [SfuCall.next]
    split_ifs
    · have hawait := h.await s.started
        (show SfuHandler.joinResult (.authorizing entry negotiationId) = none from rfl)
      exact ⟨hawait.sent, hawait.reported⟩
    · exact h
  | authorized n ok =>
    rw [SfuCall.next]
    split
    · next entry negotiationId hget =>
      split_ifs
      · have hawait := h.await n
          (show SfuHandler.joinResult (.joining entry negotiationId) = none from rfl)
        exact ⟨hawait.sent, hawait.reported⟩
      · exact h.finish n
    · exact h
  | joined n result =>
    rw [SfuCall.next]
    split
    · next entry negotiationId hget =>
      refine ⟨fun map hmap track htrack => ?_, fun m handler entry' result' hm hresult => ?_⟩
      · obtain ⟨consumed, hconsumed, hrest⟩ := h.sent map hmap track htrack
        exact ⟨consumed, List.mem_append_left _ hconsumed, hrest⟩
      · simp only [SfuCall.await, OrderedMap.get_set] at hm
        intro track htrack
        split_ifs at hm with heq
        · cases hm
          cases hresult
          exact List.mem_append_right _ (List.mem_map_of_mem htrack)
        · exact List.mem_append_left _ (h.reported m handler entry' result' hm hresult track htrack)
    · exact h
  | advance n =>
    rw [SfuCall.next]
    split
    · next handler hget => exact h.advance hget hdirect
    · exact h
  | removeParticipant deviceId =>
    rw [SfuCall.next]
    split
    · exact h
    · have hawait := h.await s.started
        (show SfuHandler.joinResult (.leaving (participantIdFor deviceId)) = none from rfl)
      exact ⟨hawait.sent, hawait.reported⟩
  | left n affected =>
    rw [SfuCall.next]
    split
    · exact h.await n rfl
    · exact h
  | fail n => exact h.finish n

end SfuCall

open SfuCall

/-- If a device is removed only when it is gone, every live track is one of a participant, and a
    device whose newest session is connected takes part with that session. -/
theorem roster_has_no_ghosts {events : List Event}
    (h : Machine.Along SfuCall.next Orderly .new events) :
    let s := Machine.run SfuCall.next .new events
    (∀ key ∈ s.liveTracks.keys, key ∈ s.participants.keys) ∧
      ∀ deviceId entry, s.newest deviceId = some entry → entry.number ∉ s.ended →
        s.participants.get (participantIdFor deviceId) = some entry := by
  intro s
  have hroster : Roster s := Machine.run_along roster_new (fun _ _ hs he => hs.next he) h
  refine ⟨fun key hkey => ?_, hroster.present⟩
  obtain ⟨tracks, htracks⟩ := OrderedMap.mem_keys_iff.1 hkey
  exact OrderedMap.mem_keys_iff.2 (hroster.live key tracks htracks)

namespace Sample

def firstDevice : DeviceId := ⟨List.replicate 32 1, rfl⟩
def secondDevice : DeviceId := ⟨List.replicate 32 2, rfl⟩
def firstEntry : ParticipantEntry := ⟨0, firstDevice⟩
def secondEntry : ParticipantEntry := ⟨1, secondDevice⟩

/-- A device joins with a track of its own. -/
def joins : List Event :=
  [.addParticipant firstDevice, .offer firstEntry 7, .authorized 0 true,
    .joined 0 ⟨[⟨"0", .audio⟩], []⟩]

/-- Another one joins and gets the track of the first. -/
def joinsSecond : List Event :=
  [.addParticipant firstDevice, .addParticipant secondDevice, .offer secondEntry 8,
    .authorized 0 true, .joined 0 ⟨[], [⟨⟨"1", .audio⟩, participantIdFor firstDevice⟩]⟩,
    .advance 0, .advance 0]

end Sample

theorem roster_has_no_ghosts_sample :
    participantIdFor Sample.firstDevice ∈
        (Machine.run SfuCall.next .new Sample.joins).participants.keys ∧
      (Machine.run SfuCall.next .new Sample.joins).participants.get
        (participantIdFor Sample.firstDevice) = some Sample.firstEntry := by
  have horderly : Machine.Along SfuCall.next Orderly .new Sample.joins := by
    simp only [Sample.joins, Machine.along_cons]
    exact ⟨trivial, ⟨Sample.firstEntry, by decide +kernel⟩, trivial, trivial, Machine.along_nil⟩
  obtain ⟨hlive, hpresent⟩ := roster_has_no_ghosts horderly
  exact ⟨hlive _ (by decide +kernel), hpresent _ _ (by decide +kernel) (by decide +kernel)⟩

/-- The tracks of a participant that is removed while its offer is handled stay; and the removal of
    the old session of a device that has reconnected removes the new one. -/
theorem roster_ghost :
    let removed := Machine.run SfuCall.next .new
      [.addParticipant Sample.firstDevice, .offer Sample.firstEntry 7, .authorized 0 true,
        .sessionEnd 0, .removeParticipant Sample.firstDevice, .left 1 [], .advance 1,
        .joined 0 ⟨[⟨"0", .audio⟩], []⟩, .advance 0, .advance 0, .advance 0]
    let reconnected := Machine.run SfuCall.next .new
      [.addParticipant Sample.firstDevice, .addParticipant Sample.firstDevice, .sessionEnd 0,
        .removeParticipant Sample.firstDevice, .left 0 [], .advance 0]
    (removed.handlers.keys = [] ∧ removed.participants.keys = [] ∧
      removed.liveTracks.keys = [participantIdFor Sample.firstDevice]) ∧
    (reconnected.handlers.keys = [] ∧ reconnected.participants.keys = [] ∧
      reconnected.newest Sample.firstDevice = some ⟨1, Sample.firstDevice⟩ ∧
      1 ∉ reconnected.ended) := by
  decide +kernel

/-- Every map lists only what was reported for the recipient's connection, if the sources of the
    tracks take part and nothing is listed when a map is sent again. -/
theorem track_maps_attributed {events : List Event}
    (h : Machine.Along SfuCall.next Direct .new events) :
    let s := Machine.run SfuCall.next .new events
    ∀ map ∈ s.sent, Attributed s.reports map :=
  (Machine.run_along told_new (fun _ _ hs he => Told.next hs he) h).sent

theorem track_maps_attributed_sample :
    Attributed (Machine.run SfuCall.next .new Sample.joinsSecond).reports
      ⟨Sample.secondEntry, 8, [⟨"1", Sample.firstDevice, .audio⟩]⟩ := by
  refine track_maps_attributed (?_ : Machine.Along SfuCall.next Direct .new Sample.joinsSecond) _
    (by decide +kernel)
  simp only [Sample.joinsSecond, Machine.along_cons]
  refine ⟨trivial, trivial, trivial, trivial, trivial, fun handler hget => ?_,
    fun handler hget => ?_, Machine.along_nil⟩
  · cases (show some (SfuHandler.responding Sample.secondEntry 8 _) = some handler from hget)
    trivial
  · cases (show some (SfuHandler.answering Sample.secondEntry 8 _) = some handler from hget)
    exact fun track htrack => ⟨Sample.firstEntry, by decide +kernel, by
      obtain rfl := List.mem_singleton.1 htrack
      rfl⟩

/-- When the second device joins, the first one is sent the identifier of the track on the second
    device's connection. Nothing was reported as consumed on its own. -/
theorem track_map_of_other_connection :
    let s := Machine.run SfuCall.next .new (Sample.joins ++ [.advance 0, .advance 0, .advance 0,
      .addParticipant Sample.secondDevice, .offer Sample.secondEntry 8, .authorized 1 true,
      .joined 1 ⟨[⟨"0", .audio⟩], []⟩, .advance 1, .advance 1, .advance 1])
    s.sent = [⟨Sample.firstEntry, 7, [⟨"0", Sample.secondDevice, .audio⟩]⟩] ∧ s.reports = [] := by
  decide +kernel

end WireMesh.TypeScript
