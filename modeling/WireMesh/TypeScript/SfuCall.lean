import WireMesh.Machine
import WireMesh.OrderedMap
import WireMesh.Token

/-!
# The calls of a selective forwarding unit

The orchestration of one call of `sfu-session.ts`: who takes part, the live tracks, and the track
maps that are sent. Offers and removals are handled up to their next await in one step, and what
they wait for ends in any order. The media backend is outside; what it reports are events.
-/

namespace WireMesh.TypeScript

inductive TrackKind
  | audio
  | video
deriving DecidableEq

/-- An entry of a track map. -/
structure SfuTrack where
  mid : String
  member : DeviceId
  kind : TrackKind
deriving DecidableEq

structure BackendTrack where
  mid : String
  kind : TrackKind
deriving DecidableEq

structure ConsumedTrack extends BackendTrack where
  fromParticipantId : String
deriving DecidableEq

structure JoinResult where
  produced : List BackendTrack
  consumed : List ConsumedTrack
deriving DecidableEq

/-- An entry has a session of its own; both have one number. -/
structure ParticipantEntry where
  number : ℕ
  deviceId : DeviceId
deriving DecidableEq

def participantIdFor (deviceId : DeviceId) : String := deviceIdToHex deviceId

def ParticipantEntry.participantId (entry : ParticipantEntry) : String :=
  participantIdFor entry.deviceId

/-- What a handler waits for. -/
inductive SfuHandler
  | authorizing (entry : ParticipantEntry) (negotiationId : ℕ)
  | joining (entry : ParticipantEntry) (negotiationId : ℕ)
  | responding (entry : ParticipantEntry) (negotiationId : ℕ) (result : JoinResult)
  | answering (entry : ParticipantEntry) (negotiationId : ℕ) (result : JoinResult)
  | mapping (entry : ParticipantEntry)
  | leaving (participantId : String)
  | republishing (rest : List String)
deriving DecidableEq

/-- A track map that is sent, to the session of an entry. -/
structure SentTrackMap where
  recipient : ParticipantEntry
  negotiationId : ℕ
  tracks : List SfuTrack
deriving DecidableEq

structure SfuCall where
  participants : OrderedMap String ParticipantEntry
  negotiationIds : OrderedMap ℕ ℕ
  liveTracks : OrderedMap String (List SfuTrack)
  handlers : OrderedMap ℕ SfuHandler
  started : ℕ
  /-- All entries, the newest first. -/
  added : List ParticipantEntry
  /-- The sessions that have ended. -/
  ended : List ℕ
  sent : List SentTrackMap
  /-- What the backend has reported as consumed, and on whose connection. -/
  reports : List (ParticipantEntry × ConsumedTrack)

namespace SfuCall

def new : SfuCall where
  participants := .empty
  negotiationIds := .empty
  liveTracks := .empty
  handlers := .empty
  started := 0
  added := []
  ended := []
  sent := []
  reports := []

def tracksForRecipient (s : SfuCall) (recipientParticipantId : String) : List SfuTrack :=
  (s.liveTracks.entries.filter fun e => e.1 ≠ recipientParticipantId).flatMap Prod.snd

/-- Nothing is sent before there has been an offer. -/
def sendTrackMap (s : SfuCall) (entry : ParticipantEntry) (negotiationId : Option ℕ)
    (tracks : List SfuTrack) : SfuCall :=
  match negotiationId with
  | none => s
  | some negotiationId => { s with sent := s.sent ++ [⟨entry, negotiationId, tracks⟩] }

def republishTo (s : SfuCall) (participantId : String) : SfuCall :=
  match s.participants.get participantId with
  | none => s
  | some entry =>
    s.sendTrackMap entry (s.negotiationIds.get entry.number) (s.tracksForRecipient participantId)

def await (s : SfuCall) (n : ℕ) (handler : SfuHandler) : SfuCall :=
  { s with handlers := s.handlers.set n handler }

def finish (s : SfuCall) (n : ℕ) : SfuCall := { s with handlers := s.handlers.delete n }

def start (s : SfuCall) (handler : SfuHandler) : SfuCall :=
  { s.await s.started handler with started := s.started + 1 }

/-- One participant after the other, each once the one before is done. -/
def eachInOrder (s : SfuCall) (n : ℕ) : List String → SfuCall
  | [] => s.finish n
  | participantId :: rest => (s.republishTo participantId).await n (.republishing rest)

/-- The other participants are told of the one that has joined. -/
def republishOthers (s : SfuCall) (n : ℕ) (entry : ParticipantEntry) : SfuCall :=
  s.await n (.republishing ((s.participants.values.map ParticipantEntry.participantId).filter
    (· ≠ entry.participantId)))

/-- Whose media a consumed track is: that of the participant, or of the joiner without one. -/
def consumedEntry (s : SfuCall) (entry : ParticipantEntry) (track : ConsumedTrack) : SfuTrack where
  mid := track.mid
  member := ((s.participants.values.find? (·.participantId = track.fromParticipantId)).map
    ParticipantEntry.deviceId).getD entry.deviceId
  kind := track.kind

inductive Event
  | addParticipant (deviceId : DeviceId)
  /-- The session of an entry ends. -/
  | sessionEnd (number : ℕ)
  | offer (entry : ParticipantEntry) (negotiationId : ℕ)
  | authorized (handler : ℕ) (ok : Bool)
  | joined (handler : ℕ) (result : JoinResult)
  | advance (handler : ℕ)
  | removeParticipant (deviceId : DeviceId)
  | left (handler : ℕ) (affected : List String)
  /-- What a handler waits for is rejected. -/
  | fail (handler : ℕ)

/-- A handler goes on after one of its sends. -/
def advance (s : SfuCall) (n : ℕ) : SfuHandler → SfuCall
  | .responding entry negotiationId result => s.await n (.answering entry negotiationId result)
  | .answering entry negotiationId result =>
    if result.consumed ≠ [] then
      let tracks := result.consumed.map (s.consumedEntry entry)
      (s.sendTrackMap entry (some negotiationId) tracks).await n (.mapping entry)
    else s.republishOthers n entry
  | .mapping entry => s.republishOthers n entry
  | .republishing rest => s.eachInOrder n rest
  | _ => s

def next (s : SfuCall) : Event → SfuCall
  | .addParticipant deviceId =>
    let entry : ParticipantEntry := ⟨s.added.length, deviceId⟩
    { s with
      participants := s.participants.set entry.participantId entry
      added := entry :: s.added }
  | .sessionEnd number => { s with ended := number :: s.ended }
  | .offer entry negotiationId =>
    if entry ∈ s.added then s.start (.authorizing entry negotiationId) else s
  | .authorized n ok =>
    match s.handlers.get n with
    | some (.authorizing entry negotiationId) =>
      if ok then
        { s.await n (.joining entry negotiationId) with
          negotiationIds := s.negotiationIds.set entry.number negotiationId }
      else s.finish n
    | _ => s
  | .joined n result =>
    match s.handlers.get n with
    | some (.joining entry negotiationId) =>
      { s.await n (.responding entry negotiationId result) with
        liveTracks := s.liveTracks.set entry.participantId
          (result.produced.map fun track => ⟨track.mid, entry.deviceId, track.kind⟩)
        reports := s.reports ++ result.consumed.map fun track => (entry, track) }
    | _ => s
  | .advance n =>
    match s.handlers.get n with
    | some handler => s.advance n handler
    | none => s
  | .removeParticipant deviceId =>
    let participantId := participantIdFor deviceId
    match s.participants.get participantId with
    | none => s
    | some _ =>
      { s.start (.leaving participantId) with
        participants := s.participants.delete participantId
        liveTracks := s.liveTracks.delete participantId }
  | .left n affected =>
    match s.handlers.get n with
    | some (.leaving _) => s.await n (.republishing affected)
    | _ => s
  | .fail n => s.finish n

/-- The newest entry of a device. -/
def newest (s : SfuCall) (deviceId : DeviceId) : Option ParticipantEntry :=
  s.added.find? (·.deviceId = deviceId)

end SfuCall

end WireMesh.TypeScript
