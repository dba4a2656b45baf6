import WireMesh.OrderedMap
import WireMesh.Token

/-!
# Sessions

A session keeps a connection to a peer, perhaps a hub, and sends requests over it to the peer or,
through a relay, to other devices (`mesh-session.ts`). It may connect again after a connection is
lost. Each connection that it wires up has a loop that takes its frames one after the other, and
each request is a call that waits for its response. They take turns wherever one of them awaits
something, and what they wait for is their stage.

What concerns neither requests nor the ends of connections is left out: gossip, pings, topology and
data. The pairings and the secure channels with devices behind a relay are not kept here either. A
request that is relayed waits for its pairing and for its transmission, which may fail, and a
response that is relayed has been opened under the channel of some device.

* `Requests`: the calls, and those among them that wait for a response.
* `State`: a session, with the loops of its connections.
-/

namespace WireMesh.TypeScript.MeshSession

/-! ## Requests -/

inductive Result (O : Type)
  | resolved (outcome : O)
  | timedOut
  | rejected (reason : String)
deriving DecidableEq

/-- A call of `sendManageRequest`. -/
structure Call (O : Type) where
  /-- The device that the request is relayed to, if it is not sent directly. -/
  target : Option DeviceId
  hasTimeout : Bool
  /-- The connection that the session had. -/
  link : Option ℕ
  requestId : Option ℕ := none
  /-- How the promise for the response has been settled. -/
  answer : Option (Except String O) := none
  /-- How the transmission has ended. -/
  sent : Option (Except String Unit) := none
  result : Option (Result O) := none

structure PendingManageRequest where
  call : ℕ
  expectedFrom : Option DeviceId
deriving DecidableEq

structure Requests (O : Type) where
  nextRequestId : ℕ
  pending : OrderedMap ℕ PendingManageRequest
  calls : List (Call O)

section Requests

variable {O : Type}

/-- The response is awaited once the request has been sent. -/
def Call.exchange (x : Call O) : Option (Result O) :=
  match x.sent, x.answer with
  | none, _ => none
  | some (.error reason), _ => some (.rejected reason)
  | some (.ok ()), none => none
  | some (.ok ()), some (.ok outcome) => some (.resolved outcome)
  | some (.ok ()), some (.error reason) => some (.rejected reason)

def Call.settle (x : Call O) : Call O := { x with result := x.result <|> x.exchange }

/-- A promise is settled once. -/
def Call.setAnswer (answer : Except String O) (x : Call O) : Call O :=
  { x with answer := x.answer <|> some answer }.settle

def Call.setSent (sent : Except String Unit) (x : Call O) : Call O :=
  { x with sent := some sent }.settle

def Call.setResult (result : Result O) (x : Call O) : Call O := { x with result := some result }

namespace Requests

def empty : Requests O where
  nextRequestId := 0
  pending := .empty
  calls := []

/-- The request gets its number, and waits for a response from where it is sent. -/
def register (r : Requests O) (call : ℕ) (target : Option DeviceId) : Requests O where
  nextRequestId := r.nextRequestId + 1
  pending := r.pending.set r.nextRequestId { call, expectedFrom := target }
  calls := r.calls.modify call fun x => { x with requestId := some r.nextRequestId }

def sendManageRequest (r : Requests O) (target : Option DeviceId) (hasTimeout : Bool)
    (link : Option ℕ) (connected : Bool) : Requests O :=
  let called := { r with calls := r.calls ++ [{ target, hasTimeout, link }] }
  if connected = false then
    { r with
      calls := r.calls ++
        [{ target, hasTimeout, link, result := some (.rejected "not connected") }] }
  else
    match target with
    | none => called.register r.calls.length none
    -- The pairing with the device comes first.
    | some _ => called

/-- `ensureRelayPairing` has ended. -/
def paired (r : Requests O) (call : ℕ) (result : Except String Unit) : Requests O :=
  match r.calls[call]? with
  | some ⟨some device, _, _, none, _, _, none⟩ =>
    match result with
    | .error reason => { r with calls := r.calls.modify call (Call.setResult (.rejected reason)) }
    | .ok () => r.register call (some device)
  | _ => r

/-- `transmit` has ended. -/
def transmitted (r : Requests O) (call : ℕ) (result : Except String Unit) : Requests O :=
  match r.calls[call]? with
  | some ⟨_, _, _, some requestId, _, none, _⟩ =>
    match result with
    | .error reason => { r with
        pending := r.pending.delete requestId
        calls := r.calls.modify call (Call.setSent (.error reason)) }
    | .ok () => { r with calls := r.calls.modify call (Call.setSent (.ok ())) }
  | _ => r

/-- The timer of a call fires. -/
def timeout (r : Requests O) (call : ℕ) : Requests O :=
  match r.calls[call]? with
  | some ⟨_, true, _, some requestId, _, _, none⟩ =>
    match r.pending.get requestId with
    | none => r
    | some _ => { r with
        pending := r.pending.delete requestId
        calls := r.calls.modify call (Call.setResult .timedOut) }
  | _ => r

def applyManageResponse (r : Requests O) (requestId : ℕ) (outcome : O)
    (sender : Option DeviceId) : Requests O :=
  match r.pending.get requestId with
  | none => r
  | some pending =>
    if pending.expectedFrom = sender then { r with
      pending := r.pending.delete requestId
      calls := r.calls.modify pending.call (Call.setAnswer (.ok outcome)) }
    else r

def rejectPendingManageRequests (r : Requests O) (reason : String) : Requests O where
  nextRequestId := r.nextRequestId
  pending := .empty
  calls := r.pending.values.foldl
    (fun calls pending => calls.modify pending.call (Call.setAnswer (.error reason))) r.calls

/-- What a session does with its requests. -/
inductive Op (O : Type)
  | sendManageRequest (target : Option DeviceId) (hasTimeout : Bool) (link : Option ℕ)
      (connected : Bool)
  | paired (call : ℕ) (result : Except String Unit)
  | transmitted (call : ℕ) (result : Except String Unit)
  | timeout (call : ℕ)
  | applyManageResponse (requestId : ℕ) (outcome : O) (sender : Option DeviceId)
  | rejectPendingManageRequests (reason : String)

def perform (r : Requests O) : Op O → Requests O
  | .sendManageRequest target hasTimeout link connected =>
    r.sendManageRequest target hasTimeout link connected
  | .paired call result => r.paired call result
  | .transmitted call result => r.transmitted call result
  | .timeout call => r.timeout call
  | .applyManageResponse requestId outcome sender => r.applyManageResponse requestId outcome sender
  | .rejectPendingManageRequests reason => r.rejectPendingManageRequests reason

end Requests

end Requests

/-! ## Sessions -/

inductive Status
  | idle
  | connecting
  | connected
  | reconnecting
  | closed
deriving DecidableEq

/-- How the loop of a connection has ended. -/
inductive Ending
  /-- The frame stream has ended. -/
  | streamEnded
  /-- A frame has come after the session was closed. -/
  | cancelled
  /-- An exception has ended the loop, or the frame stream. -/
  | threw
  /-- The handshake could not be sent, and the loop has not begun. -/
  | unwired
deriving DecidableEq

/-- What the loop of a connection awaits. -/
inductive Stage
  /-- The handshake and the advert are being sent. -/
  | wiring
  /-- A frame, from `receive()`. -/
  | receiving
  /-- `applyFrame`, perhaps of relayed data that have not been opened yet. -/
  | applying (relayed : Bool)
  /-- The `onFrame` hook. -/
  | hooking
  | done (ending : Ending)
deriving DecidableEq

/-- The loop has begun, and goes on. -/
def Stage.consuming : Stage → Bool
  | .receiving | .applying _ | .hooking => true
  | .wiring | .done _ => false

/-- A connection that has been wired up, and the loop that takes its frames. -/
structure Loop where
  stage : Stage
  /-- The connection whose frames are taken. -/
  source : ℕ
  /-- Whether the session has dialled, or has been given the connection. -/
  dialled : Bool
  heardFromPeer : Bool := false
deriving DecidableEq

/-- A frame, as far as requests are concerned. -/
inductive Frame (O : Type)
  | manageResponse (requestId : ℕ) (outcome : O)
  | relayData
  | other
deriving DecidableEq

structure State (O : Type) where
  connection : Option ℕ
  status : Status
  feedCancelled : Bool
  attempt : ℕ
  /-- The timers that have been set, and the one that can still be cleared. -/
  nextTimer : ℕ
  timers : List ℕ
  reconnectTimer : Option ℕ
  /-- How many dials are under way. -/
  dials : ℕ
  /-- The connections that have been wired up, in their order. -/
  loops : List Loop
  /-- The calls of `onSessionEnd`. -/
  sessionEnds : List ℕ
  requests : Requests O

inductive Event (O : Type)
  | accept
  | connect
  | dialled
  | dialFailed
  /-- A timer fires, and the session dials again. -/
  | redial (timer : ℕ)
  /-- The handshake and the advert have been sent, or could not be sent. -/
  | wired (link : ℕ) (result : Except String Unit)
  | received (link : ℕ) (frame : Frame O)
  /-- Relayed data are opened under the channel of a device, and hold a response. -/
  | opened (link : ℕ) (sender : DeviceId) (requestId : ℕ) (outcome : O)
  | applied (link : ℕ)
  | hooked (link : ℕ)
  | streamEnded (link : ℕ)
  /-- What the loop awaits rejects: `receive()`, `applyFrame` or `onFrame`. -/
  | threw (link : ℕ)
  | request (target : Option DeviceId) (hasTimeout : Bool)
  | paired (call : ℕ) (result : Except String Unit)
  | transmitted (call : ℕ) (result : Except String Unit)
  | timeout (call : ℕ)
  | close
  /-- The connection has been closed by this side. -/
  | closed

namespace State

variable {O : Type}

def init : State O where
  connection := none
  status := .idle
  feedCancelled := false
  attempt := 0
  nextTimer := 0
  timers := []
  reconnectTimer := none
  dials := 0
  loops := []
  sessionEnds := []
  requests := .empty

def perform (s : State O) (op : Requests.Op O) : State O :=
  { s with requests := s.requests.perform op }

def stage (s : State O) (link : ℕ) : Option Stage := s.loops[link]?.map Loop.stage

def setStage (s : State O) (link : ℕ) (stage : Stage) : State O :=
  { s with loops := s.loops.modify link fun loop => { loop with stage } }

/-- The policy is how often to dial again, if at all. -/
def handleDisconnect (reconnect : Option ℕ) (s : State O) : State O :=
  if s.feedCancelled = true then s
  else
    let rejected :=
      s.perform (.rejectPendingManageRequests "disconnected before a response arrived")
    if s.attempt < reconnect.getD 0 then { rejected with
      attempt := s.attempt + 1
      status := .reconnecting
      nextTimer := s.nextTimer + 1
      timers := s.timers ++ [s.nextTimer]
      reconnectTimer := some s.nextTimer }
    else { rejected with status := .closed }

/-- The loop of a connection is over. -/
def finish (reconnect : Option ℕ) (s : State O) (link : ℕ) (ending : Ending) : State O :=
  let ended := s.setStage link (.done ending)
  if s.status = .connected then ended.handleDisconnect reconnect else ended

/-- Up to the first await. -/
def wireUpConnection (s : State O) (dialled : Bool) : State O :=
  { s with
    connection := some s.loops.length
    status := .connected
    loops := s.loops ++ [{ stage := .wiring, source := s.loops.length, dialled }] }

/-- The loop takes the frames of the connection that the session has now. -/
def startConsuming (s : State O) (link : ℕ) : State O :=
  { s with
    loops := s.loops.modify link fun loop =>
      { loop with stage := .receiving, source := s.connection.getD link } }

/-- A session that has been given the connection is never handed over. -/
def wiringFailed (reconnect : Option ℕ) (s : State O) (link : ℕ) : State O :=
  let failed := s.setStage link (.done .unwired)
  if s.loops[link]?.any (·.dialled) then failed.handleDisconnect reconnect else failed

/-- The handshake and the advert have been sent, or not. -/
def wiringEnded (reconnect : Option ℕ) (s : State O) (link : ℕ) : Except String Unit → State O
  | .ok () => s.startConsuming link
  | .error _ => s.wiringFailed reconnect link

def onSessionEnd (s : State O) (link : ℕ) : State O :=
  { s with sessionEnds := s.sessionEnds ++ (s.loops[link]?.map Loop.source).toList }

def doConnect (s : State O) : State O := { s with status := .connecting, dials := s.dials + 1 }

/-- A peer that has answered is alive. -/
def hear (s : State O) (link : ℕ) : State O :=
  if s.loops[link]?.any (·.heardFromPeer) then s
  else { s with
    attempt := 0
    loops := s.loops.modify link fun loop => { loop with heardFromPeer := true } }

/-- A frame is applied, up to the first await. -/
def receive (s : State O) (link : ℕ) : Frame O → State O
  | .manageResponse requestId outcome =>
    ((s.hear link).setStage link (.applying false)).perform
      (.applyManageResponse requestId outcome none)
  | .relayData => (s.hear link).setStage link (.applying true)
  | .other => (s.hear link).setStage link (.applying false)

def close (s : State O) : State O :=
  { s.perform (.rejectPendingManageRequests "connection closed before a response arrived") with
    feedCancelled := true
    timers := s.reconnectTimer.elim s.timers s.timers.erase
    reconnectTimer := none }

def next (reconnect : Option ℕ) (s : State O) : Event O → State O
  | .accept => if s.status = .idle ∧ reconnect = none then s.wireUpConnection false else s
  | .connect => if s.connection = none then { s.doConnect with attempt := 0 } else s
  | .dialled =>
    if s.dials = 0 then s
    else if s.feedCancelled = true then { s with dials := s.dials - 1 }
    else { s with dials := s.dials - 1 }.wireUpConnection true
  | .dialFailed =>
    if s.dials = 0 then s else { s with dials := s.dials - 1 }.handleDisconnect reconnect
  | .redial timer =>
    if timer ∈ s.timers then
      { s with timers := s.timers.erase timer, reconnectTimer := none }.doConnect
    else s
  | .wired link result =>
    if s.stage link = some .wiring then s.wiringEnded reconnect link result else s
  | .received link frame =>
    if s.stage link = some .receiving then
      if s.feedCancelled = true then s.setStage link (.done .cancelled) else s.receive link frame
    else s
  | .opened link sender requestId outcome =>
    if s.stage link = some (.applying true) then
      (s.setStage link (.applying false)).perform
        (.applyManageResponse requestId outcome (some sender))
    else s
  | .applied link =>
    match s.stage link with
    | some (.applying _) => s.setStage link .hooking
    | _ => s
  | .hooked link => if s.stage link = some .hooking then s.setStage link .receiving else s
  | .streamEnded link =>
    if s.stage link = some .receiving then
      (s.onSessionEnd link).finish reconnect link .streamEnded
    else s
  | .threw link =>
    if (s.stage link).any Stage.consuming then s.finish reconnect link .threw else s
  | .request target hasTimeout =>
    s.perform (.sendManageRequest target hasTimeout s.connection
      (s.connection.isSome && s.status = .connected))
  | .paired call result => s.perform (.paired call result)
  | .transmitted call result => s.perform (.transmitted call result)
  | .timeout call => s.perform (.timeout call)
  | .close => s.close
  | .closed =>
    if s.feedCancelled = true ∧
        (s.status = .connected ∨ s.status = .connecting ∨ s.status = .reconnecting) then
      { s with status := .closed }
    else s

end State

end WireMesh.TypeScript.MeshSession
