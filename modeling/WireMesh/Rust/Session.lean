import WireMesh.OrderedMap

/-!
# Sessions in Rust

A session over one connection (`session.rs`): calls of `send_manage_request` on any thread, the
task that dispatches the frames of the connection, and `close`. They share the map of pending
requests, under its lock, and the flag that the session is closed. What a thread does between two
points at which it takes a lock or awaits something is one event.

The task is cancelled when it is aborted, but not before it returns from the poll that it is in.
Frames other than responses, and the handlers of incoming requests, change nothing here.
-/

namespace WireMesh.Rust.Session

/-- What `send_manage_request` returns. -/
inductive Result (O : Type)
  | outcome (outcome : O)
  | timeout
  | error (reason : String)
deriving DecidableEq

/-- Where a call of `send_manage_request` is. -/
inductive Stage (O : Type)
  /-- It has found the session not closed. -/
  | checked
  /-- It has registered, and sends. -/
  | sending (requestId : ℕ)
  /-- It awaits the reply. -/
  | awaiting (requestId : ℕ)
  /-- It is about to take its request out of the map. -/
  | removing (requestId : ℕ) (result : Result O)
  | settled (result : Result O)
deriving DecidableEq

structure Call (O : Type) where
  stage : Stage O
  hasTimeout : Bool
  /-- What the channel for the reply holds. -/
  reply : Option (Except String O) := none

section Requests

variable {O : Type}

/-- A reply is received while it is awaited. -/
def Call.receive (x : Call O) : Call O :=
  match x.stage, x.reply with
  | .awaiting _, some (.ok outcome) => { x with stage := .settled (.outcome outcome) }
  | .awaiting _, some (.error reason) => { x with stage := .settled (.error reason) }
  | _, _ => x

def Call.send (reply : Except String O) (x : Call O) : Call O :=
  { x with reply := some reply }.receive

structure Requests (O : Type) where
  nextRequestId : ℕ
  /-- The pending map, from the numbers of requests to their calls. -/
  pending : OrderedMap ℕ ℕ
  calls : List (Call O)

namespace Requests

def empty : Requests O := ⟨0, .empty, []⟩

def setStage (r : Requests O) (call : ℕ) (stage : Stage O) : Requests O :=
  { r with calls := r.calls.modify call fun x => { x with stage } }

/-- A call begins. -/
def request (r : Requests O) (hasTimeout closed : Bool) : Requests O :=
  { r with calls := r.calls ++
      [if closed = true then { stage := .settled (.error "session is closed"), hasTimeout }
       else { stage := .checked, hasTimeout }] }

def register (r : Requests O) (call : ℕ) : Requests O :=
  match r.calls[call]?.map Call.stage with
  | some .checked => { r.setStage call (.sending r.nextRequestId) with
      nextRequestId := r.nextRequestId + 1
      pending := r.pending.set r.nextRequestId call }
  | _ => r

/-- `send_frame` has returned. -/
def sent (r : Requests O) (call : ℕ) (result : Except String Unit) : Requests O :=
  match r.calls[call]?.map Call.stage with
  | some (.sending requestId) =>
    match result with
    | .ok () => { r with
        calls := r.calls.modify call fun x => { x with stage := .awaiting requestId }.receive }
    | .error reason => r.setStage call (.removing requestId (.error reason))
  | _ => r

/-- The timeout of a call has elapsed. -/
def elapsed (r : Requests O) (call : ℕ) : Requests O :=
  match r.calls[call]? with
  | some ⟨.awaiting requestId, true, _⟩ => r.setStage call (.removing requestId .timeout)
  | _ => r

def remove (r : Requests O) (call : ℕ) : Requests O :=
  match r.calls[call]?.map Call.stage with
  | some (.removing requestId result) =>
    { r.setStage call (.settled result) with pending := r.pending.delete requestId }
  | _ => r

/-- A response is dispatched. -/
def respond (r : Requests O) (requestId : ℕ) (outcome : O) : Requests O :=
  match r.pending.get requestId with
  | none => r
  | some call => { r with
      pending := r.pending.delete requestId
      calls := r.calls.modify call (Call.send (.ok outcome)) }

def rejectAllPending (r : Requests O) (reason : String) : Requests O :=
  { r with
    pending := .empty
    calls := r.pending.values.foldl
      (fun calls call => calls.modify call (Call.send (.error reason))) r.calls }

end Requests

end Requests

/-- Where the task is that dispatches the frames. -/
inductive Dispatch (O : Type)
  /-- It awaits a frame, and is not being polled. -/
  | suspended
  /-- It is being polled, and asks for a frame. -/
  | polling
  /-- It is about to look for the request of a response. -/
  | responding (requestId : ℕ) (outcome : O)
  /-- The stream has ended. -/
  | ended
  /-- It has set the flag, and is about to reject what is pending. -/
  | draining
  | finished
  | cancelled
deriving DecidableEq

structure State (O : Type) where
  closed : Bool
  dispatch : Dispatch O
  /-- The task is to be cancelled when it returns from its poll. -/
  aborted : Bool
  /-- How many calls of `close` are about to reject what is pending. -/
  closing : ℕ
  /-- The reasons of the `Disconnected` events. -/
  disconnected : List String
  requests : Requests O

inductive Event (O : Type)
  | request (hasTimeout : Bool)
  | register (call : ℕ)
  | sent (call : ℕ) (result : Except String Unit)
  | elapsed (call : ℕ)
  | remove (call : ℕ)
  | wake
  | suspend
  | response (requestId : ℕ) (outcome : O)
  | respond
  | streamEnded
  | setClosed
  | drain
  | close
  | drainClosed

namespace State

variable {O : Type}

def init : State O where
  closed := false
  dispatch := .suspended
  aborted := false
  closing := 0
  disconnected := []
  requests := .empty

def rejectAllPending (s : State O) : State O :=
  { s with
    requests := s.requests.rejectAllPending "connection closed before a response arrived" }

/-- `AbortHandle::abort`. -/
def abort (s : State O) : State O :=
  match s.dispatch with
  | .suspended => { s with dispatch := .cancelled }
  | .finished | .cancelled => s
  | _ => { s with aborted := true }

def close (s : State O) : State O :=
  if s.closed = true then s else { s.abort with closed := true, closing := s.closing + 1 }

/-- `close`, from where it takes the lock. -/
def drainClosed (s : State O) : State O :=
  if s.closing = 0 then s
  else { s.rejectAllPending with
    closing := s.closing - 1
    disconnected := s.disconnected ++ ["closed locally"] }

def wake (s : State O) : State O :=
  match s.dispatch with
  | .suspended => { s with dispatch := .polling }
  | _ => s

def suspend (s : State O) : State O :=
  match s.dispatch with
  | .polling => { s with dispatch := if s.aborted = true then .cancelled else .suspended }
  | _ => s

def response (s : State O) (requestId : ℕ) (outcome : O) : State O :=
  match s.dispatch with
  | .polling => { s with dispatch := .responding requestId outcome }
  | _ => s

def respond (s : State O) : State O :=
  match s.dispatch with
  | .responding requestId outcome =>
    { s with dispatch := .polling, requests := s.requests.respond requestId outcome }
  | _ => s

def streamEnded (s : State O) : State O :=
  match s.dispatch with
  | .polling => { s with dispatch := .ended }
  | _ => s

def setClosed (s : State O) : State O :=
  match s.dispatch with
  | .ended => { s with dispatch := .draining, closed := true }
  | _ => s

def drain (s : State O) : State O :=
  match s.dispatch with
  | .draining => { s.rejectAllPending with
      dispatch := .finished
      disconnected := s.disconnected ++ ["the peer's connection ended"] }
  | _ => s

def next (s : State O) : Event O → State O
  | .request hasTimeout => { s with requests := s.requests.request hasTimeout s.closed }
  | .register call => { s with requests := s.requests.register call }
  | .sent call result => { s with requests := s.requests.sent call result }
  | .elapsed call => { s with requests := s.requests.elapsed call }
  | .remove call => { s with requests := s.requests.remove call }
  | .wake => s.wake
  | .suspend => s.suspend
  | .response requestId outcome => s.response requestId outcome
  | .respond => s.respond
  | .streamEnded => s.streamEnded
  | .setClosed => s.setClosed
  | .drain => s.drain
  | .close => s.close
  | .drainClosed => s.drainClosed

end State

end WireMesh.Rust.Session
