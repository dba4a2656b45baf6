import WireMesh.Machine
import WireMesh.TypeScript.Bulk

/-!
# A transfer over one connection

A sender and a receiver of one transfer, each at its end of a connection that delivers frames in
order and may end at any moment. Everything that a side waits for is an event of its own, so that
frames arrive between any two steps of the sender.

* The sender calls `open`, or `continueFrom` after a resume; it goes on when what it has waited
  for is there (`resume`) or has failed (`fail`), and takes the next frame (`deliver`).
* The receiver takes a frame when it is done with the one before (`receive`), and does one
  operation on its storage at a time (`work`). The application decides on an offer (`decide`), and
  may ask to resume on a connection that nothing has been sent over yet (`requestResume`).
* The connection ends for the sends of both sides (`disconnect`) before the sender is told
  (`connectionEnd`).
-/

namespace WireMesh.TypeScript.Bulk

open Machine StorageProgram

/-- What is common to all runs: the chunks of the sender, and the transfer. -/
structure Transfer where
  source : List Bytes
  digestOf : Bytes → Bytes
  idHex : String
  /-- The sender, as the receiver has authenticated it. -/
  opener : DeviceId

/-! ## The receiver -/

/-- What the receiver is doing. -/
inductive Task
  | idle
  /-- The application has not yet decided on the offer. -/
  | offered
  | busy (program : StorageM Done)
  /-- The request is answered, and the first ack is to be sent. -/
  | responded (window : ℕ)

structure Receiver where
  storage : KeyValueStorage
  /-- The transfer is registered for the connection. -/
  registered : Bool
  task : Task
  /-- What `onComplete` was called with. -/
  completed : List BulkReceiveResult

namespace Receiver

/-- The storage has been used. -/
def finish (idHex : String) (r : Receiver) : Done → Receiver × Option ReceiverFrame
  | .send frame => ({ r with task := .idle }, frame)
  | .offer => ({ r with task := .offered }, none)
  | .accepted window =>
    ({ r with
        registered := true
        task := .responded window }, some (.response none))
  | .resumed ackedCount =>
    ({ r with
        registered := true
        task := .busy (advertise idHex ackedCount) }, none)
  | .completed result =>
    ({ r with
        task := .idle
        completed := r.completed ++ [result] }, none)

/-- The receiver goes on, and may send a frame. -/
def work (idHex : String) (r : Receiver) : Receiver × Option ReceiverFrame :=
  match r.task with
  | .busy (.ret done) => r.finish idHex done
  | .busy program =>
    ({ r with
        storage := (program.step r.storage).1
        task := .busy (program.step r.storage).2 }, none)
  | .responded window => ({ r with task := .idle }, some (.bulkAck { ackSeq := 0, window }))
  | _ => (r, none)

end Receiver

/-! ## The connection -/

/-- One direction of the connection: the frames that have arrived, and those on their way. -/
structure Link (α : Type) where
  arrived : List α
  queue : List α

/-- All that has been sent. -/
def Link.sent {α : Type} (l : Link α) : List α := l.arrived ++ l.queue

def Link.put {α : Type} (l : Link α) (frame : Option α) : Link α :=
  { l with queue := l.queue ++ frame.toList }

/-- The next frame arrives, and the others are still on their way. -/
def Link.pop {α : Type} (l : Link α) (frame : α) (queue : List α) : Link α where
  arrived := l.arrived ++ [frame]
  queue := queue

structure State where
  sender : Stage
  cancelled : Bool
  receiver : Receiver
  outbound : Link SenderFrame
  inbound : Link ReceiverFrame
  /-- Nothing more can be sent. -/
  ended : Bool
  /-- The sender knows that the connection has ended. -/
  closed : Bool

inductive Decision
  | accept (window : ℕ)
  | reject
deriving DecidableEq

inductive Event
  | openTransfer
  | continueFrom
  | resume
  | fail
  /-- The request of `open` has not been answered in time. -/
  | timeout
  /-- The sender is asked to cancel. -/
  | cancel
  | deliver
  | receive
  | work
  | decide (decision : Decision)
  | requestResume (existing : Bool)
  /-- The receiver is asked to cancel. -/
  | deregister
  | disconnect
  | connectionEnd
deriving DecidableEq

namespace State

/-- The sender is at a new stage, and sends the frame. What is sent over a connection that has
    ended fails. -/
def send (x : State) (stage : Stage) : Option SenderFrame → State
  | none => { x with sender := stage }
  | some frame =>
    if x.ended then { x with sender := stage.fail }
    else
      { x with
        sender := stage
        outbound := x.outbound.put (some frame) }

/-- The receiver is in a new state, and sends the frame. -/
def reply (x : State) (r : Receiver) (frame : Option ReceiverFrame) : State :=
  { x with
    receiver := r
    inbound := if x.ended then x.inbound else x.inbound.put frame }

/-- The receiver starts to use the storage. -/
def begin (x : State) (program : StorageM Done) : State :=
  { x with receiver := { x.receiver with task := .busy program } }

/-- The receiver takes a frame, and begins to work on it. -/
def take (x : State) (program : StorageM Done) (frame : SenderFrame) (queue : List SenderFrame) :
    State :=
  { x.begin program with outbound := x.outbound.pop frame queue }

end State

variable (t : Transfer)

def next (x : State) : Event → State
  | .openTransfer => match x.sender with
    | .idle => x.send .opening (some .bulkOpen)
    | _ => x
  | .continueFrom => match x.sender with
    | .idle => x.send .starting none
    | _ => x
  | .resume =>
    let step := x.sender.resume t.source t.digestOf x.cancelled
    x.send step.1 step.2
  | .fail => { x with sender := x.sender.fail }
  | .timeout => { x with sender := x.sender.onResponse (some "timeout") }
  | .cancel => { x with cancelled := true }
  | .deliver => match x.closed, x.inbound.queue with
    | false, frame :: queue =>
      { x with
        sender := x.sender.onFrame frame
        inbound := x.inbound.pop frame queue }
    | _, _ => x
  | .receive => match x.receiver.task, x.outbound.queue with
    | .idle, frame :: queue =>
      x.take (onFrame t.idHex t.digestOf x.receiver.registered frame) frame queue
    | _, _ => x
  | .work => x.reply (x.receiver.work t.idHex).1 (x.receiver.work t.idHex).2
  | .decide decision => match x.receiver.task, decision with
    | .offered, .accept window => x.begin (accept t.idHex t.opener window)
    | .offered, .reject =>
      x.reply { x.receiver with task := .idle } (some (.response (some "denied")))
    | _, _ => x
  | .requestResume existing => match x.receiver.task with
    | .idle =>
      -- Resumption is on a fresh connection, and what is registered has a stored opener.
      if x.receiver.registered ∨ x.inbound.sent ≠ [] ∨
          (existing ∧ x.receiver.storage.lookup (openerKey t.idHex) = none) then x
      else x.begin (Bulk.requestResume t.idHex existing)
    | _ => x
  | .deregister => { x with receiver := { x.receiver with registered := false } }
  | .disconnect => { x with ended := true }
  | .connectionEnd =>
    if x.ended then
      { x with
        sender := x.sender.onConnectionEnd
        closed := true }
    else x

/-- Nothing has been sent over the connection. What the receiver has stored before is still in its
    storage. -/
def init (storage : KeyValueStorage) : State where
  sender := .idle
  cancelled := false
  receiver := { storage, registered := false, task := .idle, completed := [] }
  outbound := { arrived := [], queue := [] }
  inbound := { arrived := [], queue := [] }
  ended := false
  closed := false

variable {t} {x : State}

theorem ended_send (x : State) (stage : Stage) (frame : Option SenderFrame) :
    (x.send stage frame).ended = x.ended := by
  cases frame with
  | none => rfl
  | some frame =>
    rw [State.send]
    split_ifs <;> rfl

/-- A connection that has ended does not come back. -/
theorem ended_next (h : x.ended = true) (e : Event) : (next t x e).ended = true := by
  cases e with
  | openTransfer | continueFrom => grind [next, ended_send]
  | resume => exact (ended_send ..).trans h
  | deliver | receive | decide | connectionEnd =>
    simp only [next]
    split <;> exact h
  | requestResume =>
    simp only [next]
    split
    · split_ifs <;> exact h
    · exact h
  | disconnect => rfl
  | _ => exact h

theorem ended_of_next {e : Event} (h : (next t x e).ended = false) : x.ended = false := by
  grind [ended_next]

/-- The next chunk, and the chunks after it. -/
theorem cons_eq_drop {source rest : List Bytes} {chunk : Bytes} {seq : ℕ}
    (h : chunk :: rest = source.drop seq) :
    source[seq]? = some chunk ∧ rest = source.drop (seq + 1) := by
  constructor
  · rw [← Nat.add_zero seq, ← List.getElem?_drop, ← h]
    rfl
  · rw [← List.drop_drop, ← h]
    rfl

/-! ## What has been sent -/

@[simp]
theorem Link.sent_put {α : Type} (l : Link α) (frame : Option α) :
    (l.put frame).sent = l.sent ++ frame.toList := (List.append_assoc ..).symm

theorem Link.sent_pop {α : Type} {l : Link α} {frame : α} {queue : List α}
    (h : l.queue = frame :: queue) : (l.pop frame queue).sent = l.sent := by
  simp [sent, pop, h]

theorem Link.mem_sent {α : Type} {l : Link α} {frame : α} {queue : List α}
    (h : l.queue = frame :: queue) : frame ∈ l.sent := by
  simp [sent, h]

def SenderFrame.dataSeq : SenderFrame → Option ℕ
  | bulkData seq _ => some seq
  | _ => none

def ReceiverFrame.ack : ReceiverFrame → Option BulkAckFrame
  | bulkAck ack => some ack
  | _ => none

/-- The numbers of the chunks that are sent in the frames. -/
def dataSeqs (frames : List SenderFrame) : List ℕ := frames.filterMap SenderFrame.dataSeq

/-- The acks among the frames. -/
def acksOf (frames : List ReceiverFrame) : List BulkAckFrame :=
  frames.filterMap ReceiverFrame.ack

/-- The receiver has acked the chunk. -/
def State.Acked (x : State) (seq : ℕ) : Prop := ∃ ack ∈ acksOf x.inbound.sent, seq < ack.ackSeq

instance (x : State) (seq : ℕ) : Decidable (x.Acked seq) :=
  inferInstanceAs (Decidable (∃ ack ∈ acksOf x.inbound.sent, seq < ack.ackSeq))

/-- The receiver has acked every chunk that was sent. -/
def State.AllAcked (x : State) : Prop := ∀ seq ∈ dataSeqs x.outbound.sent, x.Acked seq

instance (x : State) : Decidable x.AllAcked :=
  inferInstanceAs (Decidable (∀ seq ∈ dataSeqs x.outbound.sent, x.Acked seq))

@[simp]
theorem dataSeqs_append (frames later : List SenderFrame) :
    dataSeqs (frames ++ later) = dataSeqs frames ++ dataSeqs later := List.filterMap_append

@[simp]
theorem dataSeqs_nil : dataSeqs [] = [] := rfl

@[simp]
theorem dataSeqs_cons (frame : SenderFrame) (frames : List SenderFrame) :
    dataSeqs (frame :: frames) = frame.dataSeq.toList ++ dataSeqs frames := by
  cases frame <;> rfl

@[simp]
theorem acksOf_append (frames later : List ReceiverFrame) :
    acksOf (frames ++ later) = acksOf frames ++ acksOf later := List.filterMap_append

@[simp]
theorem acksOf_nil : acksOf [] = [] := rfl

@[simp]
theorem acksOf_cons (frame : ReceiverFrame) (frames : List ReceiverFrame) :
    acksOf (frame :: frames) = frame.ack.toList ++ acksOf frames := by
  cases frame <;> rfl

@[simp]
theorem mem_acksOf {frames : List ReceiverFrame} {ack : BulkAckFrame} :
    ack ∈ acksOf frames ↔ .bulkAck ack ∈ frames := by
  induction frames with
  | nil => simp
  | cons frame frames ih => cases frame <;> simp [ReceiverFrame.ack, ih]

/-! ## A small transfer -/

/-- Two chunks of a byte each. -/
def sampleTransfer : Transfer where
  source := [[1], [2]]
  digestOf := id
  idHex := "00"
  opener := .pad [1]

/-- The transfer is accepted with the window, and the sender begins to stream. -/
def sampleOpening (window : ℕ) : List Event :=
  [.openTransfer, .receive, .work, .work, .decide (.accept window), .work, .work, .work, .work,
    .work, .deliver, .resume, .deliver, .resume]

/-- The receiver stores a chunk and acks it. -/
def sampleStore : List Event := [.receive, .work, .work, .work, .work, .work]

end WireMesh.TypeScript.Bulk
