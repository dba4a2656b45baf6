import WireMesh.TypeScript.DataSync

/-!
# Bulk transfers

One transfer of chunks (`bulk.ts`), from the sender's and from the receiver's side. The sender
streams the chunks of a source within a window of bytes, which every ack of the receiver renews;
the receiver stores each chunk that comes next, and acks it. What an asynchronous function of the
sender waits for is its `Stage`; the receiver's functions are programs over its storage.

* `Stage.resume`: the sender goes on, and may send a frame.
* `Stage.onAck`: an ack arrives, which is dropped unless the sender waits for one.
* `onFrame`: what the receiver does with a frame.
-/

namespace WireMesh.TypeScript.Bulk

open StorageProgram

/-- The number of chunks that the receiver has stored, and how many bytes it takes beyond them. -/
structure BulkAckFrame where
  ackSeq : ℕ
  window : ℕ
deriving DecidableEq

/-- What the sender sends. -/
inductive SenderFrame
  | bulkOpen
  | bulkData (seq : ℕ) (bytes : Bytes)
  | bulkEnd (digest : Bytes)
deriving DecidableEq

/-- What the receiver sends: the answer to `bulk.open`, with the code of an error, or an ack. -/
inductive ReceiverFrame
  | response (code : Option String)
  | bulkAck (ack : BulkAckFrame)
deriving DecidableEq

/-! ## Sender -/

inductive Status
  | complete
  | incomplete
  | rejected (code : String)
deriving DecidableEq

structure BulkSendOutcome where
  status : Status
  ackedCount : ℕ
deriving DecidableEq

/-- A chunk that was sent, and is not covered by an ack yet. -/
structure Unacked where
  seq : ℕ
  length : ℕ
deriving DecidableEq

/-- The variables of `stream`. -/
structure Stream where
  seq : ℕ
  ackedCount : ℕ
  window : ℕ
  bytesInFlight : ℕ
  inFlight : List Unacked
deriving DecidableEq

namespace Stream

def start (ack : BulkAckFrame) : Stream where
  seq := ack.ackSeq
  ackedCount := ack.ackSeq
  window := ack.window
  bytesInFlight := 0
  inFlight := []

/-- The chunks that the acks do not cover, and the number of their bytes. -/
def retire (ackedCount : ℕ) : List Unacked → ℕ → List Unacked × ℕ
  | [], bytesInFlight => ([], bytesInFlight)
  | head :: rest, bytesInFlight =>
    if head.seq < ackedCount then retire ackedCount rest (bytesInFlight - head.length)
    else (head :: rest, bytesInFlight)

def applyAck (s : Stream) (ack : BulkAckFrame) : Stream where
  seq := s.seq
  ackedCount := ack.ackSeq
  window := ack.window
  bytesInFlight := (retire ack.ackSeq s.inFlight s.bytesInFlight).2
  inFlight := (retire ack.ackSeq s.inFlight s.bytesInFlight).1

def ExceedsWindow (s : Stream) (length : ℕ) : Prop := s.window < s.bytesInFlight + length

instance (s : Stream) (length : ℕ) : Decidable (s.ExceedsWindow length) :=
  inferInstanceAs (Decidable (_ < _))

/-- A chunk has been sent. -/
def push (s : Stream) (length : ℕ) : Stream :=
  { s with
    seq := s.seq + 1
    bytesInFlight := s.bytesInFlight + length
    inFlight := s.inFlight ++ [{ seq := s.seq, length }] }

end Stream

/-- What `open` or `continueFrom` waits for. In a stream, `rest` is what the source has still to
    yield, after the chunk that is being sent. -/
inductive Stage
  | idle
  /-- The answer to `bulk.open`. -/
  | opening
  | accepted
  /-- The first ack. -/
  | starting
  | started (ack : BulkAckFrame)
  /-- The next chunk of the source. -/
  | pulling (s : Stream) (rest : List Bytes)
  /-- An ack, since the chunk does not fit in the window. -/
  | crediting (s : Stream) (chunk : Bytes) (rest : List Bytes)
  | credited (s : Stream) (chunk : Bytes) (rest : List Bytes) (ack : BulkAckFrame)
  /-- The chunk has been given to the connection. -/
  | sending (s : Stream) (chunk : Bytes) (rest : List Bytes)
  /-- The source is read again, from the start. -/
  | digesting (s : Stream)
  | ending (s : Stream)
  | settled (outcome : BulkSendOutcome)
  /-- The promise has been rejected. -/
  | failed
deriving DecidableEq

namespace Stage

/-- The sender waits for an ack. -/
def isWaiting : Stage → Bool
  | starting => true
  | crediting _ _ _ => true
  | _ => false

/-- The chunk is sent, if it fits in the window. -/
def sendChunk (s : Stream) (chunk : Bytes) (rest : List Bytes) : Stage × Option SenderFrame :=
  if s.ExceedsWindow chunk.length then (crediting s chunk rest, none)
  else (sending s chunk rest, some (.bulkData s.seq chunk))

/-- What the sender has waited for is there. -/
def resume (source : List Bytes) (digestOf : Bytes → Bytes) (cancelled : Bool) :
    Stage → Stage × Option SenderFrame
  | accepted => (starting, none)
  | started ack => (pulling (.start ack) (source.drop ack.ackSeq), none)
  | pulling s [] => (digesting s, none)
  | pulling s (chunk :: rest) =>
    if cancelled then (settled { status := .incomplete, ackedCount := s.ackedCount }, none)
    else sendChunk s chunk rest
  | credited s chunk rest ack => sendChunk (s.applyAck ack) chunk rest
  | sending s chunk rest => (pulling (s.push chunk.length) rest, none)
  | digesting s => (ending s, some (.bulkEnd (digestOf source.flatten)))
  | ending s => (settled { status := .complete, ackedCount := s.seq }, none)
  | stage => (stage, none)

/-- What the sender has waited for has failed. -/
def fail : Stage → Stage
  | opening => failed
  | pulling s _ => settled { status := .incomplete, ackedCount := s.ackedCount }
  | sending s _ _ => settled { status := .incomplete, ackedCount := s.ackedCount }
  | digesting _ => failed
  | ending _ => failed
  | stage => stage

/-- An ack that nothing waits for is dropped. -/
def onAck (ack : BulkAckFrame) : Stage → Stage
  | starting => started ack
  | crediting s chunk rest => credited s chunk rest ack
  | stage => stage

def onResponse (code : Option String) : Stage → Stage
  | opening => match code with
    | none => accepted
    | some code => settled { status := .rejected code, ackedCount := 0 }
  | stage => stage

def onFrame : ReceiverFrame → Stage → Stage
  | .response code => onResponse code
  | .bulkAck ack => onAck ack

/-- The waiting for an ack is given up. -/
def onConnectionEnd : Stage → Stage
  | starting => failed
  | crediting s _ _ => settled { status := .incomplete, ackedCount := s.ackedCount }
  | stage => stage

end Stage

/-! ## Receiver -/

def openerKey (idHex : String) : String := "bulk/" ++ idHex ++ "/opener"

def ackSeqKey (idHex : String) : String := "bulk/" ++ idHex ++ "/ack-seq"

def windowKey (idHex : String) : String := "bulk/" ++ idHex ++ "/window"

def chunkKey (idHex : String) (seq : ℕ) : String := "bulk/" ++ idHex ++ "/chunk/" ++ toString seq

structure BulkReceiveResult where
  ok : Bool
  chunkCount : ℕ
deriving DecidableEq

/-- What a function of the receiver does when it has used the storage. -/
inductive Done
  /-- A frame is sent, or none. -/
  | send (frame : Option ReceiverFrame)
  /-- The application is to decide on the offer. -/
  | offer
  /-- The transfer is registered for the connection, the request is answered, and the first ack is
      sent. -/
  | accepted (window : ℕ)
  /-- The transfer is registered for the connection, and the ack-seq is sent again. -/
  | resumed (ackedCount : ℕ)
  | completed (result : BulkReceiveResult)
deriving DecidableEq

variable (idHex : String)

def readAckSeq : StorageM ℕ := readCount (ackSeqKey idHex)

def handleBulkOpen : StorageM Done := do
  if (← read (openerKey idHex)).isSome then
    return .send (some (.response (some "already_exists")))
  return .offer

/-- The application accepts the offer. -/
def accept (openerDevice : DeviceId) (window : ℕ) : StorageM Done := do
  write (openerKey idHex) openerDevice.bytes
  write (ackSeqKey idHex) (encodeCount 0)
  write (windowKey idHex) (encodeCount window)
  return .accepted window

/-- Up to the answer of the sender. `existing` says whether the transfer is registered for some
    connection. -/
def requestResume (existing : Bool) : StorageM Done := do
  let storedOpener ← read (openerKey idHex)
  if !existing && storedOpener.isNone then return .send none
  return .resumed (← readAckSeq idHex)

/-- The ack with which a transfer goes on. -/
def advertise (ackedCount : ℕ) : StorageM Done := do
  let window ← readCount (windowKey idHex)
  return .send (some (.bulkAck { ackSeq := ackedCount, window }))

def persist (seq : ℕ) (bytes : Bytes) : StorageM Done := do
  let ackedCount ← readAckSeq idHex
  if seq ≠ ackedCount then return .send none
  write (chunkKey idHex seq) bytes
  let newAckedCount := ackedCount + 1
  write (ackSeqKey idHex) (encodeCount newAckedCount)
  advertise idHex newAckedCount

/-- The chunks from a number on, at most the given number of them, without those that are not
    there. -/
def readChunks : (seq count : ℕ) → StorageM (List Bytes)
  | _, 0 => return []
  | seq, count + 1 => do
    let chunk ← read (chunkKey idHex seq)
    return chunk.toList ++ (← readChunks (seq + 1) count)

def verify (digestOf : Bytes → Bytes) (digest : Bytes) : StorageM Done := do
  let ackedCount ← readAckSeq idHex
  let chunks ← readChunks idHex 0 ackedCount
  return .completed { ok := digestOf chunks.flatten = digest, chunkCount := ackedCount }

/-- What is done with a frame. `registered` says whether the transfer is registered for the
    connection that the frame has come over. -/
def onFrame (digestOf : Bytes → Bytes) (registered : Bool) : SenderFrame → StorageM Done
  | .bulkOpen => handleBulkOpen idHex
  | .bulkData seq bytes => if registered then persist idHex seq bytes else return .send none
  | .bulkEnd digest => if registered then verify idHex digestOf digest else return .send none

/-! ## Stored transfers -/

/-- A call of `next` of the iterator of `storedTransferSource`. It throws if a chunk is missing. -/
def storedNext (seq : ℕ) : StorageM (Except String (Option Bytes)) := do
  let ackedCount ← readAckSeq idHex
  if ackedCount ≤ seq then return .ok none
  let some chunk ← read (chunkKey idHex seq)
    | return .error ("stored transfer " ++ idHex ++ " is missing chunk " ++ toString seq ++
        " though ack-seq claims " ++ toString ackedCount ++ " durable")
  return .ok (some chunk)

end WireMesh.TypeScript.Bulk
