import WireMesh.TypeScript.BulkTransfer

/-!
# What a bulk receiver does

What each function of a bulk receiver leaves in the storage and sends, when it is done. Since the
receiver does one thing at a time, all of it is known as soon as the receiver has begun
(`Receiver.outlook`), and no step on the way changes it (`Receiver.outlook_work`).
-/

namespace WireMesh.TypeScript.Bulk

open StorageProgram

/-! ## Keys -/

section Keys

variable {idHex : String}

theorem chunkKey_inj {seq seq' : ℕ} (h : chunkKey idHex seq = chunkKey idHex seq') :
    seq = seq' := by
  grind [chunkKey, String.toList_append, toString_injective, List.append_cancel_left]

theorem chunkKey_ne_ackSeqKey (seq : ℕ) : chunkKey idHex seq ≠ ackSeqKey idHex := by
  simp [chunkKey, ackSeqKey, ← String.toList_inj]

theorem chunkKey_ne_windowKey (seq : ℕ) : chunkKey idHex seq ≠ windowKey idHex := by
  simp [chunkKey, windowKey, ← String.toList_inj]

theorem chunkKey_ne_openerKey (seq : ℕ) : chunkKey idHex seq ≠ openerKey idHex := by
  simp [chunkKey, openerKey, ← String.toList_inj]

theorem ackSeqKey_ne_windowKey : ackSeqKey idHex ≠ windowKey idHex := by
  simp [ackSeqKey, windowKey, ← String.toList_inj]

theorem ackSeqKey_ne_openerKey : ackSeqKey idHex ≠ openerKey idHex := by
  simp [ackSeqKey, openerKey, ← String.toList_inj]

theorem windowKey_ne_openerKey : windowKey idHex ≠ openerKey idHex := by
  simp [windowKey, openerKey, ← String.toList_inj]

end Keys

/-! ## Functions -/

section Functions

variable (idHex : String) (storage : KeyValueStorage)

theorem exec_handleBulkOpen :
    (handleBulkOpen idHex).exec storage =
      (storage, if (storage.lookup (openerKey idHex)).isSome then
        .send (some (.response (some "already_exists"))) else .offer) := by
  cases hopener : storage.lookup (openerKey idHex) <;> simp [handleBulkOpen, hopener]

theorem exec_advertise (ackedCount : ℕ) :
    (advertise idHex ackedCount).exec storage =
      (storage, .send (some (.bulkAck
        { ackSeq := ackedCount, window := countAt storage (windowKey idHex) }))) := rfl

theorem exec_requestResume (existing : Bool) :
    (requestResume idHex existing).exec storage =
      (storage, if !existing && (storage.lookup (openerKey idHex)).isNone then .send none
        else .resumed (countAt storage (ackSeqKey idHex))) := by
  cases existing <;> cases hopener : storage.lookup (openerKey idHex) <;>
    simp [requestResume, readAckSeq, exec_readCount, hopener]

theorem exec_accept (openerDevice : DeviceId) (window : ℕ) :
    (accept idHex openerDevice window).exec storage =
      (((storage.insert (openerKey idHex) openerDevice.bytes).insert (ackSeqKey idHex)
        (encodeCount 0)).insert (windowKey idHex) (encodeCount window), .accepted window) := rfl

/-- The storage with one more chunk. -/
def stored (seq : ℕ) (bytes : Bytes) : KeyValueStorage :=
  (storage.insert (chunkKey idHex seq) bytes).insert (ackSeqKey idHex) (encodeCount (seq + 1))

/-- The operations of `persist`, one by one. -/
theorem persist_eq (seq : ℕ) (bytes : Bytes) :
    persist idHex seq bytes = .get (ackSeqKey idHex) fun value =>
      if seq ≠ value.elim 0 decodeCount then .ret (.send none)
      else .set (chunkKey idHex seq) bytes (.set (ackSeqKey idHex)
        (encodeCount (value.elim 0 decodeCount + 1))
        (advertise idHex (value.elim 0 decodeCount + 1))) := rfl

theorem exec_persist (seq : ℕ) (bytes : Bytes) :
    (persist idHex seq bytes).exec storage =
      if seq = countAt storage (ackSeqKey idHex) then
        (stored idHex storage seq bytes,
          .send (some (.bulkAck
            { ackSeq := seq + 1
              window := countAt (stored idHex storage seq bytes) (windowKey idHex) })))
      else (storage, .send none) := by
  by_cases hseq : seq = countAt storage (ackSeqKey idHex)
  · simp [persist, readAckSeq, exec_readCount, exec_advertise, stored, ← hseq]
  · simp [persist, readAckSeq, exec_readCount, hseq]

theorem exec_readChunks (seq count : ℕ) :
    ((readChunks idHex seq count).exec storage).1 = storage := by
  induction count generalizing seq with
  | zero => rfl
  | succ count ih => simpa [readChunks] using ih (seq + 1)

theorem exec_verify (digestOf : Bytes → Bytes) (digest : Bytes) :
    ∃ result, (verify idHex digestOf digest).exec storage = (storage, .completed result) := by
  simp [verify, readAckSeq, exec_readCount, exec_readChunks]

end Functions

/-! ## What is written -/

section Writes

variable {P : String → Bytes → Prop} {idHex : String} {digestOf : Bytes → Bytes}

theorem advertise_writes (ackedCount : ℕ) : (advertise idHex ackedCount).Writes P :=
  (readCount_writes _).bind fun _ => writes_pure _

theorem requestResume_writes (existing : Bool) : (requestResume idHex existing).Writes P := by
  refine (writes_read _).bind fun storedOpener => ?_
  split_ifs
  · trivial
  · exact (readCount_writes _).bind fun _ => writes_pure _

theorem readChunks_writes (seq count : ℕ) : (readChunks idHex seq count).Writes P := by
  induction count generalizing seq with
  | zero => trivial
  | succ count ih => exact (writes_read _).bind fun _ => (ih _).bind fun _ => writes_pure _

theorem accept_writes {openerDevice : DeviceId} {window : ℕ}
    (hopener : P (openerKey idHex) openerDevice.bytes)
    (hcount : P (ackSeqKey idHex) (encodeCount 0))
    (hwindow : P (windowKey idHex) (encodeCount window)) :
    (accept idHex openerDevice window).Writes P :=
  ⟨hopener, hcount, hwindow, trivial⟩

theorem persist_writes {seq : ℕ} {bytes : Bytes} (hchunk : P (chunkKey idHex seq) bytes)
    (hcount : ∀ n, P (ackSeqKey idHex) (encodeCount n)) : (persist idHex seq bytes).Writes P := by
  refine (readCount_writes _).bind fun ackedCount => ?_
  split_ifs
  · trivial
  · exact ⟨hchunk, hcount _, advertise_writes _⟩

/-- Only a chunk to be stored is written. -/
theorem onFrame_reads {registered : Bool} {frame : SenderFrame}
    (hquiet : registered → frame.dataSeq = none) :
    (onFrame idHex digestOf registered frame).Writes P := by
  cases frame with
  | bulkOpen =>
    refine (writes_read _).bind fun opener => ?_
    split_ifs <;> trivial
  | bulkData seq bytes =>
    cases registered with
    | false => trivial
    | true => simp [SenderFrame.dataSeq] at hquiet
  | bulkEnd digest =>
    simp only [onFrame]
    split_ifs
    · exact (readCount_writes _).bind fun _ => (readChunks_writes _ _).bind fun _ => writes_pure _
    · trivial

/-- What is left to do writes no more than before. -/
theorem Receiver.writes_work (idHex : String) {r : Receiver}
    (h : ∀ program, r.task = .busy program → program.Writes P) :
    ∀ program, (r.work idHex).1.task = .busy program → program.Writes P := by
  intro program' htask
  obtain ⟨storage, registered, task, completed⟩ := r
  rcases task with - | - | program | window
  · cases htask
  · cases htask
  · rcases program with done | ⟨key, rest⟩ | ⟨key, value, rest⟩
    · rcases done with frame | - | window | ackedCount | result
      case resumed =>
        cases htask
        exact advertise_writes _
      all_goals cases htask
    · cases htask
      exact h _ rfl _
    · cases htask
      exact (h _ rfl).2
  · cases htask

/-- The storage is as it was, or one key has been written. -/
theorem Receiver.storage_work (idHex : String) {r : Receiver}
    (h : ∀ program, r.task = .busy program → program.Writes P) :
    (r.work idHex).1.storage = r.storage ∨ (∃ program, r.task = .busy program) ∧
      ∃ key value, P key value ∧ (r.work idHex).1.storage = r.storage.insert key value := by
  obtain ⟨storage, registered, task, completed⟩ := r
  rcases task with - | - | program | window
  · exact .inl rfl
  · exact .inl rfl
  · rcases program with done | ⟨key, rest⟩ | ⟨key, value, rest⟩
    · exact .inl (by cases done <;> rfl)
    · exact .inl rfl
    · exact .inr ⟨⟨_, rfl⟩, key, value, (h _ rfl).1, rfl⟩
  · exact .inl rfl

end Writes

/-! ## Outlook -/

/-- What the receiver will have done when it has nothing more to do. -/
structure Outlook where
  storage : KeyValueStorage
  registered : Bool
  /-- The application is asked to decide on an offer. -/
  offers : Bool
  /-- What will be sent. -/
  frames : List ReceiverFrame

def Done.outlook (idHex : String) (storage : KeyValueStorage) (registered : Bool) :
    Done → Outlook
  | send frame => { storage, registered, offers := false, frames := frame.toList }
  | offer => { storage, registered, offers := true, frames := [] }
  | accepted window =>
    { storage
      registered := true
      offers := false
      frames := [.response none, .bulkAck { ackSeq := 0, window }] }
  | resumed ackedCount =>
    { storage
      registered := true
      offers := false
      frames := [.bulkAck
        { ackSeq := ackedCount, window := countAt storage (windowKey idHex) }] }
  | completed _ => { storage, registered, offers := false, frames := [] }

/-- What the program will have done. -/
def Receiver.outlookOf (idHex : String) (r : Receiver) (program : StorageM Done) : Outlook :=
  (program.exec r.storage).2.outlook idHex (program.exec r.storage).1 r.registered

theorem Receiver.outlookOf_eq {idHex : String} {r : Receiver} {program : StorageM Done}
    {storage : KeyValueStorage} {done : Done} (h : program.exec r.storage = (storage, done)) :
    r.outlookOf idHex program = done.outlook idHex storage r.registered := by
  rw [outlookOf, h]

def Receiver.outlook (idHex : String) (r : Receiver) : Outlook :=
  match r.task with
  | .idle => Done.outlook idHex r.storage r.registered (.send none)
  | .offered => Done.outlook idHex r.storage r.registered .offer
  | .busy program => r.outlookOf idHex program
  | .responded window =>
    Done.outlook idHex r.storage r.registered (.send (some (.bulkAck { ackSeq := 0, window })))

/-- The registration is the only thing that is lost. -/
theorem Receiver.outlook_deregister (idHex : String) (r : Receiver) :
    ∃ registered : Bool, (registered → (r.outlook idHex).registered) ∧
      { r with registered := false }.outlook idHex =
        { r.outlook idHex with registered } := by
  obtain ⟨storage, registered, task, completed⟩ := r
  cases task with
  | idle | offered | responded => exact ⟨false, Bool.noConfusion, rfl⟩
  | busy program =>
    simp only [outlook, outlookOf]
    cases (program.exec storage).2 with
    | send | offer | completed => exact ⟨false, Bool.noConfusion, rfl⟩
    | accepted | resumed => exact ⟨true, fun _ => rfl, rfl⟩

/-- A frame is a chunk to be stored, or it is not. -/
theorem onFrame_cases (idHex : String) (digestOf : Bytes → Bytes) (registered : Bool)
    (frame : SenderFrame) :
    (registered → frame.dataSeq = none) ∨ ∃ seq bytes, registered = true ∧
      frame = .bulkData seq bytes ∧
      onFrame idHex digestOf registered frame = persist idHex seq bytes := by
  cases frame with
  | bulkOpen => exact .inl fun _ => rfl
  | bulkEnd digest => exact .inl fun _ => rfl
  | bulkData seq bytes =>
    cases registered with
    | false => exact .inl Bool.noConfusion
    | true => exact .inr ⟨seq, bytes, rfl, rfl, rfl⟩

/-- A frame that is not a chunk to be stored leaves the storage as it is, and is not acked. A
    transfer with an opener is not offered again. -/
theorem Receiver.outlookOf_onFrame (idHex : String) (digestOf : Bytes → Bytes) (r : Receiver)
    {frame : SenderFrame} (hframe : r.registered → frame.dataSeq = none) :
    ∃ offers frames, r.outlookOf idHex (onFrame idHex digestOf r.registered frame) =
        { storage := r.storage, registered := r.registered, offers, frames } ∧
      acksOf frames = [] ∧ ((r.storage.lookup (openerKey idHex)).isSome → offers = false) := by
  obtain ⟨storage, registered, task, completed⟩ := r
  cases frame with
  | bulkOpen =>
    simp only [outlookOf, onFrame, exec_handleBulkOpen]
    cases hopener : storage.lookup (openerKey idHex) with
    | none => exact ⟨true, [], rfl, rfl, fun h => by simp at h⟩
    | some opener => exact ⟨false, [.response (some "already_exists")], rfl, rfl, fun _ => rfl⟩
  | bulkData seq bytes =>
    cases registered with
    | false => exact ⟨false, [], rfl, rfl, fun _ => rfl⟩
    | true => simp [SenderFrame.dataSeq] at hframe
  | bulkEnd digest =>
    cases registered with
    | false => exact ⟨false, [], rfl, rfl, fun _ => rfl⟩
    | true =>
      obtain ⟨result, hexec⟩ := exec_verify idHex storage digestOf digest
      refine ⟨false, [], ?_, rfl, fun _ => rfl⟩
      simp [outlookOf, onFrame, hexec, Done.outlook]

/-- The frame is sent first. -/
def Outlook.after (o : Outlook) (frame : Option ReceiverFrame) : Outlook :=
  { o with frames := frame.toList ++ o.frames }

theorem Receiver.outlook_finish (idHex : String) (r : Receiver) (done : Done) :
    ((r.finish idHex done).1.outlook idHex).after (r.finish idHex done).2 =
      done.outlook idHex r.storage r.registered := by
  cases done with
  | send frame => cases frame <;> rfl
  | offer => rfl
  | accepted window => rfl
  | resumed ackedCount => rfl
  | completed result => rfl

theorem Receiver.outlook_work (idHex : String) (r : Receiver) :
    ((r.work idHex).1.outlook idHex).after (r.work idHex).2 = r.outlook idHex := by
  obtain ⟨storage, registered, task, completed⟩ := r
  cases task with
  | idle => rfl
  | offered => rfl
  | responded window => rfl
  | busy program =>
    cases program with
    | ret done => exact Receiver.outlook_finish idHex _ done
    | get key next => rfl
    | set key value next => rfl

end WireMesh.TypeScript.Bulk
