import WireMesh.TypeScript.BulkReceiver

/-!
# The credit of a bulk sender

How the counters of a bulk sender are related to what the receiver has stored, as long as the
connection has not ended. The chunks that the sender has sent are numbered from the first ack on,
and so are the acks, one for each chunk that the receiver has stored (`Streaming`). What the sender
takes for unacked are the chunks from the last ack on that it has used, whatever acks it has
dropped (`Live`).

* `Stage.Tracks`: what the sender knows at each of its stages.
* `Flow.next`: every event keeps it.
-/

namespace WireMesh.TypeScript.Bulk

open Machine StorageProgram

/-! ## What is in flight -/

def lengthAt (source : List Bytes) (seq : ℕ) : ℕ := (source.getD seq []).length

/-- The chunks from a number on. -/
def unacked (source : List Bytes) (first count : ℕ) : List Unacked :=
  (List.range' first count).map fun seq => { seq, length := lengthAt source seq }

def totalLength (chunks : List Unacked) : ℕ := (chunks.map Unacked.length).sum

theorem retire_unacked (source : List Bytes) {acked acked' count : ℕ} (hle : acked ≤ acked')
    (hcount : acked' ≤ acked + count) :
    Stream.retire acked' (unacked source acked count) (totalLength (unacked source acked count)) =
      (unacked source acked' (acked + count - acked'),
        totalLength (unacked source acked' (acked + count - acked'))) := by
  induction count generalizing acked with
  | zero => grind [unacked, Stream.retire]
  | succ count ih =>
    obtain rfl | hlt := hle.eq_or_lt
    · -- The first chunk is not covered.
      simp [unacked, Stream.retire, List.range'_succ]
    · have hrest := ih hlt (by omega)
      have hlength : acked + 1 + count = acked + (count + 1) := by omega
      simpa [unacked, Stream.retire, List.range'_succ, hlt, totalLength, hlength] using hrest

/-- The counters of a stream that began at `first`, when `arrived` acks have arrived. -/
@[grind cases]
structure Live (source : List Bytes) (first window arrived : ℕ) (s : Stream) : Prop where
  first_le : first ≤ s.ackedCount
  acked_lt : s.ackedCount < first + arrived
  acked_le : s.ackedCount ≤ s.seq
  window : s.window = window
  inFlight : s.inFlight = unacked source s.ackedCount (s.seq - s.ackedCount)
  bytesInFlight : s.bytesInFlight = totalLength s.inFlight

namespace Live

variable {source : List Bytes} {first window arrived : ℕ} {s : Stream} {ack : BulkAckFrame}

theorem start (harrived : 0 < arrived) :
    Live source first window arrived (.start { ackSeq := first, window }) where
  first_le := le_rfl
  acked_lt := Nat.lt_add_of_pos_right harrived
  acked_le := le_rfl
  window := rfl
  inFlight := by simp [Stream.start, unacked]
  bytesInFlight := rfl

theorem mono (h : Live source first window arrived s) {arrived' : ℕ} (hle : arrived ≤ arrived') :
    Live source first window arrived' s :=
  { h with acked_lt := h.acked_lt.trans_le (Nat.add_le_add_left hle first) }

theorem applyAck (h : Live source first window arrived s) (hwindow : ack.window = window)
    (hlater : s.ackedCount ≤ ack.ackSeq) (hsent : ack.ackSeq ≤ s.seq)
    (harrived : ack.ackSeq < first + arrived) :
    Live source first window arrived (s.applyAck ack) := by
  constructor <;> grind [retire_unacked, Stream.applyAck]

theorem push (h : Live source first window arrived s) {chunk : Bytes} {rest : List Bytes}
    (hchunk : chunk :: rest = source.drop s.seq) :
    Live source first window arrived (s.push chunk.length) := by
  have hlength : lengthAt source s.seq = chunk.length := by
    rw [lengthAt, List.getD_eq_getElem?_getD, (cons_eq_drop hchunk).1, Option.getD_some]
  have hcount : s.seq + 1 - s.ackedCount = s.seq - s.ackedCount + 1 := by
    have := h.acked_le
    omega
  have hinFlight : (s.push chunk.length).inFlight =
      unacked source s.ackedCount (s.seq + 1 - s.ackedCount) := by
    have hlast : s.ackedCount + (s.seq - s.ackedCount) = s.seq :=
      Nat.add_sub_cancel' h.acked_le
    simp [Stream.push, h.inFlight, unacked, hcount, List.range'_1_concat, hlast, hlength]
  exact
    { h with
      acked_le := h.acked_le.trans (Nat.le_succ _)
      inFlight := hinFlight
      bytesInFlight := by simp [Stream.push, h.bytesInFlight, totalLength] }

end Live

/-! ## Stages -/

namespace Stage

/-- The sender has not used an ack. -/
def Early : Stage → Prop
  | idle => True
  | opening => True
  | accepted => True
  | starting => True
  | settled outcome => outcome.status ≠ .complete
  | failed => True
  | _ => False

/-- What the sender knows of a stream that began at `first`, when it has sent `sent` chunks and
    `arrived` acks have arrived. -/
def Tracks (source : List Bytes) (first window sent arrived : ℕ) : Stage → Prop
  | idle => sent = 0
  | opening => sent = 0
  | accepted => sent = 0
  | starting => sent = 0
  | started ack => sent = 0 ∧ ack = { ackSeq := first, window } ∧ 0 < arrived
  | pulling s rest =>
    Live source first window arrived s ∧ s.seq = first + sent ∧ rest = source.drop s.seq
  | crediting s chunk rest =>
    Live source first window arrived s ∧ s.seq = first + sent ∧
      chunk :: rest = source.drop s.seq ∧ s.ExceedsWindow chunk.length
  | credited s chunk rest ack =>
    Live source first window arrived s ∧ s.seq = first + sent ∧
      chunk :: rest = source.drop s.seq ∧ ack.window = window ∧
      s.ackedCount ≤ ack.ackSeq ∧ ack.ackSeq ≤ s.seq ∧ ack.ackSeq < first + arrived
  | sending s chunk rest =>
    Live source first window arrived s ∧ s.seq + 1 = first + sent ∧
      chunk :: rest = source.drop s.seq
  | digesting s => s.seq = first + sent ∧ source.length ≤ s.seq
  | ending s => s.seq = first + sent ∧ source.length ≤ s.seq
  | settled outcome =>
    outcome.status = .complete → outcome.ackedCount = first + sent ∧ source.length ≤ first + sent
  | failed => True

variable {source : List Bytes} {digestOf : Bytes → Bytes} {cancelled : Bool}
  {first window sent arrived : ℕ} {stage : Stage}

theorem Early.tracks (h : stage.Early) : stage.Tracks source first window 0 arrived := by
  cases stage with
  | settled outcome => exact fun hcomplete => absurd hcomplete h
  | idle | opening | accepted | starting => rfl
  | failed => trivial
  | _ => exact h.elim

variable (source digestOf cancelled) in
theorem Early.resume (h : stage.Early) :
    (stage.resume source digestOf cancelled).1.Early ∧
      (stage.resume source digestOf cancelled).2 = none := by
  cases stage with
  | settled outcome => exact ⟨h, rfl⟩
  | idle | opening | accepted | starting | failed => exact ⟨trivial, rfl⟩
  | _ => exact h.elim

theorem Early.fail (h : stage.Early) : stage.fail.Early := by
  cases stage with
  | settled outcome => exact h
  | idle | opening | accepted | starting | failed => trivial
  | _ => exact h.elim

theorem Early.onResponse (h : stage.Early) (code : Option String) :
    (stage.onResponse code).Early := by
  cases stage with
  | opening =>
    cases code with
    | none => trivial
    | some code => exact Status.noConfusion
  | settled outcome => exact h
  | idle | accepted | starting | failed => trivial
  | _ => exact h.elim

theorem Tracks.fail (h : stage.Tracks source first window sent arrived) :
    stage.fail.Tracks source first window sent arrived := by
  cases stage with
  | opening | digesting | ending => trivial
  | pulling | sending => exact Status.noConfusion
  | _ => exact h

theorem Tracks.onResponse (h : stage.Tracks source first window sent arrived)
    (code : Option String) : (stage.onResponse code).Tracks source first window sent arrived := by
  cases stage with
  | opening =>
    cases code with
    | none => exact h
    | some code => exact Status.noConfusion
  | _ => exact h

/-- The ack that arrives is the next one. -/
theorem Tracks.onAck (h : stage.Tracks source first window sent arrived)
    (hsent : arrived ≤ sent) :
    (stage.onAck { ackSeq := first + arrived, window }).Tracks source first window sent
      (arrived + 1) := by
  have hmore : arrived ≤ arrived + 1 := Nat.le_succ _
  cases stage with
  | starting =>
    obtain rfl : sent = 0 := h
    obtain rfl : arrived = 0 := by omega
    exact ⟨rfl, rfl, Nat.one_pos⟩
  | started ack => exact ⟨h.1, h.2.1, Nat.succ_pos _⟩
  | pulling s rest => exact ⟨h.1.mono hmore, h.2⟩
  | crediting s chunk rest =>
    obtain ⟨hlive, hseq, hchunk, -⟩ := h
    refine ⟨hlive.mono hmore, hseq, hchunk, rfl, hlive.acked_lt.le, ?_, ?_⟩
    · simpa only [hseq] using Nat.add_le_add_left hsent first
    · simp only
      omega
  | credited s chunk rest ack =>
    obtain ⟨hlive, hseq, hchunk, hwindow, hlater, hle, hlt⟩ := h
    exact ⟨hlive.mono hmore, hseq, hchunk, hwindow, hlater, hle, by omega⟩
  | sending s chunk rest => exact ⟨h.1.mono hmore, h.2⟩
  | _ => exact h

/-- The stage and the frame after a step: the chunks that it sends are the next ones. -/
def TracksStep (source : List Bytes) (first window sent arrived : ℕ)
    (step : Stage × Option SenderFrame) : Prop :=
  ∃ count, dataSeqs step.2.toList = List.range' (first + sent) count ∧
    step.1.Tracks source first window (sent + count) arrived

theorem Tracks.step (h : stage.Tracks source first window sent arrived) :
    TracksStep source first window sent arrived (stage, none) :=
  ⟨0, rfl, h⟩

theorem tracksStep_sendChunk {s : Stream} {chunk : Bytes} {rest : List Bytes}
    (hlive : Live source first window arrived s) (hseq : s.seq = first + sent)
    (hchunk : chunk :: rest = source.drop s.seq) :
    TracksStep source first window sent arrived (sendChunk s chunk rest) := by
  unfold sendChunk
  split_ifs with hexceeds
  · exact Tracks.step ⟨hlive, hseq, hchunk, hexceeds⟩
  · refine ⟨1, ?_, hlive, by omega, hchunk⟩
    simp [SenderFrame.dataSeq, hseq]

theorem Tracks.resume (h : stage.Tracks source first window sent arrived) :
    TracksStep source first window sent arrived (stage.resume source digestOf cancelled) := by
  cases stage with
  | accepted => exact Tracks.step h
  | started ack =>
    obtain ⟨rfl, rfl, harrived⟩ := h
    exact Tracks.step ⟨.start harrived, rfl, rfl⟩
  | pulling s rest =>
    obtain ⟨hlive, hseq, hrest⟩ := h
    cases rest with
    | nil => exact Tracks.step ⟨hseq, List.drop_eq_nil_iff.1 hrest.symm⟩
    | cons chunk rest =>
      cases cancelled with
      | true => exact Tracks.step Status.noConfusion
      | false => exact tracksStep_sendChunk hlive hseq hrest
  | credited s chunk rest ack =>
    obtain ⟨hlive, hseq, hchunk, hwindow, hlater, hle, hlt⟩ := h
    exact tracksStep_sendChunk (hlive.applyAck hwindow hlater hle hlt) hseq hchunk
  | sending s chunk rest =>
    obtain ⟨hlive, hseq, hchunk⟩ := h
    exact Tracks.step ⟨hlive.push hchunk, hseq, (cons_eq_drop hchunk).2⟩
  | digesting s => exact ⟨0, rfl, h⟩
  | ending s =>
    obtain ⟨hseq, hall⟩ := h
    exact Tracks.step fun _ => ⟨hseq, hseq ▸ hall⟩
  | _ => exact Tracks.step h

end Stage

/-! ## Frames -/

/-- Consecutive acks with one window. -/
def ackRun (first window count : ℕ) : List BulkAckFrame :=
  (List.range' first count).map fun ackSeq => { ackSeq, window }

theorem ackRun_succ (first window count : ℕ) :
    ackRun first window (count + 1) =
      ackRun first window count ++ [{ ackSeq := first + count, window }] := by
  simp [ackRun, List.range'_1_concat]

/-- The number after the ones that have arrived. -/
theorem range'_next {first count n : ℕ} {before after : List ℕ}
    (h : before ++ n :: after = List.range' first count) :
    n = first + before.length ∧ before.length < count := by grind

theorem ackRun_next {first window count : ℕ} {before after : List BulkAckFrame}
    {ack : BulkAckFrame} (h : before ++ ack :: after = ackRun first window count) :
    ack = { ackSeq := first + before.length, window } ∧ before.length < count := by
  obtain ⟨seqs, later, hrange, rfl, hlater⟩ := List.map_eq_append_iff.1 h.symm
  grind [List.map_eq_cons_iff]

variable {t : Transfer}

namespace State

/-- What the receiver will have done with the frames that have arrived. -/
def outlook (t : Transfer) (x : State) : Outlook := x.receiver.outlook t.idHex

/-- The acks that have been sent, and those that will be for what has arrived. -/
def acks (t : Transfer) (x : State) : List BulkAckFrame :=
  acksOf (x.inbound.sent ++ (x.outlook t).frames)

end State

/-! ## The flow of chunks and acks -/

/-- The receiver has not begun to ack. -/
@[grind cases]
structure Beginning (t : Transfer) (x : State) : Prop where
  acks : x.acks t = []
  data : dataSeqs x.outbound.sent = []
  sender : x.sender.Early

/-- The receiver has begun to ack at `first`; it has stored `stored` of the `sent` chunks. -/
@[grind cases]
structure Streaming (t : Transfer) (x : State) (first window stored sent : ℕ) : Prop where
  acks : x.acks t = ackRun first window (stored + 1)
  data : dataSeqs x.outbound.sent = List.range' first sent
  stored_le : stored ≤ sent
  handled : (x.outlook t).registered → (dataSeqs x.outbound.arrived).length = stored
  count : countAt (x.outlook t).storage (ackSeqKey t.idHex) = first + stored
  windowAt : countAt (x.outlook t).storage (windowKey t.idHex) = window
  opener : ((x.outlook t).storage.lookup (openerKey t.idHex)).isSome
  offers : (x.outlook t).offers = false
  sender : x.sender.Tracks t.source first window sent (acksOf x.inbound.arrived).length

/-- As long as the connection has not ended. -/
def Flow (t : Transfer) (x : State) : Prop :=
  x.ended = false →
    Beginning t x ∨ ∃ first window stored sent, Streaming t x first window stored sent

variable {x : State} {first window stored sent : ℕ}

/-! ### Steps of the sender -/

theorem send_eq (hended : x.ended = false) (stage : Stage) (frame : Option SenderFrame) :
    x.send stage frame =
      { x with
        sender := stage
        outbound := x.outbound.put frame } := by
  cases frame with
  | none => simp [State.send, Link.put]
  | some frame => simp [State.send, hended]

theorem Beginning.send (h : Beginning t x) (hended : x.ended = false) {stage : Stage}
    {frame : Option SenderFrame} (hstage : stage.Early) (hframe : dataSeqs frame.toList = []) :
    Beginning t (x.send stage frame) := by
  rw [send_eq hended]
  refine ⟨h.acks, ?_, hstage⟩
  grind [Link.sent_put, dataSeqs_append]

theorem Streaming.send (h : Streaming t x first window stored sent) (hended : x.ended = false)
    {step : Stage × Option SenderFrame}
    (hstep : Stage.TracksStep t.source first window sent (acksOf x.inbound.arrived).length step) :
    ∃ sent, Streaming t (x.send step.1 step.2) first window stored sent := by
  obtain ⟨count, hdata, hstage⟩ := hstep
  refine ⟨sent + count, ?_⟩
  rw [send_eq hended]
  have hsent : dataSeqs (x.outbound.put step.2).sent = List.range' first (sent + count) := by
    rw [Link.sent_put, dataSeqs_append, h.data, hdata, List.range'_append_1]
  exact
    { h with
      data := hsent
      stored_le := h.stored_le.trans (Nat.le_add_right _ _)
      sender := hstage }

/-- A frame that has arrived has been sent before. -/
theorem acks_pop {frame : ReceiverFrame} {queue : List ReceiverFrame}
    (hqueue : x.inbound.queue = frame :: queue) :
    acksOf ((x.inbound.pop frame queue).sent ++ (x.outlook t).frames) = x.acks t := by
  rw [Link.sent_pop hqueue, State.acks]

theorem Beginning.deliver (h : Beginning t x) {frame : ReceiverFrame} {queue : List ReceiverFrame}
    (hqueue : x.inbound.queue = frame :: queue) :
    Beginning t
      { x with
        sender := x.sender.onFrame frame
        inbound := x.inbound.pop frame queue } := by
  refine ⟨(acks_pop hqueue).trans h.acks, h.data, ?_⟩
  cases frame with
  | response code => exact h.sender.onResponse code
  | bulkAck ack =>
    have hack : ack ∈ x.acks t := mem_acksOf.2 (List.mem_append_left _ (Link.mem_sent hqueue))
    simp [h.acks] at hack

/-- The ack that comes next. -/
theorem Streaming.ack_next (h : Streaming t x first window stored sent) {ack : BulkAckFrame}
    {queue : List ReceiverFrame} (hqueue : x.inbound.queue = .bulkAck ack :: queue) :
    ack = { ackSeq := first + (acksOf x.inbound.arrived).length, window } ∧
      (acksOf x.inbound.arrived).length ≤ stored := by
  have hacks := h.acks
  rw [State.acks, ← Link.sent_pop hqueue, Link.sent, Link.pop] at hacks
  simp only [acksOf_append, acksOf_cons, ReceiverFrame.ack, Option.toList_some,
    List.append_assoc, List.singleton_append] at hacks
  exact (ackRun_next hacks).imp id Nat.lt_succ_iff.1

theorem Streaming.deliver (h : Streaming t x first window stored sent) {frame : ReceiverFrame}
    {queue : List ReceiverFrame} (hqueue : x.inbound.queue = frame :: queue) :
    Streaming t
      { x with
        sender := x.sender.onFrame frame
        inbound := x.inbound.pop frame queue }
      first window stored sent := by
  refine
    { h with
      acks := (acks_pop hqueue).trans h.acks
      sender := ?_ }
  cases frame with
  | response code =>
    simpa [Link.pop, ReceiverFrame.ack, Stage.onFrame] using h.sender.onResponse code
  | bulkAck ack =>
    obtain ⟨rfl, hle⟩ := h.ack_next hqueue
    have hle := hle.trans h.stored_le
    simpa [Link.pop, ReceiverFrame.ack, Stage.onFrame] using h.sender.onAck hle

/-! ### Steps of the receiver -/

theorem outlook_reply_work (hended : x.ended = false) :
    ((next t x .work).outlook t).after (x.receiver.work t.idHex).2 = x.outlook t ∧
      (next t x .work).acks t = x.acks t := by
  have houtlook : ((next t x .work).outlook t).after (x.receiver.work t.idHex).2 = x.outlook t :=
    x.receiver.outlook_work t.idHex
  refine ⟨houtlook, ?_⟩
  rw [State.acks, State.acks, ← houtlook]
  simp [next, State.reply, hended, Outlook.after, State.outlook]

theorem Beginning.work (h : Beginning t x) (hended : x.ended = false) :
    Beginning t (next t x .work) :=
  ⟨(outlook_reply_work hended).2.trans h.acks, h.data, h.sender⟩

theorem Streaming.work (h : Streaming t x first window stored sent) (hended : x.ended = false) :
    Streaming t (next t x .work) first window stored sent := by
  obtain ⟨houtlook, hacks⟩ := outlook_reply_work (t := t) hended
  have harrived : (next t x .work).inbound.arrived = x.inbound.arrived := by
    simp [next, State.reply, hended, Link.put]
  obtain ⟨hrun, hdata, hle, hhandled, hcount, hwindow, hopener, hoffers, hsender⟩ := h
  rw [← houtlook] at hhandled hcount hwindow hopener hoffers
  exact ⟨hacks.trans hrun, hdata, hle, hhandled, hcount, hwindow, hopener, hoffers,
    harrived ▸ hsender⟩

theorem outlook_idle (hidle : x.receiver.task = .idle) :
    x.outlook t =
      { storage := x.receiver.storage
        registered := x.receiver.registered
        offers := false
        frames := [] } := by
  rw [State.outlook, Receiver.outlook, hidle]
  rfl

section Receive

variable {program : StorageM Done} {frame : SenderFrame} {queue : List SenderFrame}

/-- The frame is not a chunk to be stored, and no ack is sent for it. -/
theorem Streaming.take_quiet (h : Streaming t x first window stored sent)
    (hidle : x.receiver.task = .idle) (hqueue : x.outbound.queue = frame :: queue)
    (hframe : x.receiver.registered → frame.dataSeq = none) {frames : List ReceiverFrame}
    (hprogram : x.receiver.outlookOf t.idHex program =
      { x.outlook t with frames }) (hacks : acksOf frames = []) :
    Streaming t (x.take program frame queue) first window stored sent := by
  have houtlook : (x.take program frame queue).outlook t = { x.outlook t with frames } := hprogram
  obtain ⟨hrun, hdata, hle, hhandled, hcount, hwindow, hopener, hoffers, hsender⟩ := h
  refine ⟨?_, (congrArg dataSeqs (Link.sent_pop hqueue)).trans hdata, hle, ?_, houtlook ▸ hcount,
    houtlook ▸ hwindow, houtlook ▸ hopener, houtlook ▸ hoffers, hsender⟩
  · rw [← hrun, State.acks, State.acks, houtlook, outlook_idle hidle]
    simpa [State.take, State.begin, Link.pop] using hacks
  · intro hregistered
    rw [houtlook] at hregistered
    have hnone := hframe (by rwa [outlook_idle hidle] at hregistered)
    simpa [State.take, Link.pop, hnone] using hhandled hregistered

/-- The chunk that arrives is the one that comes next. -/
theorem Streaming.take_data (h : Streaming t x first window stored sent)
    (hidle : x.receiver.task = .idle) (hregistered : x.receiver.registered = true) {seq : ℕ}
    {bytes : Bytes} (hqueue : x.outbound.queue = .bulkData seq bytes :: queue) :
    Streaming t (x.take (persist t.idHex seq bytes) (.bulkData seq bytes) queue) first window
      (stored + 1) sent := by
  have hidleOutlook := outlook_idle (t := t) hidle
  obtain ⟨hrun, hdata, hle, hhandled, hcount, hwindow, hopener, hoffers, hsender⟩ := h
  rw [hidleOutlook] at hhandled hcount hwindow hopener
  have harrived := hhandled hregistered
  -- The number of the chunk is that of the chunks that have arrived before.
  have hseqs : dataSeqs x.outbound.arrived ++ seq :: dataSeqs queue = List.range' first sent := by
    rw [← hdata]
    simp [Link.sent, hqueue, SenderFrame.dataSeq]
  obtain ⟨hseq, hlt⟩ := range'_next hseqs
  rw [harrived] at hseq hlt
  have hwindow' : countAt (Bulk.stored t.idHex x.receiver.storage seq bytes)
      (windowKey t.idHex) = window := by
    grind [stored, ackSeqKey_ne_windowKey, countAt, AList.lookup_insert_ne, chunkKey_ne_windowKey]
  have houtlook : (x.take (persist t.idHex seq bytes) (.bulkData seq bytes) queue).outlook t =
      { storage := Bulk.stored t.idHex x.receiver.storage seq bytes
        registered := x.receiver.registered
        offers := false
        frames := [.bulkAck { ackSeq := seq + 1, window }] } := by
    change x.receiver.outlookOf t.idHex (persist t.idHex seq bytes) = _
    rw [Receiver.outlookOf, exec_persist, if_pos (hseq.trans hcount.symm), hwindow']
    rfl
  refine ⟨?_, (congrArg dataSeqs (Link.sent_pop hqueue)).trans hdata, hlt, ?_, ?_,
    houtlook ▸ hwindow', ?_, houtlook ▸ rfl, hsender⟩
  · rw [ackRun_succ, ← hrun, State.acks, State.acks, houtlook, hidleOutlook]
    simp [State.take, State.begin, ReceiverFrame.ack, hseq, Nat.add_assoc]
  · intro _
    simp [State.take, Link.pop, SenderFrame.dataSeq, harrived]
  · rw [houtlook, Bulk.stored, countAt_insert, if_pos rfl, hseq, Nat.add_assoc]
  · grind [stored, AList.lookup_insert_ne, ackSeqKey_ne_openerKey, chunkKey_ne_openerKey]

theorem Streaming.receive (h : Streaming t x first window stored sent)
    (hidle : x.receiver.task = .idle) (hqueue : x.outbound.queue = frame :: queue) :
    ∃ stored, Streaming t
      (x.take (onFrame t.idHex t.digestOf x.receiver.registered frame) frame queue)
      first window stored sent := by
  obtain hframe | ⟨seq, bytes, hregistered, rfl, honFrame⟩ :=
    onFrame_cases t.idHex t.digestOf x.receiver.registered frame
  · obtain ⟨offers, frames, houtlook, hacks, hoffers⟩ :=
      x.receiver.outlookOf_onFrame t.idHex t.digestOf hframe
    have hopener := h.opener
    rw [outlook_idle hidle] at hopener
    refine ⟨stored, h.take_quiet hidle hqueue hframe ?_ hacks⟩
    rw [houtlook, hoffers hopener, outlook_idle hidle]
  · rw [honFrame]
    exact ⟨stored + 1, h.take_data hidle hregistered hqueue⟩

theorem Beginning.receive (h : Beginning t x) (hidle : x.receiver.task = .idle)
    (hqueue : x.outbound.queue = frame :: queue) :
    Beginning t
      (x.take (onFrame t.idHex t.digestOf x.receiver.registered frame) frame queue) := by
  have hnone : frame.dataSeq = none := by
    have hdata := h.data
    rw [Link.sent, hqueue, dataSeqs_append, dataSeqs_cons] at hdata
    simpa using (List.append_eq_nil_iff.1 (List.append_eq_nil_iff.1 hdata).2).1
  obtain ⟨offers, frames, houtlook, hframes, -⟩ :=
    x.receiver.outlookOf_onFrame t.idHex t.digestOf fun _ => hnone
  refine ⟨?_, (congrArg dataSeqs (Link.sent_pop hqueue)).trans h.data, h.sender⟩
  have hacks := h.acks
  rw [State.acks, outlook_idle hidle] at hacks
  have hframes' : ((x.take (onFrame t.idHex t.digestOf x.receiver.registered frame) frame
      queue).outlook t).frames = frames := congrArg Outlook.frames houtlook
  grind [State.acks, acksOf_append, State.take, State.begin]

end Receive

/-- The receiver begins to send the first ack. -/
theorem Beginning.streaming (h : Beginning t x) (hquiet : (x.outlook t).frames = [])
    {program : StorageM Done} {o : Outlook} (houtlook : x.receiver.outlookOf t.idHex program = o)
    (hacks : acksOf o.frames = [{ ackSeq := first, window }])
    (hcount : countAt o.storage (ackSeqKey t.idHex) = first)
    (hwindow : countAt o.storage (windowKey t.idHex) = window)
    (hopener : (o.storage.lookup (openerKey t.idHex)).isSome) (hoffers : o.offers = false) :
    Streaming t (x.begin program) first window 0 0 := by
  have houtlook : (x.begin program).outlook t = o := houtlook
  have harrived : dataSeqs x.outbound.arrived = [] := by
    grind [Link.sent, dataSeqs_append, List.append_eq_nil_iff]
  have hsent := h.acks
  rw [State.acks, hquiet, List.append_nil] at hsent
  refine ⟨?_, h.data, le_rfl, fun _ => congrArg List.length harrived, houtlook ▸ hcount,
    houtlook ▸ hwindow, houtlook ▸ hopener, houtlook ▸ hoffers, h.sender.tracks⟩
  have hinbound : (x.begin program).inbound = x.inbound := rfl
  rw [State.acks, houtlook, hinbound, acksOf_append, hsent, hacks]
  rfl

theorem Beginning.accept (h : Beginning t x) (hoffered : x.receiver.task = .offered)
    (window : ℕ) : Streaming t (x.begin (accept t.idHex t.opener window)) 0 window 0 0 := by
  have hquiet : (x.outlook t).frames = [] := by
    rw [State.outlook, Receiver.outlook, hoffered]
    rfl
  apply h.streaming hquiet (Receiver.outlookOf_eq (exec_accept ..))
  · rfl
  · simp [Done.outlook, countAt_insert, ackSeqKey_ne_windowKey]
  · simp [Done.outlook, countAt_insert]
  · simp [Done.outlook, AList.lookup_insert_ne windowKey_ne_openerKey.symm,
      AList.lookup_insert_ne ackSeqKey_ne_openerKey.symm]
  · rfl

theorem Beginning.requestResume (h : Beginning t x) (hidle : x.receiver.task = .idle)
    {existing : Bool}
    (hopener : existing → (x.receiver.storage.lookup (openerKey t.idHex)).isSome) :
    Beginning t (x.begin (Bulk.requestResume t.idHex existing)) ∨
      ∃ first window, Streaming t (x.begin (Bulk.requestResume t.idHex existing)) first window
        0 0 := by
  have hquiet : (x.outlook t).frames = [] := by rw [outlook_idle hidle]
  have hexec := exec_requestResume t.idHex x.receiver.storage existing
  by_cases hunknown : !existing && (x.receiver.storage.lookup (openerKey t.idHex)).isNone
  · rw [if_pos hunknown] at hexec
    refine .inl ⟨?_, h.data, h.sender⟩
    have hframes : ((x.begin (Bulk.requestResume t.idHex existing)).outlook t).frames = [] := by
      change (x.receiver.outlookOf t.idHex _).frames = []
      rw [Receiver.outlookOf_eq hexec]
      rfl
    have hacks := h.acks
    rwa [State.acks, hquiet, ← hframes] at hacks
  · rw [if_neg hunknown] at hexec
    have hknown : (x.receiver.storage.lookup (openerKey t.idHex)).isSome := by grind
    exact .inr ⟨_, _, h.streaming hquiet (Receiver.outlookOf_eq hexec) rfl rfl rfl hknown rfl⟩

theorem Beginning.deregister (h : Beginning t x) : Beginning t (next t x .deregister) := by
  obtain ⟨registered, -, houtlook⟩ := x.receiver.outlook_deregister t.idHex
  constructor <;> grind [Bulk.next, State.outlook, State.acks]

theorem Streaming.deregister (h : Streaming t x first window stored sent) :
    Streaming t (next t x .deregister) first window stored sent := by
  obtain ⟨registered, hregistered, houtlook⟩ := x.receiver.outlook_deregister t.idHex
  constructor <;> grind [Bulk.next, State.outlook, State.acks]

/-! ### Runs -/

/-- No ack has arrived. -/
theorem Beginning.arrived (h : Beginning t x) : acksOf x.inbound.arrived = [] := by
  grind [State.acks, Link.sent, acksOf_append, List.append_eq_nil_iff]

/-- The receiver has begun to ack, and the sender does not know it yet. -/
def Begun (t : Transfer) (x : State) : Prop :=
  (∃ first window, Streaming t x first window 0 0) ∧ x.sender.Early ∧
    acksOf x.inbound.arrived = []

theorem Beginning.next (h : Beginning t x) (hended : x.ended = false) (e : Event) :
    Beginning t (Bulk.next t x e) ∨ Begun t (Bulk.next t x e) := by
  cases e with
  | openTransfer =>
    simp only [Bulk.next]
    split
    · exact .inl (h.send hended trivial rfl)
    · exact .inl h
  | continueFrom =>
    simp only [Bulk.next]
    split
    · exact .inl (h.send hended trivial rfl)
    · exact .inl h
  | resume =>
    have hstage := h.sender.resume t.source t.digestOf x.cancelled
    exact .inl (h.send hended hstage.1 (by rw [hstage.2]; rfl))
  | fail => exact .inl ⟨h.acks, h.data, h.sender.fail⟩
  | timeout => exact .inl ⟨h.acks, h.data, h.sender.onResponse (some "timeout")⟩
  | cancel => exact .inl ⟨h.acks, h.data, h.sender⟩
  | deliver => grind [Bulk.next, deliver]
  | receive => grind [Bulk.next, receive]
  | work => exact .inl (h.work hended)
  | decide decision =>
    simp only [Bulk.next]
    split
    next hoffered => exact .inr ⟨⟨0, _, h.accept hoffered _⟩, h.sender, h.arrived⟩
    next hoffered =>
      refine .inl ⟨?_, h.data, h.sender⟩
      have hacks := h.acks
      rw [State.acks, State.outlook, Receiver.outlook, hoffered] at hacks
      simpa [State.acks, State.outlook, Receiver.outlook, State.reply, hended, Done.outlook,
        ReceiverFrame.ack] using hacks
    next => exact .inl h
  | requestResume existing =>
    simp only [Bulk.next]
    split
    next hidle =>
      split_ifs with hguard
      · exact .inl h
      · have hopener : existing → (x.receiver.storage.lookup (openerKey t.idHex)).isSome := by
          grind [Option.isSome_iff_ne_none]
        exact (h.requestResume hidle hopener).imp id fun hstream => ⟨hstream, h.sender, h.arrived⟩
    next => exact .inl h
  | deregister => exact .inl h.deregister
  | disconnect => exact .inl ⟨h.acks, h.data, h.sender⟩
  | connectionEnd =>
    simp only [Bulk.next, hended]
    exact .inl h

theorem Streaming.next (h : Streaming t x first window stored sent) (hended : x.ended = false)
    (e : Event) :
    ∃ stored sent, Streaming t (Bulk.next t x e) first window stored sent := by
  cases e with
  | openTransfer =>
    simp only [Bulk.next]
    split
    next hidle =>
      have hzero : sent = 0 := by
        have hsender := h.sender
        rwa [hidle] at hsender
      have hstep : Stage.TracksStep t.source first window sent (acksOf x.inbound.arrived).length
          (.opening, some .bulkOpen) := ⟨0, rfl, hzero⟩
      exact ⟨stored, h.send hended hstep⟩
    next => exact ⟨stored, sent, h⟩
  | continueFrom =>
    simp only [Bulk.next]
    split
    next hidle =>
      have hzero : sent = 0 := by
        have hsender := h.sender
        rwa [hidle] at hsender
      have hstep : Stage.TracksStep t.source first window sent (acksOf x.inbound.arrived).length
          (.starting, none) := Stage.Tracks.step hzero
      exact ⟨stored, h.send hended hstep⟩
    next => exact ⟨stored, sent, h⟩
  | resume => exact ⟨stored, h.send hended h.sender.resume⟩
  | fail => exact ⟨stored, sent, { h with sender := h.sender.fail }⟩
  | timeout => exact ⟨stored, sent, { h with sender := h.sender.onResponse (some "timeout") }⟩
  | cancel => exact ⟨stored, sent, { h with }⟩
  | deliver =>
    simp only [Bulk.next]
    split
    next hqueue => exact ⟨stored, sent, h.deliver hqueue⟩
    next => exact ⟨stored, sent, h⟩
  | receive => grind [Bulk.next, receive]
  | work => exact ⟨stored, sent, h.work hended⟩
  | decide decision =>
    have hoffered : x.receiver.task ≠ .offered := by
      intro hoffered
      have hoffers := h.offers
      rw [State.outlook, Receiver.outlook, hoffered] at hoffers
      exact Bool.noConfusion hoffers
    simp only [Bulk.next]
    grind
  | requestResume existing =>
    simp only [Bulk.next]
    split
    next hidle =>
      have hsent : x.inbound.sent ≠ [] := by
        intro hnil
        have hacks := h.acks
        rw [State.acks, outlook_idle hidle, hnil, ackRun_succ] at hacks
        simp at hacks
      grind
    next => exact ⟨stored, sent, h⟩
  | deregister => exact ⟨stored, sent, h.deregister⟩
  | disconnect => exact ⟨stored, sent, { h with }⟩
  | connectionEnd => grind [Bulk.next]

theorem Flow.next (h : Flow t x) (e : Event) : Flow t (Bulk.next t x e) := by
  intro hnext
  have hended := ended_of_next hnext
  obtain hbegin | ⟨first, window, stored, sent, hstream⟩ := h hended
  · obtain hbegin | ⟨⟨first, window, hstream⟩, -⟩ := hbegin.next hended e
    · exact .inl hbegin
    · exact .inr ⟨first, window, 0, 0, hstream⟩
  · obtain ⟨stored, sent, hstream⟩ := hstream.next hended e
    exact .inr ⟨first, window, stored, sent, hstream⟩

end WireMesh.TypeScript.Bulk
