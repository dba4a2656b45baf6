import WireMesh.BulkCredit
import WireMesh.BulkOutcome

/-!
# The window of a bulk transfer

What a bulk sender takes for the bytes in flight, and how much it sends beyond what the receiver
has stored. Both are followed over whole runs, also when the connection has ended.

* `Paid`: what the sender has sent beyond the last ack that has arrived fits in the window.
* `Receiver.Keeps`: the receiver has stored what it has acked, and never goes back behind it.
* `credit_safe`: what has been sent beyond what is stored fits in the window.
-/

namespace WireMesh.TypeScript.Bulk

open Machine StorageProgram

/-! ## What has been sent -/

def SenderFrame.chunk : SenderFrame → Option Unacked
  | bulkData seq bytes => some { seq, length := bytes.length }
  | _ => none

/-- The chunks that are sent in the frames. -/
def chunksOf (frames : List SenderFrame) : List Unacked := frames.filterMap SenderFrame.chunk

/-- The variables of `stream`, while it runs. -/
def Stage.stream : Stage → Option Stream
  | pulling s _ => some s
  | crediting s _ _ => some s
  | credited s _ _ _ => some s
  | sending s _ _ => some s
  | digesting s => some s
  | ending s => some s
  | _ => none

theorem dataSeqs_eq (frames : List SenderFrame) :
    dataSeqs frames = (chunksOf frames).map Unacked.seq := by
  rw [dataSeqs, chunksOf, List.map_filterMap]
  congr 1
  funext frame
  cases frame <;> rfl

/-- The bytes of the chunks from one number up to another. -/
def bytesBetween (source : List Bytes) (first stop : ℕ) : ℕ :=
  totalLength (unacked source first (stop - first))

variable {source : List Bytes} {digestOf : Bytes → Bytes} {cancelled : Bool}
  {first window sent arrived stored : ℕ} {stage : Stage} {s : Stream} {t : Transfer} {x : State}

theorem bytesBetween_succ {stop : ℕ} (h : first ≤ stop) :
    bytesBetween source first (stop + 1) =
      bytesBetween source first stop + lengthAt source stop := by
  have hcount : stop + 1 - first = stop - first + 1 := by omega
  have hlast : first + (stop - first) = stop := by omega
  simp [bytesBetween, unacked, totalLength, hcount, List.range'_1_concat, hlast]

theorem bytesBetween_of_le {stop : ℕ} (h : stop ≤ first) : bytesBetween source first stop = 0 := by
  simp [bytesBetween, unacked, totalLength, Nat.sub_eq_zero_of_le h]

theorem bytesBetween_anti {first' stop : ℕ} (h : first ≤ first') :
    bytesBetween source first' stop ≤ bytesBetween source first stop := by
  induction stop with
  | zero => simp [bytesBetween_of_le]
  | succ stop ih =>
    by_cases hstop : first' ≤ stop
    · rw [bytesBetween_succ hstop, bytesBetween_succ (h.trans hstop)]
      exact Nat.add_le_add_right ih _
    · rw [bytesBetween_of_le (by omega)]
      exact Nat.zero_le _

/-- The chunks among those sent that are between two numbers. -/
theorem totalLength_filter {lower upper : ℕ} (hlower : first ≤ lower) (hle : lower ≤ upper)
    (hupper : upper ≤ first + sent) :
    totalLength ((unacked source first sent).filter fun c => lower ≤ c.seq ∧ c.seq < upper) =
      bytesBetween source lower upper := by
  obtain ⟨before, rfl⟩ := Nat.exists_eq_add_of_le hlower
  obtain ⟨count, rfl⟩ := Nat.exists_eq_add_of_le hle
  obtain ⟨after, rfl⟩ : ∃ after, sent = before + (count + after) := ⟨sent - (before + count),
      by omega⟩
  rw [unacked, ← List.range'_append_1, ← List.range'_append_1, List.filter_map,
    List.filter_append, List.filter_append, List.filter_eq_nil_iff.2, List.filter_eq_self.2,
    List.filter_eq_nil_iff.2, List.nil_append, List.append_nil, bytesBetween, unacked,
    Nat.add_sub_cancel_left]
  all_goals grind

/-! ## The sender -/

/-- What has been sent beyond the last of the acks that have arrived fits in the window. -/
@[grind cases]
structure Fits (source : List Bytes) (first window sent arrived : ℕ) : Prop where
  begun : 0 < sent → 0 < arrived
  bytes_le : bytesBetween source (first + (arrived - 1)) (first + sent) ≤ window

/-- What the sender knows, and what it has sent. -/
@[grind cases]
structure Stage.Paid (source : List Bytes) (first window sent arrived : ℕ) (stage : Stage) :
    Prop where
  tracks : stage.Tracks source first window sent arrived
  live : ∀ s ∈ stage.stream, Live source first window arrived s
  fits : Fits source first window sent arrived

/-- The sender has given up. -/
def Stage.GivenUp : Stage → Prop
  | settled outcome => outcome.status ≠ .complete
  | failed => True
  | _ => False

namespace Stage

theorem GivenUp.paid (h : stage.GivenUp)
    (hfits : Fits source first window sent arrived) :
    stage.Paid source first window sent arrived := by
  cases stage with
  | settled outcome => exact ⟨fun hcomplete => absurd hcomplete h, by simp [stream], hfits⟩
  | failed => exact ⟨trivial, by simp [stream], hfits⟩
  | _ => exact h.elim

theorem Early.paid (h : stage.Early) : stage.Paid source first window 0 0 where
  tracks := h.tracks
  live := by cases stage <;> simp_all [stream, Early]
  fits := ⟨fun h => absurd h (lt_irrefl 0), by simp [bytesBetween_of_le]⟩

namespace Paid

variable (h : stage.Paid source first window sent arrived)

include h

theorem fail : stage.fail.Paid source first window sent arrived where
  tracks := h.tracks.fail
  live := by
    cases stage with
    | opening | pulling | sending | digesting | ending => simp [stream, Stage.fail]
    | _ => exact h.live
  fits := h.fits

theorem onResponse (code : Option String) :
    (stage.onResponse code).Paid source first window sent arrived where
  tracks := h.tracks.onResponse code
  live := by
    cases stage
    case opening => cases code <;> simp [stream, Stage.onResponse]
    all_goals exact h.live
  fits := h.fits

theorem onConnectionEnd : stage.onConnectionEnd.Paid source first window sent arrived := by
  cases stage with
  | starting => exact GivenUp.paid (by trivial) h.fits
  | crediting => exact GivenUp.paid Status.noConfusion h.fits
  | _ => exact h

theorem onAck (hsent : arrived ≤ sent) :
    (stage.onAck { ackSeq := first + arrived, window }).Paid source first window sent
      (arrived + 1) where
  tracks := h.tracks.onAck hsent
  live := by
    have hlive : ∀ s ∈ stage.stream, Live source first window (arrived + 1) s :=
      fun s hs => (h.live s hs).mono (Nat.le_succ _)
    cases stage with
    | starting => simp [stream, Stage.onAck]
    | _ => exact hlive
  fits := ⟨fun _ => Nat.succ_pos _, (bytesBetween_anti (by omega)).trans h.fits.bytes_le⟩

end Paid

/-- The stage and the frame after a step: the chunks that it sends are the next ones. -/
def PaidStep (source : List Bytes) (first window sent arrived : ℕ)
    (step : Stage × Option SenderFrame) : Prop :=
  ∃ count, chunksOf step.2.toList = unacked source (first + sent) count ∧
    step.1.Paid source first window (sent + count) arrived

theorem paidStep_sendChunk {chunk : Bytes} {rest : List Bytes}
    (hlive : Live source first window arrived s) (hseq : s.seq = first + sent)
    (hchunk : chunk :: rest = source.drop s.seq)
    (hfits : Fits source first window sent arrived) :
    PaidStep source first window sent arrived (sendChunk s chunk rest) := by
  have hlength : lengthAt source s.seq = chunk.length := by
    rw [lengthAt, List.getD_eq_getElem?_getD, (cons_eq_drop hchunk).1, Option.getD_some]
  have hstream : ∀ s' ∈ some s, Live source first window arrived s' := by simpa using hlive
  unfold sendChunk
  split_ifs with hexceeds
  · exact ⟨0, rfl, ⟨hlive, hseq, hchunk, hexceeds⟩, hstream, hfits⟩
  · refine ⟨1, ?_, ⟨hlive, by omega, hchunk⟩, hstream, fun _ => ?_, ?_⟩
    · simp [chunksOf, SenderFrame.chunk, unacked, ← hseq, hlength]
    · have := hlive.first_le.trans_lt hlive.acked_lt
      omega
    · calc bytesBetween source (first + (arrived - 1)) (first + (sent + 1))
        _ ≤ bytesBetween source s.ackedCount (s.seq + 1) := by
          rw [hseq, Nat.add_assoc]
          exact bytesBetween_anti (by have := hlive.acked_lt; omega)
        _ = s.bytesInFlight + chunk.length := by
          rw [bytesBetween_succ hlive.acked_le, hlength, hlive.bytesInFlight, hlive.inFlight,
            bytesBetween]
        _ ≤ window := by
          rw [Stream.ExceedsWindow, hlive.window] at hexceeds
          omega

theorem Paid.resume (h : stage.Paid source first window sent arrived) :
    PaidStep source first window sent arrived (stage.resume source digestOf cancelled) := by
  obtain ⟨htracks, hlive, hfits⟩ := h
  cases stage with
  | started ack =>
    obtain ⟨rfl, rfl, harrived⟩ := htracks
    have hstart : Live source first window arrived (.start { ackSeq := first, window }) :=
      .start harrived
    exact ⟨0, rfl, ⟨hstart, rfl, rfl⟩, by simpa [stream, Stage.resume] using hstart, hfits⟩
  | pulling s rest =>
    obtain ⟨hs, hseq, hrest⟩ := htracks
    cases rest with
    | nil => exact ⟨0, rfl, ⟨hseq, List.drop_eq_nil_iff.1 hrest.symm⟩, hlive, hfits⟩
    | cons chunk rest =>
      cases cancelled with
      | true => exact ⟨0, rfl, GivenUp.paid Status.noConfusion hfits⟩
      | false => exact paidStep_sendChunk hs hseq hrest hfits
  | credited s chunk rest ack =>
    obtain ⟨hs, hseq, hchunk, hwindow, hlater, hle, hlt⟩ := htracks
    exact paidStep_sendChunk (hs.applyAck hwindow hlater hle hlt) hseq hchunk hfits
  | sending s chunk rest =>
    obtain ⟨hs, hseq, hchunk⟩ := htracks
    have hpush := hs.push hchunk
    exact ⟨0, rfl, ⟨hpush, hseq, (cons_eq_drop hchunk).2⟩,
      by simpa [stream, Stage.resume] using hpush, hfits⟩
  | ending s =>
    exact ⟨0, rfl, fun _ => ⟨htracks.1, htracks.1 ▸ htracks.2⟩, by simp [stream, Stage.resume],
        hfits⟩
  | _ => exact ⟨0, rfl, htracks, hlive, hfits⟩

/-- What cannot be sent is given up. -/
theorem givenUp_fail {step : Stage × Option SenderFrame} {frame : SenderFrame}
    (hstep : step = stage.resume source digestOf cancelled) (hframe : step.2 = some frame) :
    step.1.fail.GivenUp := by
  subst hstep
  cases stage with
  | pulling s rest => cases rest <;> grind [Stage.resume, sendChunk, Stage.fail, GivenUp]
  | _ => grind [Stage.resume, sendChunk, Stage.fail, GivenUp]

end Stage

/-- What the sender has sent. -/
@[grind cases]
structure Credit (t : Transfer) (x : State) (first window sent : ℕ) : Prop where
  chunks : chunksOf x.outbound.sent = unacked t.source first sent
  sender : x.sender.Paid t.source first window sent (acksOf x.inbound.arrived).length

/-- The receiver has acked what has been sent, or some of it. -/
def Told (x : State) (first window sent : ℕ) : Prop :=
  ∃ count ≤ sent + 1, acksOf x.inbound.sent = ackRun first window count

theorem chunksOf_append (frames later : List SenderFrame) :
    chunksOf (frames ++ later) = chunksOf frames ++ chunksOf later := List.filterMap_append

namespace Credit

theorem deliver (h : Credit t x first window sent) (htold : Told x first window sent)
    {frame : ReceiverFrame} {queue : List ReceiverFrame}
    (hqueue : x.inbound.queue = frame :: queue) :
    Credit t
      { x with
        sender := x.sender.onFrame frame
        inbound := x.inbound.pop frame queue }
      first window sent := by
  refine ⟨h.chunks, ?_⟩
  cases frame with
  | response code =>
    simpa [Link.pop, ReceiverFrame.ack, Stage.onFrame] using h.sender.onResponse code
  | bulkAck ack =>
    obtain ⟨count, hcount, hacks⟩ := htold
    rw [Link.sent, hqueue, acksOf_append, acksOf_cons] at hacks
    obtain ⟨rfl, hlt⟩ := ackRun_next hacks
    simpa [Link.pop, ReceiverFrame.ack, Stage.onFrame] using h.sender.onAck (by omega)

theorem send (h : Credit t x first window sent) {step : Stage × Option SenderFrame}
    (hpaid : Stage.PaidStep t.source first window sent (acksOf x.inbound.arrived).length step)
    (hfail : ∀ frame, step.2 = some frame → step.1.fail.GivenUp) :
    ∃ sent, Credit t (x.send step.1 step.2) first window sent := by
  obtain ⟨more, hmore, hpaid⟩ := hpaid
  obtain ⟨stage, _ | frame⟩ := step
  · obtain rfl : more = 0 := by simpa [chunksOf, unacked] using (congrArg List.length hmore).symm
    exact ⟨sent, h.chunks, hpaid⟩
  · cases hended : x.ended with
    | true =>
      refine ⟨sent, ?_⟩
      simp only [State.send, hended, if_true]
      exact ⟨h.chunks, (hfail frame rfl).paid h.sender.fits⟩
    | false =>
      refine ⟨sent + more, ?_⟩
      rw [send_eq hended]
      refine ⟨?_, hpaid⟩
      rw [Link.sent_put, chunksOf_append, h.chunks, hmore, unacked, unacked, unacked,
        ← List.map_append, List.range'_append_1]

theorem next (h : Credit t x first window sent) (htold : Told x first window sent) (e : Event) :
    ∃ sent, Credit t (Bulk.next t x e) first window sent := by
  obtain ⟨hchunks, hsender⟩ := id h
  cases e with
  | openTransfer =>
    simp only [Bulk.next]
    split
    next hidle =>
      rw [hidle] at hsender
      have hpaid : Stage.PaidStep t.source first window sent (acksOf x.inbound.arrived).length
          (.opening, some .bulkOpen) :=
        ⟨0, rfl, hsender.tracks, by simp [Stage.stream], hsender.fits⟩
      exact h.send hpaid fun _ _ => trivial
    next => exact ⟨sent, h⟩
  | continueFrom =>
    simp only [Bulk.next]
    split
    next hidle =>
      rw [hidle] at hsender
      exact ⟨sent, hchunks, hsender.tracks, by simp [Stage.stream, State.send], hsender.fits⟩
    next => exact ⟨sent, h⟩
  | resume => exact h.send hsender.resume fun _ => Stage.givenUp_fail rfl
  | fail => exact ⟨sent, hchunks, hsender.fail⟩
  | timeout => exact ⟨sent, hchunks, hsender.onResponse (some "timeout")⟩
  | cancel | deregister | disconnect => exact ⟨sent, hchunks, hsender⟩
  | deliver =>
    simp only [Bulk.next]
    split
    next hqueue => exact ⟨sent, h.deliver htold hqueue⟩
    next => exact ⟨sent, h⟩
  | receive =>
    simp only [Bulk.next]
    split
    next hqueue => exact ⟨sent, (congrArg chunksOf (Link.sent_pop hqueue)).trans hchunks, hsender⟩
    next => exact ⟨sent, h⟩
  | work =>
    refine ⟨sent, hchunks, ?_⟩
    simp only [Bulk.next, State.reply]
    split_ifs <;> exact hsender
  | decide decision =>
    simp only [Bulk.next]
    split
    · exact ⟨sent, hchunks, hsender⟩
    · refine ⟨sent, hchunks, ?_⟩
      simp only [State.reply]
      split_ifs <;> exact hsender
    · exact ⟨sent, h⟩
  | requestResume existing =>
    simp only [Bulk.next]
    split
    · split_ifs
      · exact ⟨sent, h⟩
      · exact ⟨sent, hchunks, hsender⟩
    · exact ⟨sent, h⟩
  | connectionEnd =>
    simp only [Bulk.next]
    split_ifs
    · exact ⟨sent, hchunks, hsender.onConnectionEnd⟩
    · exact ⟨sent, h⟩

end Credit

/-! ## Runs of the sender -/

theorem send_of_ended (h : x.ended = true) (stage : Stage) (frame : Option SenderFrame) :
    (x.send stage frame).outbound = x.outbound ∧ (x.send stage frame).inbound = x.inbound := by
  cases frame <;> simp [State.send, h]

/-- After the end of the connection, nothing more is sent. -/
theorem sent_of_ended (h : x.ended = true) (e : Event) :
    (next t x e).outbound.sent = x.outbound.sent ∧
      (next t x e).inbound.sent = x.inbound.sent := by
  cases e with
  | decide decision =>
    simp only [Bulk.next]
    split <;> simp [State.reply, State.begin, h]
  | _ => grind [Bulk.next, send_of_ended, State.reply, State.take, State.begin, Link.sent_pop]

theorem Streaming.told (h : Streaming t x first window stored sent) :
    Told x first window sent := by
  have hacks := h.acks
  rw [State.acks, acksOf_append] at hacks
  have hle : (acksOf x.inbound.sent).length ≤ stored + 1 := by
    have hlength := congrArg List.length hacks
    simp only [List.length_append, ackRun, List.length_map, List.length_range'] at hlength
    omega
  obtain ⟨more, hmore⟩ := Nat.exists_eq_add_of_le hle
  rw [hmore, ackRun, ← List.range'_append_1, List.map_append] at hacks
  exact ⟨_, hle.trans (Nat.succ_le_succ h.stored_le), (List.append_inj hacks (by simp)).1⟩

/-- What has been sent, the acks of it, and how the receiver goes on. -/
def Following (t : Transfer) (x : State) : Prop :=
  ∃ first window sent, Credit t x first window sent ∧ Told x first window sent ∧
    (x.ended = false → Beginning t x ∨ ∃ stored, Streaming t x first window stored sent)

theorem Credit.sent_eq {sent' : ℕ} (h : Credit t x first window sent)
    (hdata : dataSeqs x.outbound.sent = List.range' first sent') : sent' = sent := by
  have hlength := congrArg List.length hdata
  simpa [dataSeqs_eq, h.chunks, unacked] using hlength.symm

/-- Nothing has been sent before the first ack. -/
theorem credit_of_early (hdata : dataSeqs x.outbound.sent = []) (hsender : x.sender.Early)
    (harrived : acksOf x.inbound.arrived = []) : Credit t x first window 0 where
  chunks := by
    rw [dataSeqs_eq, List.map_eq_nil_iff] at hdata
    rw [hdata]
    rfl
  sender := by
    rw [harrived]
    exact hsender.paid

theorem Beginning.following (h : Beginning t x) : Following t x := by
  refine ⟨0, 0, 0, credit_of_early h.data h.sender h.arrived, ⟨0, Nat.zero_le _, ?_⟩, fun _ =>
      .inl h⟩
  have hacks := h.acks
  rw [State.acks, acksOf_append, List.append_eq_nil_iff] at hacks
  exact hacks.1

theorem Following.next (h : Following t x) (e : Event) : Following t (Bulk.next t x e) := by
  obtain ⟨first, window, sent, hcredit, htold, hflow⟩ := h
  obtain ⟨sent', hcredit'⟩ := hcredit.next htold e
  cases hended : x.ended with
  | true =>
    obtain ⟨houtbound, hinbound⟩ := sent_of_ended (t := t) hended e
    obtain rfl : sent = sent' := hcredit'.sent_eq (by
      rw [houtbound, dataSeqs_eq, hcredit.chunks, unacked, List.map_map]
      exact List.map_id _)
    refine ⟨first, window, sent, hcredit', ?_, fun h => ?_⟩
    · rwa [Told, hinbound]
    · rw [ended_next hended e] at h
      cases h
  | false =>
    rcases hflow hended with hbegin | ⟨stored, hstream⟩
    · obtain hbegin | ⟨⟨first, window, hstream⟩, hsender, harrived⟩ := hbegin.next hended e
      · exact hbegin.following
      · exact ⟨first, window, 0, credit_of_early hstream.data hsender harrived, hstream.told,
          fun _ => .inr ⟨0, hstream⟩⟩
    · obtain ⟨stored, sent, hstream⟩ := hstream.next hended e
      obtain rfl := hcredit'.sent_eq hstream.data
      exact ⟨first, window, sent, hcredit', hstream.told, fun _ => .inr ⟨stored, hstream⟩⟩

theorem following_run (t : Transfer) (storage : KeyValueStorage) (events : List Event) :
    Following t (run (Bulk.next t) (init storage) events) := by
  have hbegin : Beginning t (init storage) := ⟨rfl, rfl, trivial⟩
  exact run_invariant hbegin.following (fun _ e h => h.next e) events

/-! ## The receiver -/

/-- Run by itself, the program never lowers the count. -/
def Raises (key : String) : StorageM Done → KeyValueStorage → Prop
  | .ret _, _ => True
  | .get k rest, storage => Raises key (rest (storage.lookup k)) storage
  | .set k value rest, storage => countAt storage key ≤ countAt (storage.insert k value) key ∧
      Raises key rest (storage.insert k value)

theorem Raises.of_reads {key : String} {program : StorageM Done}
    (h : program.Writes fun _ _ => False)
    (storage : KeyValueStorage) : Raises key program storage := by
  induction program with
  | ret => trivial
  | get k rest ih => exact ih _ (h _)
  | set k value rest => exact h.1.elim

/-- The receiver has stored that many chunks, and will not go back. -/
@[grind cases]
structure Receiver.Keeps (idHex : String) (r : Receiver) (count : ℕ) : Prop where
  stored : count ≤ countAt r.storage (ackSeqKey idHex)
  opener : ((r.outlook idHex).storage.lookup (openerKey idHex)).isSome
  offers : (r.outlook idHex).offers = false
  raises : ∀ program, r.task = .busy program → Raises (ackSeqKey idHex) program r.storage

namespace Receiver

variable {idHex : String} {r : Receiver} {count : ℕ}

theorem raises_work
    (h : ∀ program, r.task = .busy program → Raises (ackSeqKey idHex) program r.storage) :
    countAt r.storage (ackSeqKey idHex) ≤ countAt (r.work idHex).1.storage (ackSeqKey idHex) ∧
      ∀ program, (r.work idHex).1.task = .busy program →
        Raises (ackSeqKey idHex) program (r.work idHex).1.storage := by
  obtain ⟨storage, registered, task, completed⟩ := r
  rcases task with - | - | program | window
  · exact ⟨le_rfl, fun _ htask => by cases htask⟩
  · exact ⟨le_rfl, fun _ htask => by cases htask⟩
  · rcases program with done | ⟨key, rest⟩ | ⟨key, value, rest⟩
    · rcases done with frame | - | window | ackedCount | result
      case resumed =>
        refine ⟨le_rfl, fun _ htask => ?_⟩
        cases htask
        exact .of_reads (advertise_writes _) _
      all_goals exact ⟨le_rfl, fun _ htask => by cases htask⟩
    · refine ⟨le_rfl, fun _ htask => ?_⟩
      cases htask
      exact h (.get key rest) rfl
    · refine ⟨(h _ rfl).1, fun _ htask => ?_⟩
      cases htask
      exact (h _ rfl).2
  · exact ⟨le_rfl, fun _ htask => by cases htask⟩

/-- An ack is sent when all else is done. -/
theorem outlook_of_ack {ack : BulkAckFrame} (h : (r.work idHex).2 = some (.bulkAck ack)) :
    (r.work idHex).1.storage = (r.outlook idHex).storage ∧ (r.work idHex).1.task = .idle := by
  obtain ⟨storage, registered, task, completed⟩ := r
  rcases task with - | - | program | window
  · cases h
  · cases h
  · rcases program with done | ⟨key, rest⟩ | ⟨key, value, rest⟩
    · rcases done with frame | - | window | ackedCount | result
      case send => exact ⟨rfl, rfl⟩
      all_goals cases h
    · cases h
    · cases h
  · exact ⟨rfl, rfl⟩

theorem outlook_work_eq (idHex : String) (r : Receiver) :
    ((r.work idHex).1.outlook idHex).storage = (r.outlook idHex).storage ∧
      ((r.work idHex).1.outlook idHex).offers = (r.outlook idHex).offers := by
  rw [← r.outlook_work idHex]
  exact ⟨rfl, rfl⟩

theorem Keeps.work (h : r.Keeps idHex count) : (r.work idHex).1.Keeps idHex count := by
  obtain ⟨hstorage, hoffers⟩ := r.outlook_work_eq idHex
  obtain ⟨hcount, hraises⟩ := raises_work h.raises
  exact ⟨h.stored.trans hcount, hstorage ▸ h.opener, hoffers ▸ h.offers, hraises⟩

/-- What is sent has been stored before. -/
theorem keeps_of_ack {ack : BulkAckFrame} (hsent : (r.work idHex).2 = some (.bulkAck ack))
    (hle : ack.ackSeq ≤ countAt (r.outlook idHex).storage (ackSeqKey idHex))
    (hopener : ((r.outlook idHex).storage.lookup (openerKey idHex)).isSome)
    (hoffers : (r.outlook idHex).offers = false) : (r.work idHex).1.Keeps idHex ack.ackSeq := by
  obtain ⟨hstorage', hoffers'⟩ := r.outlook_work_eq idHex
  obtain ⟨hstorage, htask⟩ := outlook_of_ack hsent
  refine ⟨hstorage ▸ hle, hstorage' ▸ hopener, hoffers' ▸ hoffers, fun program hbusy => ?_⟩
  rw [htask] at hbusy
  cases hbusy

/-- A program that raises the count is begun. -/
theorem Keeps.begin (h : r.Keeps idHex count) (hidle : r.task = .idle) {program : StorageM Done}
    (hraises : Raises (ackSeqKey idHex) program r.storage)
    (hopener : (r.storage.lookup (openerKey idHex)).isSome →
      ((r.outlookOf idHex program).storage.lookup (openerKey idHex)).isSome ∧
        (r.outlookOf idHex program).offers = false) :
    { r with task := .busy program }.Keeps idHex count := by
  have hknown := h.opener
  rw [Receiver.outlook, hidle] at hknown
  refine ⟨h.stored, (hopener hknown).1, (hopener hknown).2, fun program' hbusy => ?_⟩
  cases hbusy
  exact hraises

/-- A chunk raises the count by one. -/
theorem raises_persist (idHex : String) (storage : KeyValueStorage) (seq : ℕ) (bytes : Bytes) :
    Raises (ackSeqKey idHex) (persist idHex seq bytes) storage := by
  rw [persist_eq, Raises]
  split_ifs with hseq
  · trivial
  · have hchunk : countAt (storage.insert (chunkKey idHex seq) bytes) (ackSeqKey idHex) =
        countAt storage (ackSeqKey idHex) := by
      rw [countAt, AList.lookup_insert_ne (chunkKey_ne_ackSeqKey seq).symm, countAt]
    refine ⟨hchunk.ge, ?_, .of_reads (advertise_writes _) _⟩
    rw [hchunk, countAt_insert, if_pos rfl]
    exact Nat.le_succ _

theorem Keeps.receive (h : r.Keeps idHex count) (hidle : r.task = .idle)
    (digestOf : Bytes → Bytes) (frame : SenderFrame) :
    { r with task := .busy (onFrame idHex digestOf r.registered frame) }.Keeps idHex count := by
  obtain hquiet | ⟨seq, bytes, -, -, honFrame⟩ := onFrame_cases idHex digestOf r.registered frame
  · obtain ⟨offers, frames, houtlook, -, hoffers⟩ := r.outlookOf_onFrame idHex digestOf hquiet
    refine h.begin hidle (.of_reads (onFrame_reads hquiet) _) fun hopener => ?_
    rw [houtlook]
    exact ⟨hopener, hoffers hopener⟩
  · rw [honFrame]
    refine h.begin hidle (raises_persist ..) fun hopener => ?_
    rw [outlookOf, exec_persist]
    split_ifs
    · exact ⟨by simpa [Done.outlook, Bulk.stored,
        AList.lookup_insert_ne ackSeqKey_ne_openerKey.symm,
        AList.lookup_insert_ne (chunkKey_ne_openerKey seq).symm] using hopener, rfl⟩
    · exact ⟨hopener, rfl⟩

theorem Keeps.requestResume (h : r.Keeps idHex count) (hidle : r.task = .idle) (existing : Bool) :
    { r with task := .busy (Bulk.requestResume idHex existing) }.Keeps idHex count := by
  refine h.begin hidle (.of_reads (requestResume_writes _) _) fun hopener => ?_
  rw [outlookOf, exec_requestResume]
  split_ifs <;> exact ⟨hopener, rfl⟩

theorem Keeps.deregister (h : r.Keeps idHex count) : { r with registered :=
    false }.Keeps idHex count := by
  obtain ⟨registered, -, houtlook⟩ := r.outlook_deregister idHex
  exact ⟨h.stored, houtlook ▸ h.opener, houtlook ▸ h.offers, h.raises⟩

end Receiver

/-- The receiver has stored what it has acked. -/
def Kept (t : Transfer) (x : State) : Prop :=
  ∀ ack ∈ acksOf x.inbound.sent, x.receiver.Keeps t.idHex ack.ackSeq

/-- An ack that the receiver is about to send is of what it will have stored. -/
theorem Flow.keeps_of_ack (h : Flow t x) (hended : x.ended = false) {ack : BulkAckFrame}
    (hack : (x.receiver.work t.idHex).2 = some (.bulkAck ack)) :
    (x.receiver.work t.idHex).1.Keeps t.idHex ack.ackSeq := by
  have hmem : ack ∈ x.acks t := by
    rw [State.acks, State.outlook, ← x.receiver.outlook_work, hack]
    simp [Outlook.after, ReceiverFrame.ack]
  obtain hbegin | ⟨first, window, stored, sent, hstream⟩ := h hended
  · rw [hbegin.acks] at hmem
    cases hmem
  · rw [hstream.acks, ackRun, List.mem_map] at hmem
    obtain ⟨seq, hseq, rfl⟩ := hmem
    refine Receiver.keeps_of_ack hack ?_ hstream.opener hstream.offers
    have hcount : countAt (x.receiver.outlook t.idHex).storage (ackSeqKey t.idHex) = first +
        stored :=
      hstream.count
    rw [List.mem_range'_1] at hseq
    simp only [hcount]
    omega

/-- The sender has no part in it. -/
theorem Kept.send (h : Kept t x) (stage : Stage) (frame : Option SenderFrame) :
    Kept t (x.send stage frame) := by
  cases frame with
  | none => exact h
  | some frame =>
    rw [State.send]
    split_ifs <;> exact h

theorem Kept.work (h : Kept t x) (hflow : Flow t x) : Kept t (Bulk.next t x .work) := by
  intro ack hack
  cases hended : x.ended with
  | true =>
    simp only [Bulk.next, State.reply, hended, if_true] at hack
    exact (h ack hack).work
  | false =>
    simp only [Bulk.next, State.reply, hended, Link.sent_put, acksOf_append, List.mem_append,
      Bool.false_eq_true, if_false] at hack
    rcases hack with hack | hack
    · exact (h ack hack).work
    · rw [mem_acksOf, Option.mem_toList] at hack
      exact hflow.keeps_of_ack hended hack

theorem Kept.next (h : Kept t x) (hflow : Flow t x) (e : Event) : Kept t (Bulk.next t x e) := by
  cases e with
  | openTransfer | continueFrom =>
    simp only [Bulk.next]
    split
    · exact h.send _ _
    · exact h
  | resume => exact h.send _ _
  | work => exact h.work hflow
  | receive =>
    simp only [Bulk.next]
    split
    next hidle _ => exact fun ack hack => (h ack hack).receive hidle _ _
    next => exact h
  | decide decision =>
    -- after an ack, nothing is offered
    have hoffered : x.receiver.task = .offered → acksOf x.inbound.sent = [] := by
      intro hoffered
      refine List.eq_nil_iff_forall_not_mem.2 fun ack hack => ?_
      have hoffers := (h ack hack).offers
      rw [Receiver.outlook, hoffered] at hoffers
      cases hoffers
    simp only [Bulk.next]
    split
    next htask => exact fun ack hack => by simp [State.begin, hoffered htask] at hack
    next htask =>
      intro ack hack
      simp only [State.reply] at hack
      split_ifs at hack <;> simp [hoffered htask, ReceiverFrame.ack] at hack
    next => exact h
  | requestResume existing =>
    simp only [Bulk.next]
    split
    next hidle =>
      split_ifs
      · exact h
      · exact fun ack hack => (h ack hack).requestResume hidle _
    next => exact h
  | deregister => exact fun ack hack => (h ack hack).deregister
  | deliver =>
    simp only [Bulk.next]
    split
    next hqueue => exact fun ack hack => h ack (by rwa [Link.sent_pop hqueue] at hack)
    next => exact h
  | connectionEnd =>
    simp only [Bulk.next]
    split_ifs <;> exact h
  | fail | timeout | cancel | disconnect => exact h

theorem kept_run (t : Transfer) (storage : KeyValueStorage) (events : List Event) :
    Kept t (run (Bulk.next t) (init storage) events) := by
  have hinit : Flow t (init storage) ∧ Kept t (init storage) :=
    ⟨fun _ => .inl ⟨rfl, rfl, trivial⟩, fun ack hack => by cases hack⟩
  exact (run_invariant (P := fun x => Flow t x ∧ Kept t x) hinit
    (fun _ e h => ⟨h.1.next e, h.2.next h.1 e⟩) events).2

/-! ## The window -/

theorem Stage.Tracks.seq_le (h : stage.Tracks source first window sent arrived)
    (hs : s ∈ stage.stream) : s.seq ≤ first + sent := by
  cases stage <;> grind [Stage.stream, Stage.Tracks]

/-- The last ack that has arrived has been sent. -/
theorem last_mem_acks (h : 0 < (acksOf x.inbound.arrived).length) {count : ℕ}
    (hacks : acksOf x.inbound.sent = ackRun first window count) :
    { ackSeq := first + ((acksOf x.inbound.arrived).length - 1), window } ∈
      acksOf x.inbound.sent := by
  have hle : (acksOf x.inbound.arrived).length ≤ count := by
    have hlength := congrArg List.length hacks
    simp only [Link.sent, acksOf_append, List.length_append, ackRun, List.length_map,
      List.length_range'] at hlength
    omega
  rw [hacks, ackRun]
  exact List.mem_map.2 ⟨_, List.mem_range'_1.2 (by omega), rfl⟩

theorem totalLength_filter_le {lower stored : ℕ} (hlower : first ≤ lower)
    (hstored : lower ≤ stored) :
    totalLength ((unacked source first sent).filter fun c => stored ≤ c.seq) ≤
      bytesBetween source lower (first + sent) := by
  have hlt : ∀ c ∈ unacked source first sent, c.seq < first + sent := by
    intro c hc
    obtain ⟨seq, hseq, rfl⟩ := List.mem_map.1 hc
    exact (List.mem_range'_1.1 hseq).2
  by_cases hle : stored ≤ first + sent
  · have hfilter : ((unacked source first sent).filter fun c => stored ≤ c.seq) =
        (unacked source first sent).filter fun c => stored ≤ c.seq ∧ c.seq < first + sent :=
      List.filter_congr fun c hc => by simp [hlt c hc]
    rw [hfilter, totalLength_filter (hlower.trans hstored) hle le_rfl]
    exact bytesBetween_anti hstored
  · rw [List.filter_eq_nil_iff.2 fun c hc => by have := hlt c hc; simp; omega]
    exact Nat.zero_le _

/-- The bytes that the sender counts as in flight are those of the chunks that it has counted as
    sent, from the last ack on that it has applied, and acks are applied in order. What has been
    sent beyond what the receiver has stored fits in the window. -/
theorem credit_safe (t : Transfer) (storage : KeyValueStorage) (events : List Event) (window : ℕ)
    (hwindow : ∀ ack ∈ acksOf (run (Bulk.next t) (init storage) events).inbound.sent,
      ack.window = window) :
    let x := run (Bulk.next t) (init storage) events
    (∀ s ∈ x.sender.stream, s.bytesInFlight = totalLength
      ((chunksOf x.outbound.sent).filter fun c => s.ackedCount ≤ c.seq ∧ c.seq < s.seq)) ∧
    (∀ s chunk rest ack, x.sender = .credited s chunk rest ack → s.ackedCount ≤ ack.ackSeq) ∧
    totalLength ((chunksOf x.outbound.sent).filter fun c =>
      countAt x.receiver.storage (ackSeqKey t.idHex) ≤ c.seq) ≤ window := by
  intro x
  obtain ⟨first, window', sent, ⟨hchunks, hpaid⟩, ⟨count, hcount, hacks⟩, -⟩ :=
    following_run t storage events
  refine ⟨fun s hs => ?_, fun s chunk rest ack hstage => ?_, ?_⟩
  · have hlive := hpaid.live s hs
    rw [hchunks, totalLength_filter hlive.first_le hlive.acked_le (hpaid.tracks.seq_le hs),
      hlive.bytesInFlight, hlive.inFlight, bytesBetween]
  · have htracks := hpaid.tracks
    rw [show (run (Bulk.next t) (init storage) events).sender = _ from hstage] at htracks
    exact htracks.2.2.2.2.1
  · rw [hchunks]
    rcases Nat.eq_zero_or_pos sent with rfl | hsent
    · simp [unacked, totalLength]
    · have hlast := last_mem_acks (hpaid.fits.begun hsent) hacks
      obtain rfl : window' = window := hwindow _ hlast
      have hstored := (kept_run t storage events _ hlast).stored
      exact (totalLength_filter_le (Nat.le_add_right _ _) hstored).trans hpaid.fits.bytes_le

/-- The first of two chunks is on its way, and the window is full. -/
def sampleFull : List Event := sampleOpening 1 ++ [.resume, .resume, .resume]

theorem credit_safe_sample :
    chunksOf (run (Bulk.next sampleTransfer) (init ∅) sampleFull).outbound.sent =
        [{ seq := 0, length := 1 }] ∧
      totalLength ((chunksOf
        (run (Bulk.next sampleTransfer) (init ∅) sampleFull).outbound.sent).filter fun c =>
          countAt (run (Bulk.next sampleTransfer) (init ∅) sampleFull).receiver.storage
            (ackSeqKey sampleTransfer.idHex) ≤ c.seq) ≤ 1 := by
  have hwindow : ∀ ack ∈ acksOf (run (Bulk.next sampleTransfer) (init ∅) sampleFull).inbound.sent,
      ack.window = 1 := by decide +kernel
  exact ⟨by decide +kernel, (credit_safe sampleTransfer ∅ sampleFull 1 hwindow).2.2⟩

end WireMesh.TypeScript.Bulk
