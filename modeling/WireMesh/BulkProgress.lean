import WireMesh.BulkCredit

/-!
# Bulk transfers that get stuck

A bulk sender that has used up its window waits for an ack, and drops the acks that arrive while it
does not wait. If the ack for the last chunk on its way arrives before the sender waits for it, no
other ack will follow, and the sender waits for ever (`transfer_stuck`).

An ack that covers only some of the chunks on their way may be dropped: those for the others
follow. If no ack that covers all of them is dropped (`Heard`), there is no stuck state
(`no_stuck_state`): at such a state all acks would have arrived, so that the last one has been used
(`Stage.Hears`), and nothing would be in flight.
-/

namespace WireMesh.TypeScript.Bulk

open Machine

/-- Nothing is on its way or being worked on, the receiver has acked all that was sent, and the
    sender waits for an ack while there are chunks that have neither been sent nor acked. -/
@[grind cases]
structure Stuck (t : Transfer) (x : State) : Prop where
  outbound : x.outbound.queue = []
  inbound : x.inbound.queue = []
  idle : x.receiver.task = .idle
  begun : acksOf x.inbound.sent ≠ []
  acked : x.AllAcked
  waiting : x.sender.isWaiting
  left : ∃ seq < t.source.length, seq ∉ dataSeqs x.outbound.sent ∧ ¬x.Acked seq

namespace Stage

/-- The sender does not wait for an ack, but may do so later. -/
def mayWait : Stage → Bool
  | idle => true
  | opening => true
  | accepted => true
  | started _ => true
  | pulling _ rest => !rest.isEmpty
  | credited _ _ _ _ => true
  | sending _ _ rest => !rest.isEmpty
  | _ => false

/-- The last ack that has arrived is the one that the sender has used, or it does not cover all the
    chunks that have been sent. -/
def Hears (first sent arrived : ℕ) : Stage → Prop
  | idle => arrived = 0
  | opening => arrived = 0
  | accepted => arrived = 0
  | starting => arrived = 0
  | started ack => first + arrived ≤ ack.ackSeq + 1 ∨ arrived ≤ sent
  | pulling s rest => rest ≠ [] → first + arrived ≤ s.ackedCount + 1 ∨ arrived ≤ sent
  | crediting s _ _ => first + arrived ≤ s.ackedCount + 1 ∨ arrived ≤ sent
  | credited _ _ _ ack => first + arrived ≤ ack.ackSeq + 1 ∨ arrived ≤ sent
  | sending s _ rest => rest ≠ [] → first + arrived ≤ s.ackedCount + 1 ∨ arrived ≤ sent
  | _ => True

variable {first sent arrived : ℕ} {stage : Stage}

theorem Early.hears (h : stage.Early) : stage.Hears first sent 0 := by
  cases stage with
  | idle | opening | accepted | starting => rfl
  | settled | failed => trivial
  | _ => exact h.elim

theorem Hears.fail (h : stage.Hears first sent arrived) : stage.fail.Hears first sent arrived := by
  cases stage with
  | opening | pulling | sending | digesting | ending => trivial
  | _ => exact h

theorem Hears.onResponse (h : stage.Hears first sent arrived) (code : Option String) :
    (stage.onResponse code).Hears first sent arrived := by
  cases stage with
  | opening =>
    cases code with
    | none => exact h
    | some code => trivial
  | _ => exact h

/-- The frame is a chunk that is sent, or there is none. -/
theorem hears_sendChunk {s : Stream} {chunk : Bytes} {rest : List Bytes}
    (h : first + arrived ≤ s.ackedCount + 1 ∨ arrived ≤ sent) :
    (sendChunk s chunk rest).1.Hears first
      (sent + (dataSeqs (sendChunk s chunk rest).2.toList).length) arrived := by
  unfold sendChunk
  split_ifs
  · exact h
  · exact fun _ => h.imp id Nat.le_succ_of_le

theorem Hears.resume (h : stage.Hears first sent arrived) (source : List Bytes)
    (digestOf : Bytes → Bytes) (cancelled : Bool) :
    (stage.resume source digestOf cancelled).1.Hears first
      (sent + (dataSeqs (stage.resume source digestOf cancelled).2.toList).length) arrived := by
  cases stage with
  | started ack => exact fun _ => h
  | pulling s rest =>
    cases rest with
    | nil => trivial
    | cons chunk rest =>
      cases cancelled with
      | true => trivial
      | false => exact hears_sendChunk (h (List.cons_ne_nil chunk rest))
  | credited s chunk rest ack => exact hears_sendChunk h
  | digesting | ending => trivial
  | _ => exact h

/-- An ack arrives at a sender that waits for it, or does not cover all that was sent. -/
theorem Hears.onAck {source : List Bytes} {window : ℕ}
    (h : stage.Hears first sent arrived) (htracks : stage.Tracks source first window sent arrived)
    (hheard : stage.mayWait → arrived < sent) :
    (stage.onAck { ackSeq := first + arrived, window }).Hears first sent (arrived + 1) := by
  cases stage with
  | idle | opening | accepted =>
    obtain rfl : sent = 0 := htracks
    exact absurd (hheard rfl) (Nat.not_lt_zero _)
  | starting | crediting => exact .inl le_rfl
  | started | credited => exact .inr (hheard rfl)
  | pulling s rest => exact fun hrest => .inr (hheard (by simpa [mayWait] using hrest))
  | sending s chunk rest => exact fun hrest => .inr (hheard (by simpa [mayWait] using hrest))
  | _ => exact h

end Stage

/-- The ack that arrives. -/
def State.arriving (x : State) : Event → Option BulkAckFrame
  | .deliver => x.inbound.queue.head?.bind ReceiverFrame.ack
  | _ => none

/-- An ack that arrives while the sender does not wait, but may do so later, does not cover all the
    chunks that have been sent. -/
def Heard (x : State) (e : Event) : Prop :=
  ∀ ack ∈ x.arriving e, x.sender.mayWait → ∃ seq ∈ dataSeqs x.outbound.sent, ack.ackSeq ≤ seq

instance (x : State) (e : Event) : Decidable (Heard x e) :=
  inferInstanceAs (Decidable (∀ ack ∈ x.arriving e, _))

variable {t : Transfer} {x : State} {first window stored sent : ℕ}

/-- The last ack that has arrived has been used, or others will follow. -/
def State.Hears (first : ℕ) (x : State) : Prop :=
  x.sender.Hears first (dataSeqs x.outbound.sent).length (acksOf x.inbound.arrived).length

theorem State.Hears.deliver (h : x.Hears first) (hstream : Streaming t x first window stored sent)
    {frame : ReceiverFrame} {queue : List ReceiverFrame}
    (hqueue : x.inbound.queue = frame :: queue) (hheard : Heard x .deliver) :
    State.Hears first
      { x with
        sender := x.sender.onFrame frame
        inbound := x.inbound.pop frame queue } := by
  have hlength : (dataSeqs x.outbound.sent).length = sent := by
    rw [hstream.data, List.length_range']
  unfold State.Hears at h ⊢
  rw [hlength] at h
  simp only [hlength, Link.pop, acksOf_append, acksOf_cons, acksOf_nil, List.append_nil]
  cases frame with
  | response code => simpa [ReceiverFrame.ack, Stage.onFrame] using h.onResponse code
  | bulkAck ack =>
    have harriving : ack ∈ x.arriving .deliver := by
      rw [State.arriving, hqueue]
      rfl
    obtain ⟨rfl, -⟩ := hstream.ack_next hqueue
    have hlt : x.sender.mayWait → (acksOf x.inbound.arrived).length < sent := by
      intro hwait
      obtain ⟨seq, hseq, hle⟩ := hheard _ harriving hwait
      grind
    simpa [ReceiverFrame.ack, Stage.onFrame] using h.onAck hstream.sender hlt

theorem State.Hears.next (h : x.Hears first) (hstream : Streaming t x first window stored sent)
    (hended : x.ended = false) {e : Event} (hheard : Heard x e) :
    (Bulk.next t x e).Hears first := by
  cases e with
  | openTransfer => grind [Bulk.next, send_eq, Hears, Stage.Hears]
  | continueFrom => grind [Bulk.next, send_eq, Hears, Stage.Hears]
  | resume =>
    simp only [Bulk.next, send_eq hended, State.Hears, Link.sent_put, dataSeqs_append,
      List.length_append]
    exact Stage.Hears.resume h t.source t.digestOf x.cancelled
  | fail => exact Stage.Hears.fail h
  | timeout => exact Stage.Hears.onResponse h (some "timeout")
  | deliver => grind [Bulk.next, deliver]
  | receive => grind [Bulk.next, Hears, take, begin, Link.sent_pop]
  | work =>
    simp only [Bulk.next, State.reply, hended]
    exact h
  | decide decision =>
    simp only [Bulk.next]
    split
    · exact h
    · simp only [State.reply, hended]
      exact h
    · exact h
  | requestResume existing =>
    simp only [Bulk.next]
    split
    · split_ifs <;> exact h
    · exact h
  | cancel | deregister | disconnect => exact h
  | connectionEnd =>
    simp only [Bulk.next, hended]
    exact h

/-- As long as the connection has not ended. -/
def Attentive (t : Transfer) (x : State) : Prop :=
  x.ended = false → Beginning t x ∨
    ∃ first window stored sent, Streaming t x first window stored sent ∧ x.Hears first

theorem Attentive.next (h : Attentive t x) {e : Event} (hheard : Heard x e) :
    Attentive t (Bulk.next t x e) := by
  intro hnext
  have hended := ended_of_next hnext
  obtain hbegin | ⟨first, window, stored, sent, hstream, hhears⟩ := h hended
  · obtain hbegin | ⟨⟨first, window, hstream⟩, hearly, harrived⟩ := hbegin.next hended e
    · exact .inl hbegin
    · grind [State.Hears, Stage.Early.hears]
  · obtain ⟨stored', sent', hstream'⟩ := hstream.next hended e
    exact .inr ⟨first, window, stored', sent', hstream', hhears.next hstream hended hheard⟩

/-- All acks have arrived, and there are as many as chunks. -/
theorem Stuck.arrived (h : Stuck t x) (hstream : Streaming t x first window stored sent) :
    (acksOf x.inbound.arrived).length = sent + 1 := by
  have hacks := hstream.acks
  rw [State.acks, outlook_idle h.idle, List.append_nil] at hacks
  have hall : sent ≤ stored := by
    by_contra hlt
    have hlast : first + stored ∈ dataSeqs x.outbound.sent := by
      rw [hstream.data, List.mem_range'_1]
      omega
    obtain ⟨ack, hack, hseq⟩ := h.acked _ hlast
    grind [ackRun]
  grind [Link.sent, ackRun]

theorem no_stuck_state (t : Transfer) (storage : KeyValueStorage) (events : List Event)
    (hlossless : (run (next t) (init storage) events).ended = false)
    (hwindow : ∀ ack ∈ acksOf (run (next t) (init storage) events).inbound.sent,
      ∀ chunk ∈ t.source, chunk.length ≤ ack.window)
    (hheard : Along (next t) Heard (init storage) events) :
    ¬Stuck t (run (next t) (init storage) events) := by
  have hattentive : Attentive t (run (next t) (init storage) events) :=
    run_along (fun _ => .inl ⟨rfl, rfl, trivial⟩) (fun _ _ h hheard => h.next hheard) hheard
  generalize run (next t) (init storage) events = x at hlossless hwindow hattentive
  intro hstuck
  obtain hbegin | ⟨first, window, stored, sent, hstream, hhears⟩ := hattentive hlossless
  · have hacks := hbegin.acks
    rw [State.acks, acksOf_append] at hacks
    exact hstuck.begun (List.append_eq_nil_iff.1 hacks).1
  · have harrived := hstuck.arrived hstream
    have hsender := hstream.sender
    have hlength : (dataSeqs x.outbound.sent).length = sent := by
      rw [hstream.data, List.length_range']
    rw [State.Hears, harrived, hlength] at hhears
    have hwaiting := hstuck.waiting
    cases hstage : x.sender with
    | starting =>
      rw [hstage] at hhears
      exact absurd hhears (Nat.succ_ne_zero sent)
    | crediting s chunk rest =>
      rw [hstage] at hhears hsender
      obtain ⟨hlive, hseq, hchunk, hexceeds⟩ := hsender
      -- The last ack has been used, and nothing is in flight.
      have hcaught : s.seq - s.ackedCount = 0 := by
        obtain hle | hle := hhears <;> omega
      have hbytes : s.bytesInFlight = 0 := by
        rw [hlive.bytesInFlight, hlive.inFlight, hcaught]
        rfl
      have hack : { ackSeq := first, window } ∈ acksOf x.inbound.sent := by
        have hacks := hstream.acks
        rw [State.acks, outlook_idle hstuck.idle, List.append_nil] at hacks
        rw [hacks, ackRun, List.range'_succ]
        exact List.mem_cons_self
      have hfits := hwindow _ hack chunk (List.mem_of_mem_drop (hchunk ▸ List.mem_cons_self))
      rw [Stream.ExceedsWindow, hlive.window, hbytes] at hexceeds
      simp only at hfits
      omega
    | _ =>
      rw [hstage] at hwaiting
      exact Bool.noConfusion hwaiting

/-- The window is one chunk, and the sender waits for the ack of the first one before it arrives.
    Then the second one is sent and stored, and the call settles. -/
def sampleHeard : List Event :=
  sampleOpening 1 ++ [.resume, .resume, .resume] ++ sampleStore ++ [.deliver, .resume, .resume] ++
    sampleStore ++ [.resume, .resume, .resume]

theorem no_stuck_state_sample :
    (run (next sampleTransfer) (init ∅) sampleHeard).sender =
        .settled { status := .complete, ackedCount := 2 } ∧
      ¬Stuck sampleTransfer (run (next sampleTransfer) (init ∅) sampleHeard) := by
  have hwindow : ∀ ack ∈ acksOf (run (next sampleTransfer) (init ∅) sampleHeard).inbound.sent,
      ∀ chunk ∈ sampleTransfer.source, chunk.length ≤ ack.window := by decide +kernel
  have hheard : Along (next sampleTransfer) Heard (init ∅) sampleHeard := by decide +kernel
  exact ⟨by decide +kernel,
    no_stuck_state sampleTransfer ∅ sampleHeard (by decide +kernel) hwindow hheard⟩

/-- The ack for the first chunk arrives while the sender still waits for the chunk to be sent. -/
def sampleUnheard : List Event :=
  sampleOpening 1 ++ [.resume] ++ sampleStore ++ [.deliver, .resume, .resume]

theorem transfer_stuck :
    (run (next sampleTransfer) (init ∅) sampleUnheard).ended = false ∧
      (∀ ack ∈ acksOf (run (next sampleTransfer) (init ∅) sampleUnheard).inbound.sent,
        ∀ chunk ∈ sampleTransfer.source, chunk.length ≤ ack.window) ∧
      Stuck sampleTransfer (run (next sampleTransfer) (init ∅) sampleUnheard) := by
  refine ⟨by decide +kernel, by decide +kernel, ?_⟩
  exact
    { outbound := by decide +kernel
      inbound := by decide +kernel
      idle := rfl
      begun := by decide +kernel
      acked := by decide +kernel
      waiting := by decide +kernel
      left := ⟨1, by decide +kernel⟩ }

end WireMesh.TypeScript.Bulk
