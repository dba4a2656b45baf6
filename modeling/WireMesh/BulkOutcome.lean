import WireMesh.TypeScript.BulkReceiver

/-!
# The outcome of a bulk transfer

What a bulk sender says about a transfer when its call settles, and what the receiver has stored
by then. Whatever the receiver acks, it has stored (`Sound.acked`), and it goes on to hold it. An
outcome `incomplete` is taken from an ack. But `complete` is returned as soon as everything has
been sent, and counts chunks that are still on their way (`outcome_untruthful`).

If the receiver has acked every chunk that was sent, `complete` is true as well
(`outcome_truthful`).
-/

namespace WireMesh.TypeScript.Bulk

open Machine StorageProgram

/-- The chunk of the source is in the storage. -/
def HasChunk (t : Transfer) (storage : KeyValueStorage) (seq : ℕ) : Prop :=
  ∃ bytes, t.source[seq]? = some bytes ∧ storage.lookup (chunkKey t.idHex seq) = some bytes

/-- All the chunks that the receiver has counted are in the storage. -/
def Counted (t : Transfer) (storage : KeyValueStorage) : Prop :=
  ∀ seq < countAt storage (ackSeqKey t.idHex), HasChunk t storage seq

/-- What is written for a chunk is the chunk of the source. -/
def Honest (t : Transfer) (key : String) (value : Bytes) : Prop :=
  ∀ seq, key = chunkKey t.idHex seq → t.source[seq]? = some value

variable {t : Transfer}

theorem HasChunk.insert {storage : KeyValueStorage} {seq : ℕ} (h : HasChunk t storage seq)
    {key : String} {value : Bytes} (hwrite : Honest t key value) :
    HasChunk t (storage.insert key value) seq := by
  obtain ⟨bytes, hsource, hlookup⟩ := h
  by_cases hkey : chunkKey t.idHex seq = key
  · subst hkey
    exact ⟨value, hwrite seq rfl, AList.lookup_insert _⟩
  · exact ⟨bytes, hsource, (AList.lookup_insert_ne hkey).trans hlookup⟩

/-! ## The receiver -/

theorem honest_ackSeqKey (value : Bytes) : Honest t (ackSeqKey t.idHex) value :=
  fun seq hkey => absurd hkey.symm (chunkKey_ne_ackSeqKey seq)

theorem honest_windowKey (value : Bytes) : Honest t (windowKey t.idHex) value :=
  fun seq hkey => absurd hkey.symm (chunkKey_ne_windowKey seq)

theorem honest_openerKey (value : Bytes) : Honest t (openerKey t.idHex) value :=
  fun seq hkey => absurd hkey.symm (chunkKey_ne_openerKey seq)

theorem honest_chunkKey {seq : ℕ} {bytes : Bytes} (h : t.source[seq]? = some bytes) :
    Honest t (chunkKey t.idHex seq) bytes :=
  fun _ hkey => chunkKey_inj hkey ▸ h

theorem accept_honest (t : Transfer) (window : ℕ) :
    (accept t.idHex t.opener window).Writes (Honest t) :=
  accept_writes (honest_openerKey _) (honest_ackSeqKey _) (honest_windowKey _)

theorem onFrame_honest {frame : SenderFrame} (registered : Bool)
    (h : ∀ seq bytes, frame = .bulkData seq bytes → t.source[seq]? = some bytes) :
    (onFrame t.idHex t.digestOf registered frame).Writes (Honest t) := by
  obtain hquiet | ⟨seq, bytes, -, rfl, honFrame⟩ :=
    onFrame_cases t.idHex t.digestOf registered frame
  · exact onFrame_reads hquiet
  · grind [persist_writes, honest_chunkKey, honest_ackSeqKey]

/-- The chunks that an ack covers are in the storage. -/
def Covered (t : Transfer) (storage : KeyValueStorage) (acks : List BulkAckFrame) : Prop :=
  ∀ ack ∈ acks, ∀ seq < ack.ackSeq, HasChunk t storage seq

/-- When the receiver has done what it has begun, what it has counted and acked is stored. -/
@[grind cases]
structure Outlook.Sound (t : Transfer) (o : Outlook) : Prop where
  counted : Counted t o.storage
  promised : Covered t o.storage (acksOf o.frames)

@[grind cases]
structure Receiver.Sound (t : Transfer) (r : Receiver) : Prop where
  outlook : (r.outlook t.idHex).Sound t
  writes : ∀ program, r.task = .busy program → program.Writes (Honest t)

namespace Receiver.Sound

variable {r : Receiver}

theorem begin {program : StorageM Done} (houtlook : (r.outlookOf t.idHex program).Sound t)
    (hwrites : program.Writes (Honest t)) : Receiver.Sound t { r with task := .busy program } where
  outlook := houtlook
  writes _ htask := Task.busy.inj htask ▸ hwrites

/-- What is stored stays stored. -/
theorem hasChunk_work (h : r.Sound t) {seq : ℕ} (hseq : HasChunk t r.storage seq) :
    HasChunk t (r.work t.idHex).1.storage seq := by
  rcases Receiver.storage_work t.idHex h.writes with hsame | ⟨-, key, value, hwrite, hinsert⟩
  · rwa [hsame]
  · rw [hinsert]
    exact hseq.insert hwrite

theorem work (h : r.Sound t) : (r.work t.idHex).1.Sound t := by
  have houtlook := r.outlook_work t.idHex
  refine ⟨⟨?_, ?_⟩, Receiver.writes_work t.idHex h.writes⟩
  · have hcounted := h.outlook.counted
    rw [← houtlook] at hcounted
    exact hcounted
  · have hpromised := h.outlook.promised
    rw [← houtlook] at hpromised
    intro ack hack
    exact hpromised ack (by simp [Outlook.after, mem_acksOf.1 hack])

/-- What is acked is stored. -/
theorem covered_work (h : r.Sound t) :
    Covered t (r.work t.idHex).1.storage (acksOf (r.work t.idHex).2.toList) := by
  obtain ⟨storage, registered, task, completed⟩ := r
  intro ack hack
  cases task with
  | idle | offered => simp [Receiver.work] at hack
  | responded window =>
    simp only [Receiver.work, Option.toList_some, acksOf_cons, ReceiverFrame.ack] at hack
    obtain rfl := List.mem_singleton.1 hack
    simp
  | busy program =>
    cases program with
    | get key next => simp [Receiver.work] at hack
    | set key value next => simp [Receiver.work] at hack
    | ret done =>
      cases done with
      | send frame => exact h.outlook.promised ack hack
      | _ => simp [Receiver.work, Receiver.finish, ReceiverFrame.ack] at hack

end Receiver.Sound

section Begin

variable {r : Receiver}

theorem Counted.onFrame (hcounted : Counted t r.storage) {frame : SenderFrame}
    (hframe : ∀ seq bytes, frame = .bulkData seq bytes → t.source[seq]? = some bytes) :
    (r.outlookOf t.idHex (onFrame t.idHex t.digestOf r.registered frame)).Sound t := by
  obtain hquiet | ⟨seq, bytes, -, rfl, honFrame⟩ :=
    onFrame_cases t.idHex t.digestOf r.registered frame
  · obtain ⟨offers, frames, houtlook, hacks, -⟩ :=
      r.outlookOf_onFrame t.idHex t.digestOf hquiet
    constructor <;> grind [Covered]
  · rw [honFrame, Receiver.outlookOf, exec_persist]
    split_ifs with hseq
    · -- The chunk is stored before it is counted.
      have hstored : ∀ seq' < seq + 1, HasChunk t (stored t.idHex r.storage seq bytes) seq' := by
        intro seq' hlt
        refine HasChunk.insert ?_ (honest_ackSeqKey _)
        obtain rfl | hlt := (Nat.lt_succ_iff.1 hlt).eq_or_lt
        · exact ⟨bytes, hframe seq' bytes rfl, AList.lookup_insert _⟩
        · exact (hcounted seq' (hseq ▸ hlt)).insert (honest_chunkKey (hframe seq bytes rfl))
      refine ⟨?_, ?_⟩
      · intro seq' hlt
        grind [Done.outlook, stored, countAt_insert]
      · intro ack hack
        obtain rfl := List.mem_singleton.1 hack
        exact hstored
    · exact ⟨hcounted, by simp [Covered, Done.outlook]⟩

theorem outlook_accept_sound (r : Receiver) (window : ℕ) :
    (r.outlookOf t.idHex (accept t.idHex t.opener window)).Sound t := by
  rw [Receiver.outlookOf_eq (exec_accept ..)]
  refine ⟨?_, ?_⟩
  · intro seq hlt
    simp [Done.outlook, countAt_insert, ackSeqKey_ne_windowKey] at hlt
  · intro ack hack
    obtain rfl := List.mem_singleton.1 hack
    simp

theorem Counted.requestResume (hcounted : Counted t r.storage) (existing : Bool) :
    (r.outlookOf t.idHex (requestResume t.idHex existing)).Sound t := by
  rw [Receiver.outlookOf, exec_requestResume]
  split_ifs
  · exact ⟨hcounted, by simp [Covered, Done.outlook]⟩
  · refine ⟨hcounted, ?_⟩
    intro ack hack
    obtain rfl := List.mem_singleton.1 hack
    exact hcounted

end Begin

/-! ## The sender -/

/-- The chunk has been sent, or is covered by an ack. -/
def Offered (acks : List BulkAckFrame) (seqs : List ℕ) (seq : ℕ) : Prop :=
  seq ∈ seqs ∨ ∃ ack ∈ acks, seq < ack.ackSeq

theorem Offered.mono {acks acks' : List BulkAckFrame} {seqs seqs' : List ℕ} (hacks : acks ⊆ acks')
    (hseqs : seqs ⊆ seqs') {seq : ℕ} (h : Offered acks seqs seq) : Offered acks' seqs' seq :=
  h.imp (fun hmem => hseqs hmem) fun ⟨ack, hack, hlt⟩ => ⟨ack, hacks hack, hlt⟩

/-- What the counters of a stream rest on. -/
@[grind cases]
structure Stream.Founded (source : List Bytes) (acks : List BulkAckFrame) (seqs : List ℕ)
    (s : Stream) (rest : List Bytes) : Prop where
  acked : ∃ ack ∈ acks, ack.ackSeq = s.ackedCount
  offered : ∀ seq < s.seq, Offered acks seqs seq
  rest : rest = source.drop s.seq

theorem Stream.Founded.mono {source rest : List Bytes} {acks acks' : List BulkAckFrame}
    {seqs seqs' : List ℕ} {s : Stream} (hacks : acks ⊆ acks') (hseqs : seqs ⊆ seqs')
    (h : s.Founded source acks seqs rest) : s.Founded source acks' seqs' rest where
  acked := h.acked.imp fun _ hack => ⟨hacks hack.1, hack.2⟩
  offered seq hlt := (h.offered seq hlt).mono hacks hseqs
  rest := h.rest

def BulkSendOutcome.Founded (source : List Bytes) (acks : List BulkAckFrame) (seqs : List ℕ)
    (outcome : BulkSendOutcome) : Prop :=
  match outcome.status with
  | .complete =>
    (∀ seq < outcome.ackedCount, Offered acks seqs seq) ∧ source.length ≤ outcome.ackedCount
  | .incomplete => ∃ ack ∈ acks, ack.ackSeq = outcome.ackedCount
  | .rejected _ => outcome.ackedCount = 0

namespace Stage

/-- What the sender says rests on the chunks that it has sent and on the acks of the receiver. -/
def Founded (source : List Bytes) (acks : List BulkAckFrame) (seqs : List ℕ) : Stage → Prop
  | started ack => ack ∈ acks
  | pulling s rest => s.Founded source acks seqs rest
  | crediting s chunk rest => s.Founded source acks seqs (chunk :: rest)
  | credited s chunk rest ack => s.Founded source acks seqs (chunk :: rest) ∧ ack ∈ acks
  | sending s chunk rest => s.Founded source acks seqs (chunk :: rest) ∧ s.seq ∈ seqs
  | digesting s => s.Founded source acks seqs []
  | ending s => s.Founded source acks seqs []
  | settled outcome => outcome.Founded source acks seqs
  | _ => True

variable {source : List Bytes} {acks acks' : List BulkAckFrame} {seqs seqs' : List ℕ}
  {stage : Stage} {s : Stream} {rest : List Bytes}

theorem Founded.mono (hacks : acks ⊆ acks') (hseqs : seqs ⊆ seqs')
    (h : stage.Founded source acks seqs) : stage.Founded source acks' seqs' := by
  cases stage with
  | started ack => exact hacks h
  | pulling | crediting | digesting | ending => exact Stream.Founded.mono hacks hseqs h
  | credited => exact ⟨Stream.Founded.mono hacks hseqs h.1, hacks h.2⟩
  | sending => exact ⟨Stream.Founded.mono hacks hseqs h.1, hseqs h.2⟩
  | settled outcome =>
    obtain ⟨status, ackedCount⟩ := outcome
    cases status with
    | complete => exact ⟨fun seq hlt => (h.1 seq hlt).mono hacks hseqs, h.2⟩
    | incomplete => exact h.imp fun _ hack => ⟨hacks hack.1, hack.2⟩
    | rejected code => exact h
  | _ => trivial

theorem Founded.fail (h : stage.Founded source acks seqs) :
    stage.fail.Founded source acks seqs := by
  cases stage with
  | pulling s rest => exact Stream.Founded.acked h
  | sending s chunk rest => exact h.1.acked
  | opening | digesting | ending => trivial
  | _ => exact h

theorem Founded.onConnectionEnd (h : stage.Founded source acks seqs) :
    stage.onConnectionEnd.Founded source acks seqs := by
  cases stage with
  | starting => trivial
  | crediting s chunk rest => exact Stream.Founded.acked h
  | _ => exact h

theorem Founded.onResponse (h : stage.Founded source acks seqs) (code : Option String) :
    (stage.onResponse code).Founded source acks seqs := by
  cases stage with
  | opening =>
    cases code with
    | none => trivial
    | some code => exact rfl
  | _ => exact h

theorem Founded.onAck (h : stage.Founded source acks seqs) {ack : BulkAckFrame}
    (hack : ack ∈ acks) : (stage.onAck ack).Founded source acks seqs := by
  cases stage with
  | starting => exact hack
  | crediting s chunk rest => exact ⟨h, hack⟩
  | _ => exact h

/-- The stage and the frame after a step, whether the frame can be sent or not. -/
@[grind cases]
structure FoundedStep (source : List Bytes) (acks : List BulkAckFrame) (seqs : List ℕ)
    (step : Stage × Option SenderFrame) : Prop where
  frame : ∀ seq bytes, step.2 = some (.bulkData seq bytes) → source[seq]? = some bytes
  sent : step.1.Founded source acks (seqs ++ dataSeqs step.2.toList)
  failed : step.2 ≠ none → step.1.fail.Founded source acks seqs

theorem Founded.step (h : stage.Founded source acks seqs) :
    FoundedStep source acks seqs (stage, none) where
  frame _ _ hframe := by simp at hframe
  sent := by simpa using h
  failed hframe := absurd rfl hframe

theorem foundedStep_sendChunk {chunk : Bytes} (h : s.Founded source acks seqs (chunk :: rest)) :
    FoundedStep source acks seqs (sendChunk s chunk rest) := by
  unfold sendChunk
  split_ifs with hexceeds
  · exact Founded.step h
  · refine ⟨?_, ⟨h.mono (List.Subset.refl _) (List.subset_append_left _ _), ?_⟩, fun _ => h.acked⟩
    · grind [cons_eq_drop]
    · simp [SenderFrame.dataSeq]

theorem Founded.resume (h : stage.Founded source acks seqs) (digestOf : Bytes → Bytes)
    (cancelled : Bool) :
    FoundedStep source acks seqs (stage.resume source digestOf cancelled) := by
  cases stage with
  | started ack =>
    have hstart : (Stream.start ack).Founded source acks seqs (source.drop ack.ackSeq) :=
      ⟨⟨ack, h, rfl⟩, fun seq hlt => .inr ⟨ack, h, hlt⟩, rfl⟩
    exact Founded.step hstart
  | pulling s rest =>
    cases rest with
    | nil => exact Founded.step h
    | cons chunk rest =>
      cases cancelled with
      | true => exact Founded.step (Stream.Founded.acked h)
      | false => exact foundedStep_sendChunk h
  | credited s chunk rest ack =>
    obtain ⟨hstream, hack⟩ := h
    exact foundedStep_sendChunk ⟨⟨ack, hack, rfl⟩, hstream.offered, hstream.rest⟩
  | sending s chunk rest =>
    obtain ⟨hstream, hsent⟩ := h
    refine Founded.step ⟨hstream.acked, fun seq hlt => ?_, (cons_eq_drop hstream.rest).2⟩
    obtain rfl | hlt := (Nat.lt_succ_iff.1 hlt).eq_or_lt
    · exact .inl hsent
    · exact hstream.offered seq hlt
  | digesting s =>
    refine ⟨fun _ _ hframe => ?_, ?_, fun _ => trivial⟩
    · simp [Stage.resume] at hframe
    · have hstream : (ending s).Founded source acks seqs := h
      simpa [Stage.resume, SenderFrame.dataSeq] using hstream
  | ending s =>
    have hstream : s.Founded source acks seqs [] := h
    exact Founded.step ⟨hstream.offered, List.drop_eq_nil_iff.1 hstream.rest.symm⟩
  | _ => exact Founded.step h

end Stage

/-! ## Both sides -/

@[grind cases]
structure Sound (t : Transfer) (x : State) : Prop where
  frames : ∀ seq bytes, .bulkData seq bytes ∈ x.outbound.sent → t.source[seq]? = some bytes
  receiver : x.receiver.Sound t
  acked : Covered t x.receiver.storage (acksOf x.inbound.sent)
  sender : x.sender.Founded t.source (acksOf x.inbound.sent) (dataSeqs x.outbound.sent)

namespace Sound

variable {x : State}

theorem send (h : Sound t x) {step : Stage × Option SenderFrame}
    (hstep : Stage.FoundedStep t.source (acksOf x.inbound.sent) (dataSeqs x.outbound.sent) step) :
    Sound t (x.send step.1 step.2) := by
  obtain ⟨stage, frame⟩ := step
  cases frame with
  | none =>
    have hstage := hstep.sent
    rw [Option.toList_none, dataSeqs_nil, List.append_nil] at hstage
    exact { h with sender := hstage }
  | some frame => constructor <;> grind [State.send, Link.sent_put, dataSeqs_append]

/-- The receiver sends a frame, or it cannot. -/
theorem reply (h : Sound t x) {r : Receiver} {frame : Option ReceiverFrame} (hr : r.Sound t)
    (hkeeps : ∀ seq, HasChunk t x.receiver.storage seq → HasChunk t r.storage seq)
    (hframe : Covered t r.storage (acksOf frame.toList)) : Sound t (x.reply r frame) := by
  have hold : Covered t r.storage (acksOf x.inbound.sent) :=
    fun ack hack seq hlt => hkeeps seq (h.acked ack hack seq hlt)
  by_cases hended : x.ended
  · constructor <;> grind [State.reply]
  · have hreply : x.reply r frame =
        { x with
          receiver := r
          inbound := x.inbound.put frame } := by simp [State.reply, hended]
    rw [hreply]
    refine ⟨h.frames, hr, ?_, ?_⟩
    · intro ack hack
      rw [Link.sent_put, acksOf_append, List.mem_append] at hack
      exact hack.elim (hold ack) (hframe ack)
    · rw [Link.sent_put, acksOf_append]
      exact h.sender.mono (List.subset_append_left _ _) (List.Subset.refl _)

theorem begin (h : Sound t x) {program : StorageM Done}
    (houtlook : (x.receiver.outlookOf t.idHex program).Sound t)
    (hwrites : program.Writes (Honest t)) : Sound t (x.begin program) :=
  { h with receiver := .begin houtlook hwrites }

theorem counted (h : Sound t x) (hidle : x.receiver.task = .idle) :
    Counted t x.receiver.storage := by
  have hcounted := h.receiver.outlook.counted
  rwa [Receiver.outlook, hidle] at hcounted

theorem deliver (h : Sound t x) {frame : ReceiverFrame} {queue : List ReceiverFrame}
    (hqueue : x.inbound.queue = frame :: queue) :
    Sound t
      { x with
        sender := x.sender.onFrame frame
        inbound := x.inbound.pop frame queue } := by
  have hsent := Link.sent_pop hqueue
  refine ⟨h.frames, h.receiver, hsent ▸ h.acked, ?_⟩
  rw [hsent]
  cases frame with
  | response code => exact h.sender.onResponse code
  | bulkAck ack => exact h.sender.onAck (mem_acksOf.2 (Link.mem_sent hqueue))

theorem receive (h : Sound t x) (hidle : x.receiver.task = .idle) {frame : SenderFrame}
    {queue : List SenderFrame} (hqueue : x.outbound.queue = frame :: queue) :
    Sound t (x.take (onFrame t.idHex t.digestOf x.receiver.registered frame) frame queue) := by
  have hsent := Link.sent_pop hqueue
  have hframe : ∀ seq bytes, frame = .bulkData seq bytes → t.source[seq]? = some bytes := by
    grind [Link.mem_sent]
  have hbegin := h.begin ((h.counted hidle).onFrame hframe) (onFrame_honest _ hframe)
  exact ⟨fun seq bytes hmem => h.frames seq bytes (hsent ▸ hmem), hbegin.receiver, h.acked,
    by rw [State.take, hsent]; exact h.sender⟩

theorem next (h : Sound t x) (e : Event) : Sound t (Bulk.next t x e) := by
  cases e with
  | openTransfer =>
    simp only [Bulk.next]
    split
    · have hstep : Stage.FoundedStep t.source (acksOf x.inbound.sent)
          (dataSeqs x.outbound.sent) (.opening, some .bulkOpen) :=
        ⟨fun _ _ hframe => by simp at hframe, trivial, fun _ => trivial⟩
      exact h.send hstep
    · exact h
  | continueFrom =>
    simp only [Bulk.next]
    split
    · exact { h with sender := trivial }
    · exact h
  | resume => exact h.send (h.sender.resume _ _)
  | fail => exact { h with sender := h.sender.fail }
  | timeout => exact { h with sender := h.sender.onResponse (some "timeout") }
  | cancel => exact { h with }
  | deliver =>
    simp only [Bulk.next]
    split
    next hqueue => exact h.deliver hqueue
    next => exact h
  | receive =>
    simp only [Bulk.next]
    split
    next hidle hqueue => exact h.receive hidle hqueue
    next => exact h
  | work =>
    exact h.reply h.receiver.work (fun _ => h.receiver.hasChunk_work) h.receiver.covered_work
  | decide decision =>
    simp only [Bulk.next]
    split
    · exact h.begin (outlook_accept_sound _ _) (accept_honest _ _)
    next hoffered =>
      have hcounted := h.receiver.outlook.counted
      rw [Receiver.outlook, hoffered] at hcounted
      have hidle : Receiver.Sound t { x.receiver with task := .idle } :=
        ⟨⟨hcounted, by simp [Covered, Receiver.outlook, Done.outlook]⟩, by simp⟩
      exact h.reply hidle (fun _ hseq => hseq) (by simp [Covered, ReceiverFrame.ack])
    next => exact h
  | requestResume existing =>
    grind [Bulk.next, begin, counted, Counted.requestResume, requestResume_writes]
  | deregister =>
    obtain ⟨registered, -, houtlook⟩ := x.receiver.outlook_deregister t.idHex
    have hreceiver : Receiver.Sound t { x.receiver with registered := false } :=
      ⟨houtlook ▸ ⟨h.receiver.outlook.counted, h.receiver.outlook.promised⟩, h.receiver.writes⟩
    exact { h with receiver := hreceiver }
  | disconnect => exact { h with }
  | connectionEnd => constructor <;> grind [Bulk.next, Stage.Founded.onConnectionEnd]

theorem run {storage : KeyValueStorage} (hstorage : Counted t storage) (events : List Event) :
    Sound t (Machine.run (Bulk.next t) (init storage) events) := by
  refine run_invariant ⟨?_, ⟨⟨hstorage, ?_⟩, ?_⟩, ?_, trivial⟩ (fun _ e h => h.next e) events
  · simp [init, Link.sent]
  · simp [Covered, init, Receiver.outlook, Done.outlook]
  · simp [init]
  · simp [Covered, init, Link.sent]

end Sound

/-! ## Outcomes -/

theorem outcome_truthful (t : Transfer) {storage : KeyValueStorage} (hstorage : Counted t storage)
    (events : List Event) {outcome : BulkSendOutcome}
    (hsettled : (run (next t) (init storage) events).sender = .settled outcome)
    (hacked : outcome.status = .complete → (run (next t) (init storage) events).AllAcked) :
    (∀ seq < outcome.ackedCount,
        HasChunk t (run (next t) (init storage) events).receiver.storage seq ∧
        (run (next t) (init storage) events).Acked seq) ∧
      (outcome.status = .complete → ∀ seq < t.source.length,
        HasChunk t (run (next t) (init storage) events).receiver.storage seq) := by
  have hsound := Sound.run hstorage events
  generalize run (next t) (init storage) events = x at hsettled hacked hsound ⊢
  have hstored : ∀ seq, x.Acked seq → HasChunk t x.receiver.storage seq :=
    fun seq ⟨ack, hack, hlt⟩ => hsound.acked ack hack seq hlt
  have hfounded := hsound.sender
  rw [hsettled] at hfounded
  obtain ⟨status, ackedCount⟩ := outcome
  cases status with
  | complete =>
    obtain ⟨hoffered, hall⟩ := hfounded
    have hcovered : ∀ seq < ackedCount, x.Acked seq :=
      fun seq hlt => (hoffered seq hlt).elim (hacked rfl seq) id
    exact ⟨fun seq hlt => ⟨hstored seq (hcovered seq hlt), hcovered seq hlt⟩,
      fun _ seq hlt => hstored seq (hcovered seq (hlt.trans_le hall))⟩
  | incomplete =>
    obtain ⟨ack, hack, rfl⟩ := hfounded
    exact ⟨fun seq hlt => ⟨hsound.acked ack hack seq hlt, ack, hack, hlt⟩, Status.noConfusion⟩
  | rejected code =>
    obtain rfl : ackedCount = 0 := hfounded
    exact ⟨fun seq hlt => absurd hlt (Nat.not_lt_zero seq), Status.noConfusion⟩

/-- Both chunks are sent, stored and acked before the call settles. -/
def sampleComplete : List Event :=
  sampleOpening 2 ++ [.resume, .resume, .resume, .resume, .resume, .resume] ++
    sampleStore ++ sampleStore ++ [.resume]

theorem outcome_truthful_sample :
    (run (next sampleTransfer) (init ∅) sampleComplete).sender =
        .settled { status := .complete, ackedCount := 2 } ∧
      ∀ seq < 2, HasChunk sampleTransfer
        (run (next sampleTransfer) (init ∅) sampleComplete).receiver.storage seq := by
  have hsettled : (run (next sampleTransfer) (init ∅) sampleComplete).sender =
      .settled { status := .complete, ackedCount := 2 } := by decide +kernel
  refine ⟨hsettled, ?_⟩
  have hcounted : Counted sampleTransfer ∅ := fun seq hlt => absurd hlt (Nat.not_lt_zero seq)
  have hacked : (run (next sampleTransfer) (init ∅) sampleComplete).AllAcked := by decide +kernel
  exact (outcome_truthful sampleTransfer hcounted sampleComplete hsettled fun _ => hacked).2 rfl

/-- Both chunks are sent, and the call settles before any of them arrives. -/
def sampleUntold : List Event :=
  sampleOpening 2 ++ [.resume, .resume, .resume, .resume, .resume, .resume, .resume]

theorem outcome_untruthful :
    (run (next sampleTransfer) (init ∅) sampleUntold).sender =
        .settled { status := .complete, ackedCount := 2 } ∧
      ∀ seq < 2, ¬(run (next sampleTransfer) (init ∅) sampleUntold).Acked seq ∧
        ¬HasChunk sampleTransfer
          (run (next sampleTransfer) (init ∅) sampleUntold).receiver.storage seq := by
  have hnone : ∀ seq < 2, (run (next sampleTransfer) (init ∅) sampleUntold).receiver.storage.lookup
      (chunkKey sampleTransfer.idHex seq) = none := by decide +kernel
  refine ⟨by decide +kernel, fun seq hlt => ⟨?_, ?_⟩⟩
  · have hunacked : ∀ seq < 2, ¬(run (next sampleTransfer) (init ∅) sampleUntold).Acked seq := by
      decide +kernel
    exact hunacked seq hlt
  · rintro ⟨bytes, -, hlookup⟩
    rw [hnone seq hlt] at hlookup
    cases hlookup

end WireMesh.TypeScript.Bulk
