import Mathlib.Data.Finset.Card
import WireMesh.StoragePool
import WireMesh.TypeScript.Logs
import WireMesh.TypeScript.Mailbox

/-!
# The budgets of a mailbox

A mailbox keeps books of the logs that it holds: how many there are, and how many bytes are in
each of them (`Books`). Every call that nothing interrupts keeps the books in order and within the
limits. But a call reads the books long before it writes them: of two calls at once, the later one
overwrites what the earlier one has entered (`books_out_of_order`).

If no two calls with entries overlap, the budgets hold whenever no call is in progress, whatever
calls without entries do meanwhile (`budgets_hold`).
-/

namespace WireMesh.TypeScript.Mailbox

open Machine StorageProgram StoragePool

/-! ## The books -/

/-- The logs that a mailbox holds, the bytes that it has counted for each of them, and the number
    of logs that it has counted. -/
structure Books where
  logs : Logs
  bytes : DeviceId → ℕ
  count : ℕ

/-- The books are in the storage. -/
@[grind cases]
structure Keeps (storage : KeyValueStorage) (b : Books) : Prop where
  logs : Represents storage b.logs
  bytes : ∀ peer, countAt storage (logBytesKey peer) = b.bytes peer
  count : countAt storage logCountKey = b.count

def sizeOf (entries : List Bytes) : ℕ := (entries.map List.length).sum

namespace Books

variable (limits : MailboxLimits) (b : Books)

/-- The books after the entries of a frame have been taken. -/
def enter (frame : DataEntriesFrame) : Books where
  logs := b.logs.extend frame.peer frame.entries
  bytes := Function.update b.bytes frame.peer (b.bytes frame.peer + sizeOf frame.entries)
  count := if b.logs frame.peer = [] ∧ frame.entries ≠ [] then b.count + 1 else b.count

/-- Why the entries of a frame are not taken. -/
def refusal (sender : DeviceId) (frame : DataEntriesFrame) : Option MailboxRefusalReason :=
  if sender ≠ frame.peer then some .notTheOwner
  else if frame.entries.any fun entry => limits.maxEntryBytes < entry.length then some .sizeLimit
  else if limits.maxLogBytes < b.bytes frame.peer + sizeOf frame.entries then some .entryLimit
  else if b.logs frame.peer = [] ∧ limits.maxLogs ≤ b.count then some .logLimit
  else if frame.fromSeq ≠ (b.logs frame.peer).length then some .gap
  else none

end Books

/-! ## Keys of the mailbox -/

theorem not_isLogKey_mailbox (peer : DeviceId) (rest : String) :
    ¬IsLogKey peer ("mailbox/" ++ rest) := by
  rintro (hkey | ⟨seq, hkey⟩)
  · have h := congrArg String.toList hkey
    simp [headKey] at h
  · exact entryKey_ne_mailbox peer seq rest hkey.symm

theorem not_isLogKey_logCountKey (peer : DeviceId) : ¬IsLogKey peer logCountKey :=
  not_isLogKey_mailbox peer "log-count"

theorem not_isLogKey_logBytesKey (peer peer' : DeviceId) : ¬IsLogKey peer (logBytesKey peer') := by
  rw [logBytesKey, String.append_assoc]
  exact not_isLogKey_mailbox peer _

theorem logBytesKey_inj {peer peer' : DeviceId} (h : logBytesKey peer = logBytesKey peer') :
    peer = peer' := by
  have h := congrArg String.toList h
  simp only [logBytesKey, String.toList_append, List.append_assoc] at h
  exact (deviceKey_inj h).1

theorem logBytesKey_ne_logCountKey (peer : DeviceId) : logBytesKey peer ≠ logCountKey := by
  intro h
  have h := congrArg (fun key => key.toList.length) h
  simp [logBytesKey, logCountKey, String.toList_append, deviceIdToHex_length] at h

/-! ## Calls that nothing interrupts -/

variable {limits : MailboxLimits} {storage : KeyValueStorage} {b : Books}

theorem sameElsewhere_handleDataEntries (storage : KeyValueStorage) (frame : DataEntriesFrame) :
    SameElsewhere frame.peer storage ((handleDataEntries frame).exec storage).1 := by
  intro key hkey
  have hwrites : (handleDataEntries frame).Writes fun key _ => IsLogKey frame.peer key :=
    handleDataEntries_writes (fun seq _ _ => .inr ⟨seq, rfl⟩) fun _ => .inl rfl
  exact hwrites.exec_lookup (fun _ => hkey) storage

theorem Keeps.insert_bytes (h : Keeps storage b) (peer : DeviceId) (n : ℕ) :
    Keeps (storage.insert (logBytesKey peer) (encodeCount n))
      { b with bytes := Function.update b.bytes peer n } where
  logs := h.logs.insert (fun peer' => not_isLogKey_logBytesKey peer' peer) _
  bytes peer' := by grind [countAt_insert, logBytesKey_inj]
  count := by rw [countAt_insert, if_neg (logBytesKey_ne_logCountKey peer).symm, h.count]

theorem Keeps.insert_count (h : Keeps storage b) (n : ℕ) :
    Keeps (storage.insert logCountKey (encodeCount n)) { b with count := n } where
  logs := h.logs.insert not_isLogKey_logCountKey _
  bytes peer' := by rw [countAt_insert, if_neg (logBytesKey_ne_logCountKey peer'), h.bytes]
  count := by rw [countAt_insert, if_pos rfl]

/-- The entries are stored, but the books are as they were. -/
theorem Keeps.handleDataEntries (h : Keeps storage b) {frame : DataEntriesFrame}
    (hfrom : frame.fromSeq = (b.logs frame.peer).length) :
    let result := (handleDataEntries frame).exec storage
    Keeps result.1 { b with logs := b.logs.extend frame.peer frame.entries } ∧ result.2 = true := by
  have hsame := sameElsewhere_handleDataEntries storage frame
  obtain ⟨hlogs, hreply⟩ := h.logs.handleDataEntries frame
  simp only [Logs.handleDataEntries, if_pos hfrom] at hlogs hreply
  refine ⟨⟨hlogs, fun peer => ?_, ?_⟩, hreply⟩
  · rw [countAt, hsame _ (not_isLogKey_logBytesKey _ _)]
    exact h.bytes peer
  · rw [countAt, hsame _ (not_isLogKey_logCountKey _)]
    exact h.count

theorem Keeps.keepEntries (h : Keeps storage b) {frame : DataEntriesFrame}
    (hfrom : frame.fromSeq = (b.logs frame.peer).length) :
    let result := (keepEntries frame (b.bytes frame.peer + sizeOf frame.entries)
      (decide (b.logs frame.peer = []))).exec storage
    Keeps result.1 (b.enter frame) ∧ result.2 = .ok none := by
  obtain ⟨hstored, hreply⟩ := h.handleDataEntries hfrom
  have hbytes := hstored.insert_bytes frame.peer (b.bytes frame.peer + sizeOf frame.entries)
  rw [Mailbox.keepEntries]
  simp only [exec_bind, hreply, Bool.not_true, Bool.false_eq_true, if_false, exec_write]
  by_cases hnew : b.logs frame.peer = [] ∧ frame.entries ≠ []
  · have hcond : (decide (b.logs frame.peer = []) && !frame.entries.isEmpty) = true := by
      simp [hnew.1, hnew.2]
    simp only [if_pos hcond, exec_bind, exec_readCount, hbytes.count, exec_write, exec_pure,
      and_true]
    rw [Books.enter, if_pos hnew]
    exact hbytes.insert_count (b.count + 1)
  · grind [exec_pure, Books.enter]

theorem Keeps.keepEntries_gap (h : Keeps storage b) {frame : DataEntriesFrame}
    (hfrom : frame.fromSeq ≠ (b.logs frame.peer).length) (bytes : ℕ) (isNewLog : Bool) :
    (Mailbox.keepEntries frame bytes isNewLog).exec storage = (storage, .error .gap) := by
  have hstored : (TypeScript.handleDataEntries frame).exec storage = (storage, false) := by
    rw [TypeScript.handleDataEntries, exec_bind, exec_headSeqFor, (h.logs frame.peer).head,
      if_pos hfrom, exec_pure]
  rw [Mailbox.keepEntries, exec_bind, hstored]
  rfl

theorem Keeps.exec_handleEntries (h : Keeps storage b) (sender : DeviceId)
    (frame : DataEntriesFrame) :
    (Mailbox.handleEntries limits sender frame).exec storage =
      if sender ≠ frame.peer then (storage, .error .notTheOwner)
      else if frame.entries.any fun entry => limits.maxEntryBytes < entry.length then
        (storage, .error .sizeLimit)
      else if limits.maxLogBytes < b.bytes frame.peer + sizeOf frame.entries then
        (storage, .error .entryLimit)
      else if b.logs frame.peer = [] ∧ limits.maxLogs ≤ b.count then (storage, .error .logLimit)
      else (Mailbox.keepEntries frame (b.bytes frame.peer + sizeOf frame.entries)
        (decide (b.logs frame.peer = []))).exec storage := by
  have hsize : (frame.entries.map List.length).sum = sizeOf frame.entries := rfl
  have hnew : (headOf storage frame.peer == 0) = decide (b.logs frame.peer = []) := by
    rw [(h.logs frame.peer).head]
    cases b.logs frame.peer <;> simp
  rw [Mailbox.handleEntries]
  grind [exec_bind, exec_readCount, exec_pure, exec_headSeqFor]

/-- A call refuses the entries, or takes them and enters them in the books. -/
theorem Keeps.handleEntries (h : Keeps storage b) (sender : DeviceId) (frame : DataEntriesFrame) :
    (∃ reason, b.refusal limits sender frame = some reason ∧
      (Mailbox.handleEntries limits sender frame).exec storage = (storage, .error reason)) ∨
    b.refusal limits sender frame = none ∧
      Keeps ((Mailbox.handleEntries limits sender frame).exec storage).1 (b.enter frame) ∧
      ((Mailbox.handleEntries limits sender frame).exec storage).2 = .ok none := by
  rw [h.exec_handleEntries, Books.refusal]
  grind [keepEntries_gap, keepEntries]

/-! ## The budgets -/

variable (limits) in
/-- The books are in order, and within the limits. -/
@[grind cases]
structure InOrder (b : Books) : Prop where
  logs : ∃ held : Finset DeviceId, (∀ peer, peer ∈ held ↔ b.logs peer ≠ []) ∧
    b.count = held.card ∧ held.card ≤ limits.maxLogs
  bytes : ∀ peer, sizeOf (b.logs peer) = b.bytes peer ∧ b.bytes peer ≤ limits.maxLogBytes
  entries : ∀ peer, ∀ entry ∈ b.logs peer, entry.length ≤ limits.maxEntryBytes

/-- What the mailbox checks is enough to keep the books in order. -/
theorem InOrder.enter (h : InOrder limits b) {sender : DeviceId} {frame : DataEntriesFrame}
    (hrefusal : b.refusal limits sender frame = none) : InOrder limits (b.enter frame) := by
  obtain ⟨hany, hbytes, hlogs⟩ :
      (∀ entry ∈ frame.entries, entry.length ≤ limits.maxEntryBytes) ∧
      b.bytes frame.peer + sizeOf frame.entries ≤ limits.maxLogBytes ∧
      (b.logs frame.peer = [] → b.count < limits.maxLogs) := by grind [Books.refusal]
  have hlog (peer : DeviceId) : (b.enter frame).logs peer =
      if peer = frame.peer then b.logs frame.peer ++ frame.entries else b.logs peer :=
    Function.update_apply ..
  refine ⟨?_, fun peer => ?_, fun peer => ?_⟩
  · obtain ⟨held, hheld, hcount, hle⟩ := h.logs
    by_cases hnew : b.logs frame.peer = [] ∧ frame.entries ≠ []
    -- The log is one more.
    · have hnot : frame.peer ∉ held := fun hmem => (hheld _).1 hmem hnew.1
      refine ⟨insert frame.peer held, fun peer => ?_, ?_, ?_⟩
      · grind
      · rw [Books.enter, if_pos hnew, Finset.card_insert_of_notMem hnot, hcount]
      · grind
    · grind [List.append_eq_nil_iff, Books.enter]
  · have hbytes' : (b.enter frame).bytes peer =
        if peer = frame.peer then b.bytes frame.peer + sizeOf frame.entries else b.bytes peer :=
      Function.update_apply ..
    grind [sizeOf]
  · grind

variable (limits) in
/-- The books of a mailbox are in the storage, in order and within the limits. -/
def Kept (storage : KeyValueStorage) : Prop := ∃ b, Keeps storage b ∧ InOrder limits b

theorem kept_empty : Kept limits ∅ := by
  refine ⟨⟨fun _ => [], fun _ => 0, 0⟩, ⟨represents_empty, fun _ => rfl, rfl⟩, ?_, ?_, ?_⟩
  · exact ⟨∅, by simp, rfl, Nat.zero_le _⟩
  · exact fun _ => ⟨rfl, Nat.zero_le _⟩
  · simp

variable (limits) in
/-- The limits are observed, as far as can be seen from the storage. -/
@[grind cases]
structure Budgets (storage : KeyValueStorage) : Prop where
  logs : ∃ held : Finset DeviceId, (∀ peer, peer ∈ held ↔ headOf storage peer ≠ 0) ∧
    countAt storage logCountKey = held.card ∧ held.card ≤ limits.maxLogs
  bytes : ∀ peer,
    sizeOf ((readEntries peer 0).exec storage).2 = countAt storage (logBytesKey peer) ∧
      countAt storage (logBytesKey peer) ≤ limits.maxLogBytes
  entries : ∀ peer, ∀ entry ∈ ((readEntries peer 0).exec storage).2,
    entry.length ≤ limits.maxEntryBytes

theorem Kept.budgets (h : Kept limits storage) : Budgets limits storage := by
  obtain ⟨b, hkeeps, horder⟩ := h
  have hlog (peer : DeviceId) : ((readEntries peer 0).exec storage).2 = b.logs peer := by
    rw [(hkeeps.logs peer).readEntries]
  refine ⟨?_, fun peer => ?_, fun peer => ?_⟩
  · obtain ⟨held, hheld, hcount⟩ := horder.logs
    rw [hkeeps.count]
    refine ⟨held, fun peer => ?_, hcount⟩
    rw [hheld, (hkeeps.logs peer).head, ne_eq, ne_eq, List.length_eq_zero_iff]
  · rw [hlog, hkeeps.bytes]
    exact horder.bytes peer
  · rw [hlog]
    exact horder.entries peer

/-! ## Calls that share the storage -/

structure Request where
  sender : Option DeviceId
  frame : DataFrame
deriving DecidableEq

def body (limits : MailboxLimits) (r : Request) : StorageM Reply := handle limits r.sender r.frame

/-- The request carries entries. -/
def Request.Carries (r : Request) : Prop :=
  match r.frame with
  | .dataEntries _ => True
  | _ => False

instance : DecidablePred Request.Carries
  | ⟨_, .dataEntries _⟩ => .isTrue trivial
  | ⟨_, .dataHave _⟩ => .isFalse id
  | ⟨_, .dataRequest _⟩ => .isFalse id

theorem body_writes (r : Request) (h : ¬r.Carries) : (body limits r).Writes fun _ _ => False := by
  obtain ⟨sender, frame⟩ := r
  cases sender with
  | none => exact writes_pure _
  | some sender =>
    cases frame with
    | dataHave frame => exact handleHave_writes sender frame
    | dataRequest frame => exact (handleDataRequest_writes _ _).bind fun _ => writes_pure _
    | dataEntries frame => exact absurd trivial h

theorem kept_body (r : Request) (storage : KeyValueStorage) (h : Kept limits storage) :
    Kept limits ((body limits r).exec storage).1 := by
  by_cases hcarries : r.Carries
  · obtain ⟨sender, frame⟩ := r
    cases frame with
    | dataHave | dataRequest => cases hcarries
    | dataEntries frame =>
      cases sender with
      | none => exact h
      | some sender =>
        obtain ⟨b, hkeeps, horder⟩ := h
        change Kept limits ((handleEntries limits sender frame).exec storage).1
        rcases hkeeps.handleEntries sender frame with ⟨reason, -, hexec⟩ | ⟨hrefusal, hkeeps', -⟩
        · rw [hexec]
          exact ⟨b, hkeeps, horder⟩
        · exact ⟨_, hkeeps', horder.enter hrefusal⟩
  · rw [(body_writes r hcarries).exec_eq]
    exact h

/-- The frame is refused. -/
def Refused (reply : Reply) : Prop := ∃ reason, reply = .error reason

theorem not_refused_ok (frame : Option DataFrame) : ¬Refused (.ok frame) := by
  rintro ⟨reason, h⟩
  cases h

theorem harmless_handleDataEntries (frame : DataEntriesFrame) :
    (handleDataEntries frame).Harmless fun stored => stored = false := by
  refine (readCount_writes _).harmless_bind fun head => ?_
  split_ifs
  · trivial
  · refine Returns.harmless ((returns_of_forall _ fun _ => trivial).bind (Q := fun _ => True) ?_)
    exact fun _ _ => Bool.true_eq_false_eq_False

/-- Once entries have been written, the frame is not refused any more. -/
theorem harmless_keepEntries (frame : DataEntriesFrame) (bytes : ℕ) (isNewLog : Bool) :
    (keepEntries frame bytes isNewLog).Harmless Refused := by
  have hcounted : (do
      write (logBytesKey frame.peer) (encodeCount bytes)
      if isNewLog && !frame.entries.isEmpty then
        write logCountKey (encodeCount ((← readCount logCountKey) + 1))
      return .ok none : StorageM Reply).Returns fun reply => ¬Refused reply := by
    refine (returns_of_forall _ fun _ => trivial).bind (Q := fun _ => True) fun _ _ => ?_
    split_ifs
    · exact fun _ => not_refused_ok none
    · exact not_refused_ok none
  refine (harmless_handleDataEntries frame).bind (fun stored => ?_) fun stored hstored => ?_
  · cases stored with
    | false => trivial
    | true => exact hcounted.harmless
  · grind

theorem harmless_handleEntries (sender : DeviceId) (frame : DataEntriesFrame) :
    (handleEntries limits sender frame).Harmless Refused := by
  rw [handleEntries]
  split_ifs
  · trivial
  · trivial
  · refine (readCount_writes _).harmless_bind fun held => ?_
    dsimp only
    split_ifs
    · trivial
    · refine (readCount_writes _).harmless_bind fun head => ?_
      split_ifs
      · refine (readCount_writes _).harmless_bind fun count => ?_
        split_ifs
        · trivial
        · exact harmless_keepEntries _ _ _
      · exact harmless_keepEntries _ _ _

theorem harmless_body (r : Request) : (body limits r).Harmless Refused := by
  by_cases hcarries : r.Carries
  · obtain ⟨sender, frame⟩ := r
    cases frame with
    | dataHave | dataRequest => cases hcarries
    | dataEntries frame =>
      cases sender with
      | none => trivial
      | some sender => exact harmless_handleEntries sender frame
  · exact (body_writes r hcarries).harmless

/-- If no two calls with entries overlap, the limits are observed whenever no call is in progress.
    In any case a call that is refused has not written anything. -/
theorem budgets_hold (limits : MailboxLimits) (events : List (Event Request)) :
    (Along (next (body limits)) (Alone (BothWrite Request.Carries)) init events →
      (∀ call ∈ (run (next (body limits)) init events).calls, call.result.isSome) →
      Budgets limits (run (next (body limits)) init events).storage) ∧
    ∀ i request reason before after,
      (run (next (body limits)) init events).Returned i request (.error reason) →
      events = before ++ .resume i :: after →
      (run (next (body limits)) init (before ++ [.resume i])).storage =
        (run (next (body limits)) init before).storage := by
  constructor
  · intro halone hidle
    have hsettles := settles_run body_writes kept_body kept_empty halone
    exact (hsettles.idle fun call hcall _ => hidle call hcall).budgets
  · rintro i request reason before after hreturned rfl
    exact storage_eq_of_refused harmless_body hreturned ⟨reason, rfl⟩

def sampleLimits : MailboxLimits where
  maxLogs := 1
  maxLogBytes := 10
  maxEntryBytes := 5
  readBatch := 8

/-- A device sends the first entry of its log. -/
def sampleEntries (n : UInt8) : Request where
  sender := some (.pad [n])
  frame := .dataEntries { peer := .pad [n], fromSeq := 0, entries := [[n]] }

/-- Another device asks for the log. -/
def sampleRequest : Request where
  sender := some (.pad [2])
  frame := .dataRequest { peer := .pad [1], fromSeq := 0 }

/-- The log is asked for while its first entry is being stored. -/
theorem budgets_hold_sample :
    Budgets sampleLimits (run (next (body sampleLimits)) init
      ([.start (sampleEntries 1), .start sampleRequest, .resume 1] ++
        List.replicate 9 (.resume 0))).storage :=
  (budgets_hold sampleLimits _).1 (by decide +kernel) (by decide +kernel)

/-- Two devices send the first entries of their logs at once, where there is room for one. -/
def sampleRace : List (Event Request) :=
  [.start (sampleEntries 1), .start (sampleEntries 2)] ++
    (List.replicate 9 [.resume 0, .resume 1]).flatten

theorem books_out_of_order :
    (∀ call ∈ (run (next (body sampleLimits)) init sampleRace).calls, call.result.isSome) ∧
      ¬Budgets sampleLimits (run (next (body sampleLimits)) init sampleRace).storage := by
  refine ⟨by decide +kernel, fun h => ?_⟩
  obtain ⟨held, hheld, -, hle⟩ := h.logs
  have hfirst : .pad [1] ∈ held := (hheld _).2 (by decide +kernel)
  have hsecond : .pad [2] ∈ held := (hheld _).2 (by decide +kernel)
  have hcard : 1 < held.card :=
    Finset.one_lt_card.2 ⟨_, hfirst, _, hsecond, by decide +kernel⟩
  exact absurd hle (not_le.2 hcard)

end WireMesh.TypeScript.Mailbox
