import WireMesh.TypeScript.DataSync

/-!
# The mailbox of a hub

The announcer role of a hub (`hub-mailbox.ts`): it keeps the logs of devices that are away.
Only the device that a log is of may write to it, within bounds on the number of logs, on
their sizes and on the sizes of their entries; any device may read it.

* `handle_writes`: an entry of a log is only written for a frame of its device that carries
  the entry.
-/

namespace WireMesh.TypeScript

open StorageProgram

structure MailboxLimits where
  maxLogs : ℕ
  maxLogBytes : ℕ
  maxEntryBytes : ℕ
  readBatch : ℕ

inductive MailboxRefusalReason
  | notTheOwner
  | unregisteredSender
  | logLimit
  | sizeLimit
  | entryLimit
  | gap
deriving DecidableEq

namespace Mailbox

/-- A reply, if there is one, unless the frame is refused. -/
abbrev Reply := Except MailboxRefusalReason (Option DataFrame)

def logCountKey : String := "mailbox/log-count"

def logBytesKey (peer : DeviceId) : String := "mailbox/" ++ deviceIdToHex peer ++ "/bytes"

variable (limits : MailboxLimits)

def handleHave (sender : DeviceId) (frame : DataHaveFrame) : StorageM Reply := do
  if sender ≠ frame.peer then return .error .notTheOwner
  if (← headSeqFor frame.peer) = 0 then
    if limits.maxLogs ≤ (← readCount logCountKey) then return .error .logLimit
  return .ok ((← handleDataHave frame).map .dataRequest)

/-- The entries are stored, and counted. -/
def keepEntries (frame : DataEntriesFrame) (bytes : ℕ) (isNewLog : Bool) : StorageM Reply := do
  if !(← handleDataEntries frame) then return .error .gap
  write (logBytesKey frame.peer) (encodeCount bytes)
  if isNewLog && !frame.entries.isEmpty then
    write logCountKey (encodeCount ((← readCount logCountKey) + 1))
  return .ok none

def handleEntries (sender : DeviceId) (frame : DataEntriesFrame) : StorageM Reply := do
  if sender ≠ frame.peer then return .error .notTheOwner
  if frame.entries.any fun entry => limits.maxEntryBytes < entry.length then
    return .error .sizeLimit
  let held ← readCount (logBytesKey frame.peer)
  let added := (frame.entries.map List.length).sum
  if limits.maxLogBytes < held + added then return .error .entryLimit
  let isNewLog := (← headSeqFor frame.peer) == 0
  if isNewLog then
    if limits.maxLogs ≤ (← readCount logCountKey) then return .error .logLimit
  keepEntries frame (held + added) isNewLog

/-- The answer to a frame from a connection that the hub has verified to be of `sender`. -/
def handle (sender : Option DeviceId) (frame : DataFrame) : StorageM Reply :=
  match sender with
  | none => return .error .unregisteredSender
  | some sender => match frame with
    | .dataHave frame => handleHave limits sender frame
    | .dataEntries frame => handleEntries limits sender frame
    | .dataRequest frame => do
      return .ok ((← handleDataRequest frame limits.readBatch).map .dataEntries)

/-! ## Who writes to a log -/

variable {limits} {P : String → Bytes → Prop}

theorem storeEntries_writes {peer : DeviceId} {entries : List Bytes}
    {seq : ℕ} (h : ∀ i entry, entries[i]? = some entry → P (entryKey peer (seq + i)) entry) :
    (storeEntries peer seq entries).Writes P := by
  induction entries generalizing seq with
  | nil => exact writes_pure ()
  | cons entry entries ih =>
    refine (writes_write.2 (h 0 entry rfl)).bind fun _ => ih fun i entry' hentry' => ?_
    rw [Nat.add_assoc, Nat.add_comm 1]
    exact h (i + 1) entry' hentry'

theorem handleDataEntries_writes {frame : DataEntriesFrame}
    (hentry : ∀ seq value, frame.Carries seq value → P (entryKey frame.peer seq) value)
    (hhead : ∀ seq, P (headKey frame.peer) (encodeCount seq)) :
    (handleDataEntries frame).Writes P := by
  refine (readCount_writes _).bind fun head => ?_
  split_ifs
  · exact writes_pure _
  · refine (storeEntries_writes fun i entry h => hentry _ entry ⟨i, rfl, h⟩).bind fun _ => ?_
    exact (writes_write.2 (hhead _)).bind fun _ => writes_pure _

/-- What may be written for a frame that carries entries of a log. -/
@[grind cases]
structure MayWrite (P : String → Bytes → Prop) (frame : DataEntriesFrame) : Prop where
  entry : ∀ seq value, frame.Carries seq value → P (entryKey frame.peer seq) value
  head : ∀ n, P (headKey frame.peer) (encodeCount n)
  bytes : ∀ n, P (logBytesKey frame.peer) (encodeCount n)
  count : ∀ n, P logCountKey (encodeCount n)

theorem keepEntries_writes {frame : DataEntriesFrame} (h : MayWrite P frame) (bytes : ℕ)
    (isNewLog : Bool) : (keepEntries frame bytes isNewLog).Writes P := by
  refine (handleDataEntries_writes h.entry h.head).bind fun stored => ?_
  grind [writes_pure, writes_write, Writes.bind, readCount_writes]

theorem handleEntries_writes {sender : DeviceId} {frame : DataEntriesFrame}
    (h : sender = frame.peer → MayWrite P frame) :
    (handleEntries limits sender frame).Writes P := by
  unfold handleEntries
  split_ifs with hsender
  · exact writes_pure _
  · exact writes_pure _
  · have hkeep := keepEntries_writes (h (not_not.1 hsender))
    refine (readCount_writes _).bind fun held => ?_
    dsimp only
    split_ifs
    · exact writes_pure _
    · refine (readCount_writes _).bind fun head => ?_
      grind [readCount_writes, Writes.bind, writes_pure]

theorem readRun_writes (peer : DeviceId) (first count : ℕ) :
    (readRun peer first count).Writes P := by
  induction count generalizing first with
  | zero => exact writes_pure _
  | succ count ih =>
    refine (writes_read _).bind fun entry => ?_
    grind [writes_pure, Writes.bind]

theorem handleDataRequest_writes (frame : DataRequestFrame) (limit : ℕ) :
    (handleDataRequest frame limit).Writes P := by
  refine (readCount_writes _).bind fun head => ?_
  grind [writes_pure, readRun_writes, Writes.bind]

theorem handleHave_writes (sender : DeviceId) (frame : DataHaveFrame) :
    (handleHave limits sender frame).Writes P := by
  have hreply : (handleDataHave frame).Writes P := by
    refine (readCount_writes _).bind fun head => ?_
    grind [writes_pure]
  unfold handleHave
  split_ifs
  · exact writes_pure _
  · refine (readCount_writes _).bind fun head => ?_
    grind [readCount_writes, Writes.bind, writes_pure]

/-- An entry of a log is only written for its device, which has sent it. -/
def Owns (sender : Option DeviceId) (frame : DataFrame) (key : String) (value : Bytes) : Prop :=
  ∀ device seq, key = entryKey device seq →
    sender = some device ∧ ∃ entries, frame = .dataEntries entries ∧ entries.peer = device ∧
      entries.Carries seq value

theorem entryKey_ne_mailbox (device : DeviceId) (seq : ℕ) (rest : String) :
    entryKey device seq ≠ "mailbox/" ++ rest := by
  intro h
  have h := congrArg String.toList h
  simp [entryKey] at h

theorem handle_writes (sender : Option DeviceId) (frame : DataFrame) :
    (handle limits sender frame).Writes (Owns sender frame) := by
  cases sender with
  | none => exact writes_pure _
  | some sender =>
    cases frame with
    | dataHave frame => exact handleHave_writes sender frame
    | dataRequest frame => exact (handleDataRequest_writes _ _).bind fun _ => writes_pure _
    | dataEntries frame =>
      refine handleEntries_writes fun hsender => ⟨?_, ?_, ?_, ?_⟩
      · intro seq value hentry device seq' hkey
        grind [entryKey_inj]
      · intro n device seq hkey
        exact absurd hkey.symm (entryKey_ne_headKey _ _ _)
      · intro n device seq hkey
        grind [logBytesKey, String.append_assoc, entryKey_ne_mailbox]
      · intro n device seq hkey
        exact absurd hkey.symm (entryKey_ne_mailbox device seq "log-count")

end Mailbox

end WireMesh.TypeScript
