import WireMesh.Cbor.Read
import WireMesh.StorageProgram
import WireMesh.Token

/-!
# Logs in a storage

The logs that `data-sync.ts` keeps in a key/value storage, one for each device: the entries
under their sequence numbers, and the number of the last one. The frames of the data domain
announce, ask for and carry entries; entries are only taken when they go on where the log
ends.

* `entryKey_inj`: an entry is under a key of its own, which is that of nothing else.
* `decodeCount_encodeCount`: a number is read back as it was written.
-/

namespace WireMesh.TypeScript

open Cbor

structure DataHaveFrame where
  peer : DeviceId
  headSeq : ℕ
deriving DecidableEq

structure DataRequestFrame where
  peer : DeviceId
  fromSeq : ℕ
deriving DecidableEq

structure DataEntriesFrame where
  peer : DeviceId
  fromSeq : ℕ
  entries : List Bytes
deriving DecidableEq

/-- The frame carries the value as the entry with the given number. -/
def DataEntriesFrame.Carries (frame : DataEntriesFrame) (seq : ℕ) (value : Bytes) : Prop :=
  ∃ i, seq = frame.fromSeq + 1 + i ∧ frame.entries[i]? = some value

/-- The data frames that a mailbox answers. -/
inductive DataFrame
  | dataHave (frame : DataHaveFrame)
  | dataRequest (frame : DataRequestFrame)
  | dataEntries (frame : DataEntriesFrame)
deriving DecidableEq

/-- The storage port, in memory. -/
abbrev KeyValueStorage := AList fun _ : String => Bytes

/-- A program over the storage port. -/
abbrev StorageM := StorageProgram String Bytes

def headKey (peer : DeviceId) : String := "data/" ++ deviceIdToHex peer ++ "/head"

def entryKey (peer : DeviceId) (seq : ℕ) : String :=
  "data/" ++ deviceIdToHex peer ++ "/entry/" ++ toString seq

/-- A number, as its decimal text. -/
def encodeCount (value : ℕ) : Bytes := utf8 (toString value)

/-- The number with a decimal text. -/
def decodeCount (raw : Bytes) : ℕ :=
  (ofUtf8 raw).elim 0 fun text => Nat.ofDigitChars 10 text.toList 0

/-- The number under a key, which is zero when there is none. -/
def readCount (key : String) : StorageM ℕ := do
  return (← StorageProgram.read key).elim 0 decodeCount

def headSeqFor (peer : DeviceId) : StorageM ℕ := readCount (headKey peer)

def writeHeadSeq (peer : DeviceId) (seq : ℕ) : StorageM Unit :=
  StorageProgram.write (headKey peer) (encodeCount seq)

/-- The number of the entry that is appended to the own log, and the frame that announces it. -/
def appendOwnEntry (own : DeviceId) (entry : Bytes) : StorageM (ℕ × DataHaveFrame) := do
  let currentHead ← headSeqFor own
  let seq := currentHead + 1
  StorageProgram.write (entryKey own seq) entry
  writeHeadSeq own seq
  return (seq, { peer := own, headSeq := seq })

def handleDataHave (frame : DataHaveFrame) : StorageM (Option DataRequestFrame) := do
  let ourHead ← headSeqFor frame.peer
  if frame.headSeq ≤ ourHead then return none
  return some { peer := frame.peer, fromSeq := ourHead }

/-- The entries from a number on, at most the given number of them, up to the first hole. -/
def readRun (peer : DeviceId) : (first count : ℕ) → StorageM (List Bytes)
  | _, 0 => return []
  | first, count + 1 => do
    match ← StorageProgram.read (entryKey peer first) with
    | none => return []
    | some entry => return entry :: (← readRun peer (first + 1) count)

def handleDataRequest (frame : DataRequestFrame) (limit : ℕ) :
    StorageM (Option DataEntriesFrame) := do
  let ourHead ← headSeqFor frame.peer
  if ourHead ≤ frame.fromSeq then return none
  let lastSeq := min ourHead (frame.fromSeq + limit)
  let entries ← readRun frame.peer (frame.fromSeq + 1) (lastSeq - frame.fromSeq)
  if entries = [] then return none
  return some { peer := frame.peer, fromSeq := frame.fromSeq, entries }

/-- The entries are written in order, from a number on. -/
def storeEntries (peer : DeviceId) : ℕ → List Bytes → StorageM Unit
  | _, [] => return ()
  | seq, entry :: entries => do
    StorageProgram.write (entryKey peer seq) entry
    storeEntries peer (seq + 1) entries

/-- Whether the entries were taken, which they are if there is no gap. -/
def handleDataEntries (frame : DataEntriesFrame) : StorageM Bool := do
  let ourHead ← headSeqFor frame.peer
  if frame.fromSeq ≠ ourHead then return false
  storeEntries frame.peer (frame.fromSeq + 1) frame.entries
  -- The head comes last, so that it never covers an entry that is not there.
  writeHeadSeq frame.peer (frame.fromSeq + frame.entries.length)
  return true

def readEntries (peer : DeviceId) (fromSeqExclusive : ℕ) : StorageM (List Bytes) := do
  let head ← headSeqFor peer
  readRun peer (fromSeqExclusive + 1) (head - fromSeqExclusive)

/-! ## Keys -/

theorem deviceIdToHex_length (device : DeviceId) : (deviceIdToHex device).toList.length = 64 := by
  rw [deviceIdToHex, bytesToHex_length, device.size]

/-- A key that starts with a device is that of the device, and goes on as it does. -/
theorem deviceKey_inj {start : String} {device device' : DeviceId} {rest rest' : List Char}
    (h : start.toList ++ ((deviceIdToHex device).toList ++ rest) =
      start.toList ++ ((deviceIdToHex device').toList ++ rest')) :
    device = device' ∧ rest = rest' := by
  grind [List.append_inj, deviceIdToHex_length, deviceIdToHex_inj, String.toList_injective]

theorem entryKey_inj {peer peer' : DeviceId} {seq seq' : ℕ}
    (h : entryKey peer seq = entryKey peer' seq') : peer = peer' ∧ seq = seq' := by
  have h := congrArg String.toList h
  simp only [entryKey, String.toList_append, List.append_assoc] at h
  obtain ⟨hpeer, hrest⟩ := deviceKey_inj h
  exact ⟨hpeer, toString_injective (List.append_cancel_left hrest)⟩

theorem entryKey_ne_headKey (peer peer' : DeviceId) (seq : ℕ) :
    entryKey peer seq ≠ headKey peer' := by
  intro h
  have h := congrArg String.toList h
  simp only [entryKey, headKey, String.toList_append, List.append_assoc] at h
  obtain ⟨-, hrest⟩ := deviceKey_inj h
  simp at hrest

theorem headKey_inj {peer peer' : DeviceId} (h : headKey peer = headKey peer') : peer = peer' := by
  have h := congrArg String.toList h
  simp only [headKey, String.toList_append, List.append_assoc] at h
  exact (deviceKey_inj h).1

@[simp]
theorem decodeCount_encodeCount (n : ℕ) : decodeCount (encodeCount n) = n := by
  have htext : ofUtf8 (encodeCount n) = some (toString n) := ofUtf8_eq_some_iff.2 rfl
  rw [decodeCount, htext, Option.elim_some, Nat.toString_eq_ofList_toDigits, String.toList_ofList,
    Nat.ofDigitChars_ten_toDigits]

/-! ## Numbers in the storage -/

/-- The number under a key. -/
def countAt (storage : KeyValueStorage) (key : String) : ℕ :=
  (storage.lookup key).elim 0 decodeCount

theorem exec_readCount (storage : KeyValueStorage) (key : String) :
    (readCount key).exec storage = (storage, countAt storage key) := rfl

theorem readCount_writes {P : String → Bytes → Prop} (key : String) : (readCount key).Writes P :=
  (StorageProgram.writes_read key).bind fun _ => StorageProgram.writes_pure _

theorem countAt_insert (storage : KeyValueStorage) (key key' : String) (n : ℕ) :
    countAt (storage.insert key (encodeCount n)) key' =
      if key' = key then n else countAt storage key' := by
  grind [countAt, AList.lookup_insert, decodeCount_encodeCount, AList.lookup_insert_ne]

end WireMesh.TypeScript
