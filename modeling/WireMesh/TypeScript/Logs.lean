import WireMesh.TypeScript.DataSync

/-!
# What the handlers do to the logs

What a storage is for, as far as the data domain is concerned: it holds a log for each device, a
list of entries (`Holds`, `Represents`). A handler that nothing interrupts does to the logs what
its abstract counterpart in `Logs` does, and answers the same; the keys of other logs, and
those that are not of the data domain, are left alone (`SameElsewhere`).

* `Represents.appendOwnEntry`, `Represents.handleDataHave`, `Represents.handleDataRequest`,
  `Represents.handleDataEntries`: the handlers refine their counterparts.
* `Holds.readEntries`: what is read is the log.
-/

namespace WireMesh.TypeScript

open StorageProgram

variable {storage storage' : KeyValueStorage} {peer other : DeviceId} {log : List Bytes}

/-- The number of the last entry of the log, as it is stored. -/
def headOf (storage : KeyValueStorage) (peer : DeviceId) : ℕ :=
  (storage.lookup (headKey peer)).elim 0 decodeCount

/-- The storage holds the log of the device, without a gap. -/
@[grind cases]
structure Holds (storage : KeyValueStorage) (peer : DeviceId) (log : List Bytes) : Prop where
  head : headOf storage peer = log.length
  entry : ∀ i < log.length, storage.lookup (entryKey peer (i + 1)) = log[i]?

/-- The key is one of the log of the device. -/
def IsLogKey (peer : DeviceId) (key : String) : Prop :=
  key = headKey peer ∨ ∃ seq, key = entryKey peer seq

/-- Only the log of the device is written to. -/
def SameElsewhere (peer : DeviceId) (storage storage' : KeyValueStorage) : Prop :=
  ∀ key, ¬IsLogKey peer key → storage'.lookup key = storage.lookup key

theorem holds_empty (peer : DeviceId) : Holds ∅ peer [] := ⟨rfl, by simp⟩

theorem not_isLogKey_headKey (h : other ≠ peer) : ¬IsLogKey peer (headKey other) := by
  rintro (hkey | ⟨seq, hkey⟩)
  · exact h (headKey_inj hkey)
  · exact entryKey_ne_headKey _ _ _ hkey.symm

theorem not_isLogKey_entryKey (h : other ≠ peer) (seq : ℕ) :
    ¬IsLogKey peer (entryKey other seq) := by
  rintro (hkey | ⟨seq', hkey⟩)
  · exact entryKey_ne_headKey _ _ _ hkey
  · exact h (entryKey_inj hkey).1

theorem Holds.elsewhere (h : Holds storage other log) (hne : other ≠ peer)
    (hsame : SameElsewhere peer storage storage') : Holds storage' other log where
  head := by
    rw [← h.head, headOf, headOf, hsame _ (not_isLogKey_headKey hne)]
  entry i hi := by
    rw [hsame _ (not_isLogKey_entryKey hne _), h.entry i hi]

/-! ## Entries that are written -/

theorem sameElsewhere_insert {key : String} (hkey : IsLogKey peer key) (value : Bytes) :
    SameElsewhere peer storage (storage.insert key value) := by
  intro key' hkey'
  exact AList.lookup_insert_ne fun heq => hkey' (heq ▸ hkey)

theorem SameElsewhere.trans {storage'' : KeyValueStorage} (h : SameElsewhere peer storage storage')
    (h' : SameElsewhere peer storage' storage'') : SameElsewhere peer storage storage'' :=
  fun key hkey => (h' key hkey).trans (h key hkey)

/-- The entry after the last one is there, but the head does not cover it yet. -/
theorem Holds.insert_entry {i : ℕ} (h : Holds storage peer log) (hi : log.length ≤ i)
    (entry : Bytes) : Holds (storage.insert (entryKey peer (i + 1)) entry) peer log where
  head := by
    rw [← h.head, headOf, headOf, AList.lookup_insert_ne (entryKey_ne_headKey _ _ _).symm]
  entry j hj := by grind [AList.lookup_insert_ne, entryKey_inj]

/-- The entries have been written, and the head is to be. -/
@[grind cases]
structure Stored (storage : KeyValueStorage) (peer : DeviceId) (log added : List Bytes) :
    Prop where
  holds : Holds storage peer log
  entry : ∀ i < added.length,
    storage.lookup (entryKey peer (log.length + i + 1)) = added[i]?

theorem Holds.stored (h : Holds storage peer log) : Stored storage peer log [] := ⟨h, by simp⟩

theorem Stored.elsewhere {added : List Bytes} (h : Stored storage other log added)
    (hne : other ≠ peer) (hsame : SameElsewhere peer storage storage') :
    Stored storage' other log added where
  holds := h.holds.elsewhere hne hsame
  entry i hi := by
    rw [hsame _ (not_isLogKey_entryKey hne _), h.entry i hi]

theorem Stored.insert_entry {added : List Bytes} (h : Stored storage peer log added)
    (entry : Bytes) :
    Stored (storage.insert (entryKey peer (log.length + added.length + 1)) entry) peer log
      (added ++ [entry]) where
  holds := h.holds.insert_entry (by omega) entry
  entry i hi := by
    rw [List.length_append, List.length_singleton] at hi
    by_cases hlast : i = added.length
    · subst hlast
      simp
    · grind [AList.lookup_insert_ne, entryKey_inj]

theorem Stored.insert_head {added : List Bytes} (h : Stored storage peer log added) :
    Holds (storage.insert (headKey peer) (encodeCount (log.length + added.length))) peer
      (log ++ added) where
  head := by simp [headOf]
  entry i hi := by grind [AList.lookup_insert_ne, entryKey_ne_headKey]

theorem exec_storeEntries {entries added : List Bytes} (h : Stored storage peer log added) :
    Stored ((storeEntries peer (log.length + added.length + 1) entries).exec storage).1 peer log
      (added ++ entries) ∧
    SameElsewhere peer storage
      ((storeEntries peer (log.length + added.length + 1) entries).exec storage).1 := by
  induction entries generalizing storage added with
  | nil => exact ⟨by simpa [storeEntries] using h, fun _ _ => rfl⟩
  | cons entry entries ih =>
    obtain ⟨hstored, hsame⟩ := ih (h.insert_entry entry)
    rw [List.length_append, List.length_singleton, ← Nat.add_assoc, List.append_assoc] at hstored
    rw [List.length_append, List.length_singleton, ← Nat.add_assoc] at hsame
    rw [storeEntries, exec_bind, exec_write]
    exact ⟨hstored, (sameElsewhere_insert (.inr ⟨_, rfl⟩) entry).trans hsame⟩

/-- Entries are written after the log, and then the head. -/
theorem Holds.exec_append (h : Holds storage peer log) (entries : List Bytes) :
    let storage' := ((do
      storeEntries peer (log.length + 1) entries
      writeHeadSeq peer (log.length + entries.length) : StorageM Unit).exec storage).1
    Holds storage' peer (log ++ entries) ∧ SameElsewhere peer storage storage' := by
  obtain ⟨hstored, hsame⟩ := exec_storeEntries h.stored
  simp only [exec_bind, writeHeadSeq, exec_write]
  exact ⟨hstored.insert_head, hsame.trans (sameElsewhere_insert (.inl rfl) _)⟩

/-! ## Entries that are read -/

theorem exec_headSeqFor : (headSeqFor peer).exec storage = (storage, headOf storage peer) := rfl

theorem step_headSeqFor {A : Type} (f : ℕ → StorageM A) :
    (headSeqFor peer >>= f).step storage = (storage, f (headOf storage peer)) := rfl

theorem Holds.exec_readRun (h : Holds storage peer log) {first count : ℕ}
    (hcount : first + count ≤ log.length) :
    (readRun peer (first + 1) count).exec storage = (storage, (log.drop first).take count) := by
  induction count generalizing first with
  | zero => simp [readRun]
  | succ count ih =>
    have hfirst : first < log.length := by omega
    rw [readRun, exec_bind, exec_read, h.entry first hfirst, List.getElem?_eq_getElem hfirst,
      List.drop_eq_getElem_cons hfirst, List.take_succ_cons]
    simp [@ih (first + 1) (by omega)]

theorem Holds.readEntries (h : Holds storage peer log) :
    (readEntries peer 0).exec storage = (storage, log) := by
  rw [TypeScript.readEntries, exec_bind, exec_headSeqFor, h.head, h.exec_readRun (by omega)]
  simp

/-! ## The handlers -/

/-- A log for each device. -/
abbrev Logs := DeviceId → List Bytes

namespace Logs

variable (logs : Logs)

def extend (peer : DeviceId) (entries : List Bytes) : Logs :=
  Function.update logs peer (logs peer ++ entries)

def appendOwnEntry (own : DeviceId) (entry : Bytes) : Logs × ℕ × DataHaveFrame :=
  let seq := (logs own).length + 1
  (logs.extend own [entry], seq, { peer := own, headSeq := seq })

def handleDataHave (frame : DataHaveFrame) : Option DataRequestFrame :=
  let ourHead := (logs frame.peer).length
  if frame.headSeq ≤ ourHead then none else some { peer := frame.peer, fromSeq := ourHead }

/-- What comes after the number in the log, up to the limit. -/
def handleDataRequest (frame : DataRequestFrame) (limit : ℕ) : Option DataEntriesFrame :=
  let entries := ((logs frame.peer).drop frame.fromSeq).take limit
  if entries = [] then none else some { peer := frame.peer, fromSeq := frame.fromSeq, entries }

def handleDataEntries (frame : DataEntriesFrame) : Logs × Bool :=
  if frame.fromSeq = (logs frame.peer).length then (logs.extend frame.peer frame.entries, true)
  else (logs, false)

end Logs

/-- The storage holds the logs. -/
def Represents (storage : KeyValueStorage) (logs : Logs) : Prop :=
  ∀ peer, Holds storage peer (logs peer)

variable {logs : Logs}

theorem represents_empty : Represents ∅ fun _ => [] := holds_empty

theorem Represents.extend (h : Represents storage logs) {entries : List Bytes}
    (hpeer : Holds storage' peer (logs peer ++ entries))
    (hsame : SameElsewhere peer storage storage') :
    Represents storage' (logs.extend peer entries) := by
  intro other
  by_cases hother : other = peer
  · subst hother
    rwa [Logs.extend, Function.update_self]
  · rw [Logs.extend, Function.update_of_ne hother]
    exact (h other).elsewhere hother hsame

/-- Other keys do not matter. -/
theorem Represents.insert (h : Represents storage logs) {key : String}
    (hkey : ∀ peer, ¬IsLogKey peer key) (value : Bytes) :
    Represents (storage.insert key value) logs := by
  intro peer
  have hhead : headKey peer ≠ key := fun heq => hkey peer (.inl heq.symm)
  have hentry (seq : ℕ) : entryKey peer seq ≠ key := fun heq => hkey peer (.inr ⟨seq, heq.symm⟩)
  refine ⟨?_, fun i hi => ?_⟩
  · rw [headOf, AList.lookup_insert_ne hhead]
    exact (h peer).head
  · rw [AList.lookup_insert_ne (hentry _), (h peer).entry i hi]

theorem Represents.appendOwnEntry (h : Represents storage logs) (own : DeviceId) (entry : Bytes) :
    let result := (appendOwnEntry own entry).exec storage
    Represents result.1 (logs.appendOwnEntry own entry).1 ∧
      result.2 = (logs.appendOwnEntry own entry).2 := by
  obtain ⟨hholds, hsame⟩ := (h own).exec_append [entry]
  rw [TypeScript.appendOwnEntry]
  simp only [exec_bind, exec_headSeqFor, (h own).head]
  exact ⟨h.extend hholds hsame, rfl⟩

theorem Represents.handleDataHave (h : Represents storage logs) (frame : DataHaveFrame) :
    (handleDataHave frame).exec storage = (storage, logs.handleDataHave frame) := by
  rw [TypeScript.handleDataHave, exec_bind, exec_headSeqFor, (h frame.peer).head,
    Logs.handleDataHave]
  split <;> rfl

theorem Represents.handleDataRequest (h : Represents storage logs) (frame : DataRequestFrame)
    (limit : ℕ) :
    (handleDataRequest frame limit).exec storage =
      (storage, logs.handleDataRequest frame limit) := by
  rw [TypeScript.handleDataRequest, exec_bind, exec_headSeqFor, (h frame.peer).head,
    Logs.handleDataRequest]
  by_cases hhead : (logs frame.peer).length ≤ frame.fromSeq
  · simp [hhead, List.drop_eq_nil_of_le hhead]
  · have hrun : (readRun frame.peer (frame.fromSeq + 1)
        (min (logs frame.peer).length (frame.fromSeq + limit) - frame.fromSeq)).exec storage =
        (storage, ((logs frame.peer).drop frame.fromSeq).take limit) := by
      rw [(h frame.peer).exec_readRun (by omega)]
      grind [List.length_drop]
    simp only [if_neg hhead, exec_bind, hrun]
    split <;> rfl

theorem Represents.handleDataEntries (h : Represents storage logs) (frame : DataEntriesFrame) :
    let result := (handleDataEntries frame).exec storage
    Represents result.1 (logs.handleDataEntries frame).1 ∧
      result.2 = (logs.handleDataEntries frame).2 := by
  rw [TypeScript.handleDataEntries, Logs.handleDataEntries]
  simp only [exec_bind, exec_headSeqFor, (h frame.peer).head]
  by_cases hfrom : frame.fromSeq = (logs frame.peer).length
  · obtain ⟨hholds, hsame⟩ := (h frame.peer).exec_append frame.entries
    grind [exec_bind, exec_pure, extend]
  · rw [if_pos hfrom, if_neg hfrom]
    exact ⟨h, rfl⟩

end WireMesh.TypeScript
