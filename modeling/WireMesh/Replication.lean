import WireMesh.Machine
import WireMesh.TypeScript.Logs

/-!
# Logs that are replicated

A network of stores, one for each device. A device appends to its own log only; what it knows of
the other logs it has from the frames of others, which need not be the authors. Every frame that
was ever sent may arrive at any store, at any time and any number of times, or never.

The network is the same for stores that are storages and for those that are logs, and the one
simulates the other (`Network.Simulates.next`). In the logs it is plain that entries on their way
are those of their author (`Consistent`), and so that each copy of a log is a prefix of it
(`replicas_hold_prefixes`).
-/

namespace WireMesh.TypeScript.Replication

open Machine StorageProgram

/-! ## The network -/

/-- What a device does of its own accord: it appends to its log, announces it, or asks for what
    comes after its copy of another one. -/
inductive Call
  | append (entry : Bytes)
  | announce
  | request (peer : DeviceId)

/-- What a store does, with the frame that it sends. -/
structure Handlers (Store : Type) where
  perform : DeviceId → Call → Store → Store × Option DataFrame
  receive : DataFrame → ℕ → Store → Store × Option DataFrame

/-- The stores of the devices, and all the frames that were sent. -/
structure Network (Store : Type) where
  stores : DeviceId → Store
  frames : List DataFrame

inductive Event
  | call (device : DeviceId) (call : Call)
  /-- A frame that was sent arrives; at most `limit` entries are sent in return. -/
  | deliver (device : DeviceId) (frame limit : ℕ)

namespace Network

variable {Store : Type}

/-- The store of a device changes, and a frame is sent. -/
def set (x : Network Store) (device : DeviceId) (result : Store × Option DataFrame) :
    Network Store where
  stores := Function.update x.stores device result.1
  frames := x.frames ++ result.2.toList

def next (handlers : Handlers Store) (x : Network Store) : Event → Network Store
  | .call device call => x.set device (handlers.perform device call (x.stores device))
  | .deliver device frame limit => match x.frames[frame]? with
    | none => x
    | some frame => x.set device (handlers.receive frame limit (x.stores device))

end Network

/-! ## Stores that are storages -/

def perform (own : DeviceId) : Call → StorageM (Option DataFrame)
  | .append entry => do
    let appended ← appendOwnEntry own entry
    return some (.dataHave appended.2)
  | .announce => do
    let headSeq ← headSeqFor own
    return some (.dataHave { peer := own, headSeq })
  | .request peer => do
    let fromSeq ← headSeqFor peer
    return some (.dataRequest { peer, fromSeq })

def receive (limit : ℕ) : DataFrame → StorageM (Option DataFrame)
  | .dataHave frame => do return (← handleDataHave frame).map .dataRequest
  | .dataRequest frame => do return (← handleDataRequest frame limit).map .dataEntries
  | .dataEntries frame => do
    let _ ← handleDataEntries frame
    return none

def storages : Handlers KeyValueStorage where
  perform own call storage := (perform own call).exec storage
  receive frame limit storage := (receive limit frame).exec storage

/-- No store holds anything. -/
def init : Network KeyValueStorage where
  stores _ := ∅
  frames := []

/-! ## Stores that are logs -/

def ideal : Handlers Logs where
  perform own call logs := match call with
    | .append entry => ((logs.appendOwnEntry own entry).1,
      some (.dataHave (logs.appendOwnEntry own entry).2.2))
    | .announce => (logs, some (.dataHave { peer := own, headSeq := (logs own).length }))
    | .request peer => (logs, some (.dataRequest { peer, fromSeq := (logs peer).length }))
  receive frame limit logs := match frame with
    | .dataHave frame => (logs, (logs.handleDataHave frame).map .dataRequest)
    | .dataRequest frame => (logs, (logs.handleDataRequest frame limit).map .dataEntries)
    | .dataEntries frame => ((logs.handleDataEntries frame).1, none)

def idealInit : Network Logs where
  stores _ _ := []
  frames := []

variable {x : Network KeyValueStorage} {y : Network Logs}

/-- The storages hold the logs. -/
@[grind cases]
structure Simulates (x : Network KeyValueStorage) (y : Network Logs) : Prop where
  stores : ∀ device, Represents (x.stores device) (y.stores device)
  frames : x.frames = y.frames

theorem simulates_init : Simulates init idealInit := ⟨fun _ => represents_empty, rfl⟩

theorem Simulates.set (h : Simulates x y) (device : DeviceId)
    {result : KeyValueStorage × Option DataFrame} {result' : Logs × Option DataFrame}
    (hresult : Represents result.1 result'.1 ∧ result.2 = result'.2) :
    Simulates (x.set device result) (y.set device result') where
  stores other := by
    by_cases hother : other = device
    · subst hother
      simpa [Network.set] using hresult.1
    · simpa [Network.set, hother] using h.stores other
  frames := by simp only [Network.set, h.frames, hresult.2]

theorem represents_perform {storage : KeyValueStorage} {logs : Logs} (h : Represents storage logs)
    (own : DeviceId) (call : Call) :
    Represents (storages.perform own call storage).1 (ideal.perform own call logs).1 ∧
      (storages.perform own call storage).2 = (ideal.perform own call logs).2 := by
  cases call with
  | append entry =>
    obtain ⟨hlogs, hreply⟩ := h.appendOwnEntry own entry
    simp only [storages, perform, exec_bind, exec_pure, hreply]
    exact ⟨hlogs, rfl⟩
  | announce =>
    simp only [storages, perform, exec_bind, exec_pure, exec_headSeqFor, (h own).head]
    exact ⟨h, rfl⟩
  | request peer =>
    simp only [storages, perform, exec_bind, exec_pure, exec_headSeqFor, (h peer).head]
    exact ⟨h, rfl⟩

theorem represents_receive {storage : KeyValueStorage} {logs : Logs} (h : Represents storage logs)
    (frame : DataFrame) (limit : ℕ) :
    Represents (storages.receive frame limit storage).1 (ideal.receive frame limit logs).1 ∧
      (storages.receive frame limit storage).2 = (ideal.receive frame limit logs).2 := by
  cases frame with
  | dataHave frame =>
    simp only [storages, receive, exec_bind, exec_pure, h.handleDataHave]
    exact ⟨h, rfl⟩
  | dataRequest frame =>
    simp only [storages, receive, exec_bind, exec_pure, h.handleDataRequest]
    exact ⟨h, rfl⟩
  | dataEntries frame =>
    simp only [storages, receive, exec_bind, exec_pure]
    exact ⟨(h.handleDataEntries frame).1, rfl⟩

theorem Simulates.next (h : Simulates x y) (e : Event) :
    Simulates (x.next storages e) (y.next ideal e) := by
  cases e with
  | call device call => exact h.set device (represents_perform (h.stores device) device call)
  | deliver device frame limit => grind [Network.next, set, represents_receive]

theorem simulates_run (events : List Event) :
    Simulates (run (Network.next storages) init events)
      (run (Network.next ideal) idealInit events) :=
  run_simulates simulates_init (fun _ _ e h => Simulates.next h e) events

/-! ## Prefixes -/

/-- The entries that the device has appended to its log. -/
def appended (device : DeviceId) (events : List Event) : List Bytes :=
  events.filterMap fun
    | .call device' (.append entry) => if device' = device then some entry else none
    | _ => none

/-- Copies are prefixes of the logs of the authors, which have what they have appended; entries
    that were sent are those of their author. -/
@[grind cases]
structure Consistent (events : List Event) (y : Network Logs) : Prop where
  own : ∀ author, y.stores author author = appended author events
  copies : ∀ device author, y.stores device author <+: appended author events
  frames : ∀ frame, .dataEntries frame ∈ y.frames →
    frame.entries <+: (appended frame.peer events).drop frame.fromSeq

theorem appended_concat (author : DeviceId) (events : List Event) (e : Event) :
    appended author (events ++ [e]) = appended author events ++ appended author [e] :=
  List.filterMap_append

/-- An answer carries entries of their author. -/
theorem Consistent.reply {events : List Event} (h : Consistent events y) (device : DeviceId)
    {reply : Option DataFrame} (hreply : ∀ frame, reply = some (.dataEntries frame) →
      frame.entries <+: (appended frame.peer events).drop frame.fromSeq) :
    Consistent events (y.set device (y.stores device, reply)) where
  own := by simpa [Network.set] using h.own
  copies := by simpa [Network.set] using h.copies
  frames frame hframe := by
    rcases List.mem_append.1 hframe with hold | hnew
    · exact h.frames frame hold
    · exact hreply frame (Option.mem_toList.1 hnew)

/-- What is appended is in the log of its author, and entries that were sent stay what they
    are. -/
theorem Consistent.append {events : List Event} (h : Consistent events y) (device : DeviceId)
    (entry : Bytes) :
    Consistent (events ++ [.call device (.append entry)])
      (y.next ideal (.call device (.append entry))) := by
  have hother {author : DeviceId} (hne : author ≠ device) :
      appended author (events ++ [.call device (.append entry)]) = appended author events := by
    simp [appended, hne.symm]
  have hdevice : appended device (events ++ [.call device (.append entry)]) =
      appended device events ++ [entry] := by
    simp [appended]
  have hgrows (author : DeviceId) : appended author events <+:
      appended author (events ++ [.call device (.append entry)]) := by
    rw [appended_concat]
    exact List.prefix_append _ _
  refine ⟨fun author => ?_, fun device' author => ?_, fun frame hframe => ?_⟩
  · by_cases hauthor : author = device
    · subst hauthor
      simp [Network.next, Network.set, ideal, Logs.appendOwnEntry, Logs.extend, hdevice, h.own]
    · simp [Network.next, Network.set, hauthor, hother hauthor, h.own]
  · by_cases hdevice' : device' = device
    · subst hdevice'
      by_cases hauthor : author = device'
      · subst hauthor
        simp [Network.next, Network.set, ideal, Logs.appendOwnEntry, Logs.extend, hdevice, h.own]
      · simpa [Network.next, Network.set, ideal, Logs.appendOwnEntry, Logs.extend, hauthor,
          hother hauthor] using h.copies device' author
    · simpa [Network.next, Network.set, hdevice'] using
        (h.copies device' author).trans (hgrows author)
  · grind [Network.next, Network.set, ideal, List.IsPrefix.trans, List.IsPrefix.drop]

/-- Entries that are taken are those that come next in the log. -/
theorem Consistent.take {events : List Event} (h : Consistent events y) (device : DeviceId)
    {frame : DataEntriesFrame} (hframe : .dataEntries frame ∈ y.frames) :
    Consistent events (y.set device (((y.stores device).handleDataEntries frame).1, none)) := by
  by_cases hfrom : frame.fromSeq = (y.stores device frame.peer).length
  · have hentries := h.frames frame hframe
    rw [hfrom] at hentries
    have htaken : y.stores device frame.peer ++ frame.entries <+: appended frame.peer events := by
      obtain ⟨rest, hrest⟩ := h.copies device frame.peer
      grind [List.prefix_append_right_inj]
    have hlogs (other author : DeviceId) :
        (y.set device (((y.stores device).handleDataEntries frame).1, none)).stores other author =
          if other = device ∧ author = frame.peer then y.stores device frame.peer ++ frame.entries
          else y.stores other author := by
      by_cases hother : other = device
      · subst hother
        simp [Network.set, Logs.handleDataEntries, hfrom, Logs.extend, Function.update_apply]
      · simp [Network.set, hother]
    refine ⟨fun author => ?_, fun other author => ?_, fun frame' hframe' => ?_⟩
    · rw [hlogs]
      split_ifs with hown
      -- Nothing comes after the end of the own log.
      · grind
      · exact h.own author
    · grind
    · exact h.frames frame' (by simpa [Network.set] using hframe')
  · grind [Logs.handleDataEntries, reply]

theorem consistent_next {events : List Event} (h : Consistent events y) (e : Event) :
    Consistent (events ++ [e]) (y.next ideal e) := by
  have hsame (hnone : ∀ author, appended author [e] = [])
      (hnext : Consistent events (y.next ideal e)) :
      Consistent (events ++ [e]) (y.next ideal e) := by constructor <;> grind [appended_concat]
  cases e with
  | call device call =>
    cases call with
    | append entry => exact h.append device entry
    | announce => exact hsame (fun _ => rfl) (h.reply device (by simp))
    | request peer => exact hsame (fun _ => rfl) (h.reply device (by simp))
  | deliver device frame limit =>
    refine hsame (fun _ => rfl) ?_
    rw [Network.next]
    split
    · exact h
    next frame hframe =>
      cases frame with
      | dataHave frame => exact h.reply device (by simp)
      | dataRequest frame =>
        refine h.reply device fun answer hanswer => ?_
        grind [Logs.handleDataRequest, List.IsPrefix.trans, List.IsPrefix.drop]
      | dataEntries frame => exact h.take device (List.mem_of_getElem? hframe)

/-- No entry is ever removed. -/
theorem stores_next (y : Network Logs) (e : Event) (device author : DeviceId) :
    y.stores device author <+: (y.next ideal e).stores device author := by
  have hset (other : DeviceId) {logs : Logs} {reply : Option DataFrame}
      (hlogs : y.stores other author <+: logs author) :
      y.stores device author <+: (y.set other (logs, reply)).stores device author := by
    by_cases hother : device = other
    · subst hother
      simpa [Network.set] using hlogs
    · simp [Network.set, hother]
  have hextend (logs : Logs) (peer : DeviceId) (entries : List Bytes) :
      logs author <+: logs.extend peer entries author := by
    by_cases hpeer : author = peer
    · subst hpeer
      simp [Logs.extend]
    · simp [Logs.extend, hpeer]
  cases e with
  | call other call =>
    cases call with
    | append entry => exact hset other (hextend _ _ _)
    | announce | request => exact hset other List.prefix_rfl
  | deliver other frame limit =>
    rw [Network.next]
    split
    · exact List.prefix_rfl
    next frame _ =>
      cases frame with
      | dataHave | dataRequest => exact hset other List.prefix_rfl
      | dataEntries frame =>
        refine hset other ?_
        rw [Logs.handleDataEntries]
        split_ifs
        · exact hextend _ _ _
        · exact List.prefix_rfl

/-- The log of the author as it is read from the store of the device. -/
def copy (x : Network KeyValueStorage) (device author : DeviceId) : List Bytes :=
  ((readEntries author 0).exec (x.stores device)).2

/-- A copy of a log is a prefix of the log of its author, which is what the author has appended;
    it has no gaps, and is never cut back. -/
theorem replicas_hold_prefixes (events later : List Event) (device author : DeviceId) :
    let x := run (Network.next storages) init events
    let x' := run (Network.next storages) init (events ++ later)
    copy x device author <+: copy x author author ∧
      copy x author author = appended author events ∧
      (copy x device author).length = headOf (x.stores device) author ∧
      headOf (x.stores device) author ≤ headOf (x'.stores device) author := by
  intro x x'
  have hsimulates := simulates_run events
  have hsimulates' := simulates_run (events ++ later)
  have hconsistent : Consistent events (run (Network.next ideal) idealInit events) :=
    run_history (P := Consistent) ⟨fun _ => rfl, fun _ _ => List.prefix_rfl, by simp [idealInit]⟩
      (fun _ _ e h => consistent_next h e) events
  have hcopy (device author : DeviceId) : copy x device author =
      (run (Network.next ideal) idealInit events).stores device author := by
    rw [copy, (hsimulates.stores device author).readEntries]
  have hgrows : (run (Network.next ideal) idealInit events).stores device author <+:
      (run (Network.next ideal) idealInit (events ++ later)).stores device author := by
    rw [run_append]
    generalize run (Network.next ideal) idealInit events = y
    exact run_invariant (P := fun z => y.stores device author <+: z.stores device author)
      List.prefix_rfl (fun z e h => h.trans (stores_next z e device author)) later
  rw [hcopy, hcopy, hconsistent.own, (hsimulates.stores device author).head,
    (hsimulates'.stores device author).head]
  exact ⟨hconsistent.copies device author, rfl, rfl, hgrows.length_le⟩

end WireMesh.TypeScript.Replication
