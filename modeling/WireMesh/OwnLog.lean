import WireMesh.Machine
import WireMesh.TypeScript.Logs
import WireMesh.TypeScript.Notices

/-!
# The log of the web console

The web console appends its notices to the log of its own device. Entries that arrive are taken
for whatever log they are said to be of, and so a frame with the entries that come next in the own
log adds to it (`own_log_forged`). As long as no such frame arrives, the log is what was posted
(`own_log_posted`).
-/

namespace WireMesh.TypeScript.Notices

open Machine StorageProgram

variable {own : DeviceId} {storage : KeyValueStorage} {logs : Logs}

/-- The entries that are posted. -/
def posted (events : List Event) : List Bytes :=
  events.filterMap fun
    | .post entry => some entry
    | .frame _ => none

/-- The frame does not go on where the own log ends. -/
def Foreign (own : DeviceId) (storage : KeyValueStorage) : Event → Prop
  | .frame (.dataEntries frame) =>
    frame.peer = own → frame.fromSeq = headOf storage own → frame.entries = []
  | _ => True

instance (own : DeviceId) (storage : KeyValueStorage) :
    ∀ e : Event, Decidable (Foreign own storage e)
  | .frame (.dataEntries _) => inferInstanceAs (Decidable (_ → _ → _))
  | .frame (.dataHave _) => .isTrue trivial
  | .frame (.dataRequest _) => .isTrue trivial
  | .post _ => .isTrue trivial

theorem exec_requestCatchUp (storage : KeyValueStorage) (peer : DeviceId) :
    ((requestCatchUp peer).exec storage).1 = storage := rfl

/-- The console does to its logs what the handlers do. -/
theorem exec_handleFrame (storage : KeyValueStorage) (frame : DataEntriesFrame) :
    ((handleFrame (.dataEntries frame)).exec storage).1 =
      ((handleDataEntries frame).exec storage).1 := by
  rw [handleFrame, exec_bind]
  split_ifs <;> simp [exec_requestCatchUp]

/-- The storage holds logs, of which the own one is as given. -/
def HoldsOwn (own : DeviceId) (log : List Bytes) (storage : KeyValueStorage) : Prop :=
  ∃ logs, Represents storage logs ∧ logs own = log

theorem holdsOwn_next {log : List Bytes} (h : HoldsOwn own log storage) {e : Event}
    (he : Foreign own storage e) : HoldsOwn own (log ++ posted [e]) (next own storage e) := by
  obtain ⟨logs, hlogs, rfl⟩ := h
  cases e with
  | post entry =>
    refine ⟨_, (hlogs.appendOwnEntry own entry).1, ?_⟩
    simp [Logs.appendOwnEntry, Logs.extend, posted]
  | frame frame =>
    simp only [posted, List.filterMap_cons, List.filterMap_nil, List.append_nil]
    cases frame with
    | dataHave frame => exact ⟨logs, hlogs, rfl⟩
    | dataRequest frame =>
      refine ⟨logs, ?_, rfl⟩
      simpa [next, handleFrame, hlogs.handleDataRequest] using hlogs
    | dataEntries frame =>
      rw [next, exec_handleFrame]
      refine ⟨_, (hlogs.handleDataEntries frame).1, ?_⟩
      rw [Logs.handleDataEntries]
      split_ifs with hfrom
      · by_cases hpeer : frame.peer = own
        · subst hpeer
          have hnone := he rfl (hfrom.trans (hlogs frame.peer).head.symm)
          simp [Logs.extend, hnone]
        · simp [Logs.extend, Ne.symm hpeer]
      · rfl

/-- The own log is what was posted, if no frame arrives with entries that come next in it. -/
theorem own_log_posted (own : DeviceId) (events : List Event)
    (hforeign : Along (next own) (Foreign own) ∅ events) :
    Holds (run (next own) ∅ events) own (posted events) := by
  have hrun : HoldsOwn own (posted events) (run (next own) ∅ events) := by
    induction events using List.reverseRecOn with
    | nil => exact ⟨_, represents_empty, rfl⟩
    | append_singleton events e ih =>
      obtain ⟨hbefore, he⟩ := hforeign.concat
      have hposted : posted (events ++ [e]) = posted events ++ posted [e] :=
        List.filterMap_append
      rw [run_append, hposted]
      exact holdsOwn_next (ih hbefore) he
  obtain ⟨logs, hlogs, hown⟩ := hrun
  rw [← hown]
  exact hlogs own

def sampleOwn : DeviceId := .pad [1]

/-- Two notices, and a frame of the log of another device in between. -/
def samplePosts : List Event :=
  [.post [1], .frame (.dataEntries { peer := .pad [2], fromSeq := 0, entries := [[7]] }), .post [2]]

theorem own_log_posted_sample : Holds (run (next sampleOwn) ∅ samplePosts) sampleOwn [[1], [2]] :=
  own_log_posted sampleOwn samplePosts (by decide +kernel)

/-- A frame that carries a second entry of the own log, and the notice that is posted then. -/
theorem own_log_forged :
    let events : List Event :=
      [.post [1], .frame (.dataEntries { peer := sampleOwn, fromSeq := 1, entries := [[7]] }),
        .post [2]]
    Holds (run (next sampleOwn) ∅ events) sampleOwn [[1], [7], [2]] ∧
      ¬Holds (run (next sampleOwn) ∅ events) sampleOwn (posted events) :=
  ⟨⟨by decide +kernel, by decide +kernel⟩, fun h => absurd h.head (by decide +kernel)⟩

end WireMesh.TypeScript.Notices
