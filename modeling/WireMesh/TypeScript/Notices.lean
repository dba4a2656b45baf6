import WireMesh.TypeScript.DataSync

/-!
# The noticeboard of the web console

How the web console keeps logs in step with others (`notices.ts`). Notices are entries of the
logs; what is sent of its own accord, and what is done with each data frame that arrives, is
decided here.
-/

namespace WireMesh.TypeScript.Notices

/-- The number of entries that a frame carries at most. -/
def catchUpBatchLimit : ℕ := 32

def requestCatchUp (peer : DeviceId) : StorageM DataFrame := do
  let head ← headSeqFor peer
  return .dataRequest { peer, fromSeq := head }

/-- The frames that are sent back, and whether there may be something new to read. -/
structure Handled where
  sent : List DataFrame
  changed : Bool

def handleFrame : DataFrame → StorageM Handled
  | .dataHave frame => do
    return { sent := [← requestCatchUp frame.peer], changed := false }
  | .dataEntries frame => do
    if !(← handleDataEntries frame) then return { sent := [], changed := false }
    -- There may be more than what fits in the frame.
    if catchUpBatchLimit ≤ frame.entries.length then
      return { sent := [← requestCatchUp frame.peer], changed := true }
    return { sent := [], changed := true }
  | .dataRequest frame => do
    let entries ← handleDataRequest frame catchUpBatchLimit
    return { sent := (entries.map .dataEntries).toList, changed := false }

/-- A notice is posted, or a frame arrives. -/
inductive Event
  | post (entry : Bytes)
  | frame (frame : DataFrame)

/-- What is done at an event is done before the next one. -/
def next (own : DeviceId) (storage : KeyValueStorage) : Event → KeyValueStorage
  | .post entry => ((appendOwnEntry own entry).exec storage).1
  | .frame frame => ((handleFrame frame).exec storage).1

end WireMesh.TypeScript.Notices
