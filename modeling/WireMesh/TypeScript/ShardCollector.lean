import WireMesh.OrderedMap
import WireMesh.TypeScript.Bulk
import WireMesh.TypeScript.ShardManifest

/-!
# Collecting shards

The reader of a sharded payload (`createShardCollector` in `sharded-delivery.ts`). Offers of shards
are accepted if they match the manifest. A shard whose transfer completes is read back from the
storage, and the first `threshold` shards that have been read back are decoded.

Everything else happens at any time: the storage is written to by the bulk receiver (`write`), the
transfers of accepted offers complete or fail, even repeatedly (`complete`), and a read goes on by
one access to the storage (`read`). The result is settled by calls of `resolveResult` and
`rejectResult`, of which only the first counts (`State.result`).
-/

namespace WireMesh.TypeScript.ShardCollector

open ShardManifest ErasureCoding

/-- What the collector decides on an offer. -/
inductive Decision
  | reject (reason : String)
  | accept (window : ℕ)
deriving DecidableEq

/-! ## Reading a shard back -/

/-- A call of `readStoredTransferBytes`. -/
inductive Reading
  /-- The source has yielded some chunks, and is asked for the next one. -/
  | pulling (chunks : List Bytes) (call : StorageM (Except String (Option Bytes)))
  /-- The promise is settled, and its handlers have not run yet. -/
  | finished (result : Except String Bytes)
  | ended

/-- The call of `next` of the source does its next access to the storage. -/
def Reading.step (idHex : String) (storage : KeyValueStorage) : Reading → Reading
  | pulling chunks call => match (call.step storage).2 with
    | .ret (.ok (some chunk)) =>
      pulling (chunks ++ [chunk]) (Bulk.storedNext idHex (chunks.length + 1))
    | .ret (.ok none) => finished (.ok chunks.flatten)
    | .ret (.error message) => finished (.error message)
    | rest => pulling chunks rest
  | reading => reading

def readStoredTransferBytes (transferId : Bytes) : Reading :=
  .pulling [] (Bulk.storedNext (bytesToHex transferId) 0)

/-! ## The collector -/

/-- A shard that is read back. -/
structure Task where
  index : ℕ
  transferId : Bytes
  reading : Reading

structure State where
  storage : KeyValueStorage
  decisions : List Decision
  /-- The accepted offers: the index and the location of the shard. -/
  offers : List (ℕ × ShardLocation)
  tasks : List Task
  presented : OrderedMap ℕ Bytes
  settled : Bool
  /-- The promise of `reconstructFromShards`. -/
  reconstructing : Option (Except String Bytes)
  /-- The calls of `resolveResult` and `rejectResult`. -/
  settlements : List (Except String Bytes)

def init (storage : KeyValueStorage) : State where
  storage
  decisions := []
  offers := []
  tasks := []
  presented := .empty
  settled := false
  reconstructing := none
  settlements := []

/-- Only the first settlement of a promise counts. -/
def State.result (x : State) : Option (Except String Bytes) := x.settlements.head?

inductive Event
  | write (key : String) (value : Option Bytes)
  /-- An offer for the shard with an index. -/
  | offer (index : ℕ) (transferId : Bytes) (totalSize : Option ℕ)
  /-- `onComplete` of an accepted offer is called. -/
  | complete (offer : ℕ) (ok : Bool)
  | read (task : ℕ)
  /-- The handlers of a read run. -/
  | present (task : ℕ)
  /-- The handlers of the reconstruction run. -/
  | reconstruct
deriving DecidableEq

variable (manifest : Manifest) (decrypt : Option (Bytes → Except String Bytes))

def maybeFinish (x : State) : State :=
  if x.settled ∨ x.presented.entries.length < manifest.threshold then x
  else
    let chosen := (x.presented.entries.take manifest.threshold).map fun e =>
      { index := e.1, data := e.2 : PresentedShard }
    { x with
      settled := true
      reconstructing := some (reconstructFromShards chosen manifest decrypt) }

def onOfferForIndex (x : State) (index : ℕ) (transferId : Bytes) (totalSize : Option ℕ) : State :=
  match manifest.shards[index]? with
  | some location =>
    if transferId = location.transferId then
      { x with
        decisions := x.decisions ++ [.accept (totalSize.getD manifest.originalLength)]
        offers := x.offers ++ [(index, location)] }
    else
      { x with
        decisions := x.decisions ++ [.reject "shard offer does not match the manifest"] }
  | none =>
    { x with decisions := x.decisions ++ [.reject "shard offer does not match the manifest"] }

def onComplete (x : State) (index : ℕ) (location : ShardLocation) (ok : Bool) : State :=
  if x.settled ∨ !ok then x
  else
    let task :=
      { index, transferId := location.transferId
        reading := readStoredTransferBytes location.transferId }
    { x with tasks := x.tasks ++ [task] }

def next (x : State) : Event → State
  | .write key (some value) => { x with storage := x.storage.insert key value }
  | .write key none => { x with storage := x.storage.erase key }
  | .offer index transferId totalSize => onOfferForIndex manifest x index transferId totalSize
  | .complete offer ok => match x.offers[offer]? with
    | none => x
    | some (index, location) => onComplete x index location ok
  | .read k => match x.tasks[k]? with
    | none => x
    | some task =>
      let reading := task.reading.step (bytesToHex task.transferId) x.storage
      { x with tasks := x.tasks.set k { task with reading } }
  | .present k => match x.tasks[k]? with
    | some { index, transferId, reading := .finished result } =>
      let x := { x with tasks := x.tasks.set k { index, transferId, reading := .ended } }
      match result with
      | .ok data => maybeFinish manifest decrypt { x with presented := x.presented.set index data }
      | .error message => { x with settlements := x.settlements ++ [.error message] }
    | _ => x
  | .reconstruct => match x.reconstructing with
    | none => x
    | some result =>
      { x with reconstructing := none, settlements := x.settlements ++ [result] }

end WireMesh.TypeScript.ShardCollector
