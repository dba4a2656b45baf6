import WireMesh.TypeScript.ErasureCoding

/-!
# Shard manifests

Where the shards of a payload are, and how many of them give it back (`shard-manifest.ts`). The
entry that is published is CBOR, which is a parameter (`Cbor2`): what is decoded is any value, and
a manifest is read from its fields.
-/

namespace WireMesh.TypeScript.ShardManifest

open ErasureCoding

/-- A value that has been decoded, or is to be encoded. The fields of an object have no order. -/
inductive Value
  | number (n : ℕ)
  | text (s : String)
  | bytes (b : Bytes)
  | array (items : List Value)
  | object (fields : String → Option Value)
  /-- Any other primitive value. -/
  | primitive

/-- `encode` and `decode` of the library. -/
structure Cbor2 where
  encode : Value → Bytes
  decode : Bytes → Except String Value

namespace Value

/-- Byte arrays are objects too. -/
def isStringKeyedRecord : Value → Bool
  | object _ => true
  | bytes _ => true
  | _ => false

def field (key : String) : Value → Option Value
  | object fields => fields key
  | _ => none

/-- An object with the given fields. -/
def ofFields (fields : List (String × Value)) : Value := object fun key => fields.lookup key

end Value

structure ShardLocation where
  device : Bytes
  transferId : Bytes
deriving DecidableEq

structure Manifest where
  totalShards : ℕ
  threshold : ℕ
  contentType : String
  originalLength : ℕ
  shards : List ShardLocation
deriving DecidableEq

def validateManifest (manifest : Manifest) : Except String Unit :=
  if manifest.shards.length ≠ manifest.totalShards then
    .error ("shard manifest declares " ++ toString manifest.totalShards ++ " shards but lists " ++
      toString manifest.shards.length)
  else if manifest.threshold < 1 ∨ manifest.threshold > manifest.totalShards then
    .error ("shard manifest threshold " ++ toString manifest.threshold ++
      " must be between 1 and " ++ toString manifest.totalShards)
  else .ok ()

def ShardLocation.toValue (location : ShardLocation) : Value :=
  .ofFields [("device", .bytes location.device), ("transfer-id", .bytes location.transferId)]

def Manifest.toValue (manifest : Manifest) : Value :=
  .ofFields
    [("total-shards", .number manifest.totalShards),
      ("threshold", .number manifest.threshold),
      ("content-type", .text manifest.contentType),
      ("original-length", .number manifest.originalLength),
      ("shards", .array (manifest.shards.map ShardLocation.toValue))]

def decodeLocation (raw : Value) : Except String ShardLocation := do
  if !raw.isStringKeyedRecord then throw "shard manifest entry is malformed"
  match raw.field "device", raw.field "transfer-id" with
  | some (.bytes device), some (.bytes transferId) => return { device, transferId }
  | _, _ => throw "shard manifest location is missing device/transfer-id bytes"

variable (cbor : Cbor2)

def encodeShardManifest (manifest : Manifest) : Except String Bytes := do
  validateManifest manifest
  return cbor.encode manifest.toValue

def decodeShardManifest (entry : Bytes) : Except String Manifest := do
  let decoded ← cbor.decode entry
  if !decoded.isStringKeyedRecord then throw "shard manifest entry is not a CBOR map"
  let some (.number totalShards) := decoded.field "total-shards"
    | throw "shard manifest is missing numeric total-shards/threshold"
  let some (.number threshold) := decoded.field "threshold"
    | throw "shard manifest is missing numeric total-shards/threshold"
  let some (.text contentType) := decoded.field "content-type"
    | throw "shard manifest is missing content-type/original-length"
  let some (.number originalLength) := decoded.field "original-length"
    | throw "shard manifest is missing content-type/original-length"
  let some (.array shards) := decoded.field "shards"
    | throw "shard manifest is missing its shards array"
  let locations ← shards.mapM decodeLocation
  let manifest : Manifest :=
    { totalShards, threshold, contentType, originalLength, shards := locations }
  validateManifest manifest
  return manifest

/-! ## Splitting -/

def targetFor (targets : List Bytes) (index : ℕ) (shard : Bytes) : Except String Bytes :=
  match targets[index]? with
  | some target => .ok target
  | none => .error ("no target device for shard " ++ toString index ++ " (" ++
      toString shard.length ++ " bytes)")

structure SplitOptions where
  config : ShardConfig
  contentType : String
  targets : List Bytes
  nextTransferId : ℕ → Bytes

structure ShardedDelivery where
  manifest : Manifest
  shards : List Bytes
  manifestEntry : Bytes
deriving DecidableEq

def splitForShardedDelivery (payload : Bytes) (options : SplitOptions) :
    Except String ShardedDelivery := do
  if options.targets.length < options.config.totalShards then
    throw ("every shard needs a home: " ++ toString options.config.totalShards ++
      " shards but only " ++ toString options.targets.length ++ " targets")
  let shards ← encodeShards payload options.config
  let locations ← shards.zipIdx.mapM fun shard => do
    let device ← targetFor options.targets shard.2 shard.1
    return { device, transferId := options.nextTransferId shard.2 : ShardLocation }
  let manifest : Manifest :=
    { totalShards := options.config.totalShards
      threshold := options.config.dataShards
      contentType := options.contentType
      originalLength := payload.length
      shards := locations }
  validateManifest manifest
  let manifestEntry ← encodeShardManifest cbor manifest
  return { manifest, shards, manifestEntry }

/-! ## Reconstruction -/

def reconstructFromShards (fetched : List PresentedShard) (manifest : Manifest)
    (decrypt : Option (Bytes → Except String Bytes)) : Except String Bytes := do
  let reconstructed ←
    decodeShards fetched ⟨manifest.threshold, manifest.totalShards⟩ manifest.originalLength
  match decrypt with
  | none => return reconstructed
  | some decrypt => decrypt reconstructed

end WireMesh.TypeScript.ShardManifest
