import WireMesh.Text

/-!
# Erasure coding

The sharding of bytes, any `dataShards` of `totalShards` of which give them back
(`erasure-coding.ts`). The first shards are the bytes themselves in equal runs; the others are
combinations of them over the field with 256 elements, whose products are found in tables of powers
and logarithms. All numbers of the field are bytes.
-/

namespace WireMesh.TypeScript.ErasureCoding

/-! ## The field -/

def gfPoly : ℕ := 0x11d

def gfOverflowBit : ℕ := 0x100

def gfMaxShards : ℕ := 255

/-- Shift, then reduce by the polynomial when the high bit appears. -/
def timesGenerator (x : ℕ) : ℕ :=
  if (x <<< 1) &&& gfOverflowBit ≠ 0 then (x <<< 1) ^^^ gfPoly else x <<< 1

/-- The tables as they are filled, and the next power. -/
structure Tables where
  exp : List ℕ
  log : List ℕ
  x : ℕ

def Tables.fill (t : Tables) (power : ℕ) : Tables where
  exp := t.exp.set power t.x
  log := t.log.set t.x power
  x := timesGenerator t.x

def tables : Tables :=
  (List.range gfMaxShards).foldl Tables.fill
    { exp := List.replicate (2 * gfMaxShards) 0
      log := List.replicate (gfMaxShards + 1) 0
      x := 1 }

/-- The second half repeats the first. -/
def gfExp : List ℕ :=
  (List.range' gfMaxShards gfMaxShards).foldl
    (fun exp power => exp.set power (exp[power - gfMaxShards]?.getD 0)) tables.exp

def gfLog : List ℕ := tables.log

def gfMul (a b : UInt8) : UInt8 :=
  if a = 0 ∨ b = 0 then 0
  else .ofNat (gfExp[gfLog[a.toNat]?.getD 0 + gfLog[b.toNat]?.getD 0]?.getD 0)

def gfInv (a : UInt8) : UInt8 := .ofNat (gfExp[gfMaxShards - gfLog[a.toNat]?.getD 0]?.getD 1)

/-! ## Configuration -/

structure ShardConfig where
  dataShards : ℕ
  totalShards : ℕ
deriving DecidableEq

def validateConfig (config : ShardConfig) : Except String Unit :=
  if config.dataShards < 1 then
    .error ("dataShards must be a positive integer, got " ++ toString config.dataShards)
  else if config.totalShards < config.dataShards then
    .error ("totalShards must be an integer at least dataShards (" ++
      toString config.dataShards ++ "), got " ++ toString config.totalShards)
  else if config.totalShards > gfMaxShards then
    .error ("the GF(2^8) field supports at most " ++ toString gfMaxShards ++ " shards, got " ++
      toString config.totalShards)
  else .ok ()

/-! ## Matrices -/

/-- An entry, or zero if there is none. -/
def entry (rows : List (List UInt8)) (row column : ℕ) : UInt8 :=
  (rows[row]?.bind (·[column]?)).getD 0

/-- A row of the encode matrix: of the identity for the data shards, of a Cauchy matrix for the
    others. -/
def encodeMatrixRow (row dataShards : ℕ) : List UInt8 :=
  if row < dataShards then (List.replicate dataShards 0).set row 1
  else (List.range dataShards).map fun column => gfInv (.ofNat (row ^^^ column))

def findPivot (size : ℕ) (work : List (List UInt8)) (column : ℕ) : Option ℕ :=
  (List.range' column (size - column)).find? fun candidate => entry work candidate column ≠ 0

def swapRows (work : List (List UInt8)) (column pivotRow : ℕ) : List (List UInt8) :=
  if pivotRow ≠ column then
    (work.set column (work[pivotRow]?.getD [])).set pivotRow (work[column]?.getD [])
  else work

def scaleRow (size : ℕ) (row : List UInt8) (pivotInverse : UInt8) : List UInt8 :=
  (List.range (2 * size)).map fun c => gfMul (row[c]?.getD 0) pivotInverse

/-- A multiple of the pivot row is added to another row, so that the entry in the column is zero. -/
def eliminateRow (size column : ℕ) (work : List (List UInt8)) (other : ℕ) :
    Except String (List (List UInt8)) :=
  if other = column then .ok work
  else
    let factor := entry work other column
    if factor = 0 then .ok work
    else
      match work[other]?, work[column]? with
      | some target, some source =>
        .ok (work.set other ((List.range (2 * size)).map fun c =>
          target[c]?.getD 0 ^^^ gfMul factor (source[c]?.getD 0)))
      | _, _ => .error "internal: row vanished mid-inversion"

def eliminateColumn (size : ℕ) (work : List (List UInt8)) (column : ℕ) :
    Except String (List (List UInt8)) :=
  match findPivot size work column with
  | none => .error "matrix is singular over GF(2^8)"
  | some pivotRow =>
    let swapped := swapRows work column pivotRow
    match swapped[column]? with
    | none => .error "internal: pivot row vanished"
    | some pivotRowValues =>
      let pivotInverse := gfInv (pivotRowValues[column]?.getD 1)
      (List.range size).foldlM (eliminateRow size column)
        (swapped.set column (scaleRow size pivotRowValues pivotInverse))

def invertMatrix (rows : List (List UInt8)) : Except String (List (List UInt8)) := do
  let size := rows.length
  let augmented := rows.mapIdx fun rowIndex row =>
    (row ++ List.replicate size 0).set (size + rowIndex) 1
  let work ← (List.range size).foldlM (eliminateColumn size) augmented
  return work.map (·.drop size)

/-! ## Shards -/

def shardLength (length dataShards : ℕ) : ℕ := (length + dataShards - 1) / dataShards

/-- A run of the data, padded with zeros. -/
def dataShard (data : Bytes) (shardLength i : ℕ) : Bytes :=
  let run := (data.drop (i * shardLength)).take shardLength
  run ++ List.replicate (shardLength - run.length) 0

def parityByte (coefficients : List UInt8) (shards : List Bytes) (dataShards position : ℕ) :
    UInt8 :=
  (List.range dataShards).foldl
    (fun accumulated column =>
      accumulated ^^^ gfMul (coefficients[column]?.getD 0) (entry shards column position)) 0

def encodeShards (data : Bytes) (config : ShardConfig) : Except String (List Bytes) := do
  validateConfig config
  let length := shardLength data.length config.dataShards
  let shards := (List.range config.dataShards).map (dataShard data length)
  let parity :=
    (List.range' config.dataShards (config.totalShards - config.dataShards)).map fun parityIndex =>
      (List.range length).map
        (parityByte (encodeMatrixRow parityIndex config.dataShards) shards config.dataShards)
  return shards ++ parity

/-- A shard with its position among the shards of `encodeShards`. -/
structure PresentedShard where
  index : ℕ
  data : Bytes
deriving DecidableEq

/-- All data shards are there, in any order. -/
def passThrough (chosen : List PresentedShard) (dataShards : ℕ) : Except String (List Bytes) :=
  (List.range dataShards).mapM fun dataIndex =>
    match chosen.find? (·.index = dataIndex) with
    | some found => .ok found.data
    | none => .error "internal: data shard missing after the all-present check"

def recoverRow (inverse : List (List UInt8)) (chosen : List PresentedShard)
    (dataShards length dataIndex : ℕ) : Bytes :=
  (List.range dataShards).foldl
    (fun row chosenIndex =>
      let coefficient := entry inverse dataIndex chosenIndex
      if coefficient = 0 then row
      else (List.range length).map fun position => row[position]?.getD 0 ^^^
        gfMul coefficient (entry (chosen.map PresentedShard.data) chosenIndex position))
    (List.replicate length 0)

def stitch (recovered : List Bytes) (length originalLength : ℕ) : Except String Bytes :=
  (List.range originalLength).mapM fun position =>
    match recovered[position / length]?.bind (·[position % length]?) with
    | some byte => .ok byte
    | none => .error "shard position out of range while stitching"

def decodeShards (presented : List PresentedShard) (config : ShardConfig) (originalLength : ℕ) :
    Except String Bytes := do
  validateConfig config
  if let some outside := presented.find? (·.index ≥ config.totalShards) then
    throw ("shard index " ++ toString outside.index ++ " is outside 0.." ++
      toString (config.totalShards - 1))
  if presented.length < config.dataShards then
    throw ("need at least " ++ toString config.dataShards ++ " shards to reconstruct, got " ++
      toString presented.length)
  let chosen := presented.take config.dataShards
  let some firstChosen := chosen.head? | throw "internal: chosen shard set is empty"
  let length := firstChosen.data.length
  let recovered ←
    if chosen.all (·.index < config.dataShards) then passThrough chosen config.dataShards
    else do
      let inverse ← invertMatrix (chosen.map fun shard =>
        encodeMatrixRow shard.index config.dataShards)
      pure ((List.range config.dataShards).map
        (recoverRow inverse chosen config.dataShards length))
  let totalLength := config.dataShards * length
  if originalLength > totalLength then
    throw ("originalLength " ++ toString originalLength ++ " exceeds the shards' capacity " ++
      toString totalLength ++ " -- wrong manifest for these shards")
  stitch recovered length originalLength

end WireMesh.TypeScript.ErasureCoding
