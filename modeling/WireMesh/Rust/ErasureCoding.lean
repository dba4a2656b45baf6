import WireMesh.Text

/-!
# Erasure coding (Rust)

The sharding of bytes of `erasure_coding.rs`. An index or a slice outside of its bounds makes a
function panic, which is one of the ways in which it can fail.
-/

namespace WireMesh.Rust.ErasureCoding

inductive ErasureError
  | invalidConfig (what : String)
  | tooFewShards (given need : ℕ)
  | indexOutOfRange (index : ℕ)
  | lengthExceedsCapacity (length capacity : ℕ)
deriving DecidableEq

inductive Failure
  | panicked
  | erasureError (error : ErasureError)
deriving DecidableEq

/-! ## Access -/

section Access

variable {α : Type}

def index (v : List α) (i : ℕ) : Except Failure α :=
  match v[i]? with
  | some a => .ok a
  | none => .error .panicked

def assign (v : List α) (i : ℕ) (a : α) : Except Failure (List α) :=
  if i < v.length then .ok (v.set i a) else .error .panicked

/-- The slice from `start` to before `stop`. -/
def slice (v : List α) (start stop : ℕ) : Except Failure (List α) :=
  if start ≤ stop ∧ stop ≤ v.length then .ok ((v.drop start).take (stop - start))
  else .error .panicked

/-- The first elements are overwritten by as many others. -/
def copyFromSlice (v : List α) (count : ℕ) (source : List α) : Except Failure (List α) :=
  if count ≤ v.length ∧ source.length = count then .ok (source ++ v.drop count)
  else .error .panicked

def resize (v : List α) (length : ℕ) (a : α) : List α :=
  v.take length ++ List.replicate (length - v.length) a

end Access

/-- What does not exist below zero. -/
def subtract (a b : ℕ) : Except Failure ℕ := if b ≤ a then .ok (a - b) else .error .panicked

/-! ## The field -/

def gfPoly : UInt16 := 0x11d

def gfOverflowBit : UInt16 := 0x100

def gfMaxShards : ℕ := 255

def timesGenerator (x : UInt16) : UInt16 :=
  if (x <<< 1) &&& gfOverflowBit ≠ 0 then (x <<< 1) ^^^ gfPoly else x <<< 1

/-- The tables as they are filled, and the next power. -/
structure Tables where
  exp : List UInt8
  log : List UInt8
  x : UInt16

def Tables.fill (t : Tables) (power : ℕ) : Except Failure Tables := do
  let exp ← assign t.exp power t.x.toUInt8
  let log ← assign t.log t.x.toNat (.ofNat power)
  return { exp, log, x := timesGenerator t.x }

/-- The second half repeats the first. -/
def Tables.copy (t : Tables) (power : ℕ) : Except Failure Tables := do
  let exp ← assign t.exp power (← index t.exp (power - gfMaxShards))
  return { t with exp }

def tables : Except Failure Tables := do
  let filled ← (List.range gfMaxShards).foldlM Tables.fill
    { exp := List.replicate (2 * gfMaxShards) 0
      log := List.replicate (gfMaxShards + 1) 0
      x := 1 }
  (List.range' gfMaxShards gfMaxShards).foldlM Tables.copy filled

def gfMul (a b : UInt8) : Except Failure UInt8 := do
  if a = 0 ∨ b = 0 then return 0
  let t ← tables
  index t.exp ((← index t.log a.toNat).toNat + (← index t.log b.toNat).toNat)

def gfInv (a : UInt8) : Except Failure UInt8 := do
  let t ← tables
  index t.exp (← subtract gfMaxShards (← index t.log a.toNat).toNat)

/-! ## Configuration -/

structure ShardConfig where
  dataShards : ℕ
  totalShards : ℕ
deriving DecidableEq

def validateConfig (config : ShardConfig) : Except Failure Unit :=
  if config.dataShards < 1 then
    .error (.erasureError (.invalidConfig
      ("data_shards must be at least 1, got " ++ toString config.dataShards)))
  else if config.totalShards < config.dataShards then
    .error (.erasureError (.invalidConfig ("total_shards must be at least data_shards (" ++
      toString config.dataShards ++ "), got " ++ toString config.totalShards)))
  else if config.totalShards > gfMaxShards then
    .error (.erasureError (.invalidConfig ("the GF(2^8) field supports at most " ++
      toString gfMaxShards ++ " shards, got " ++ toString config.totalShards)))
  else .ok ()

/-! ## Matrices -/

def encodeMatrixRow (row dataShards : ℕ) : Except Failure (List UInt8) :=
  if row < dataShards then assign (List.replicate dataShards 0) row 1
  else (List.range dataShards).mapM fun column => gfInv (.ofNat (row ^^^ column))

def augmentRow (size rowIndex : ℕ) (row : List UInt8) : Except Failure (List UInt8) :=
  assign (resize row (2 * size) 0) (size + rowIndex) 1

/-- The first of the candidates whose entry in the column is not zero. -/
def findPivot (work : List (List UInt8)) (column : ℕ) : List ℕ → Except Failure (Option ℕ)
  | [] => return none
  | candidate :: rest => do
    if (← index (← index work candidate) column) ≠ 0 then return some candidate
    findPivot work column rest

def swapRows (work : List (List UInt8)) (column pivotRow : ℕ) :
    Except Failure (List (List UInt8)) := do
  if pivotRow = column then return work
  let target ← index work column
  let source ← index work pivotRow
  return (work.set column source).set pivotRow target

def eliminateRow (column : ℕ) (work : List (List UInt8)) (other : ℕ) :
    Except Failure (List (List UInt8)) := do
  if other = column then return work
  let target ← index work other
  let factor ← index target column
  if factor = 0 then return work
  let source ← index work column
  let changed ← (target.zip source).mapM fun slots =>
    return slots.1 ^^^ (← gfMul factor slots.2)
  return work.set other (changed ++ target.drop source.length)

def eliminateColumn (size : ℕ) (work : List (List UInt8)) (column : ℕ) :
    Except Failure (List (List UInt8)) := do
  let some pivotRow ← findPivot work column (List.range' column (size - column))
    | throw (.erasureError (.invalidConfig "matrix is singular over GF(2^8)"))
  let swapped ← swapRows work column pivotRow
  let pivotRowValues ← index swapped column
  let pivotInverse ← gfInv (← index pivotRowValues column)
  let scaled ← pivotRowValues.mapM (gfMul · pivotInverse)
  (List.range size).foldlM (eliminateRow column) (swapped.set column scaled)

def invertMatrix (rows : List (List UInt8)) : Except Failure (List (List UInt8)) := do
  let size := rows.length
  let augmented ← (rows.zipIdx).mapM fun indexed => augmentRow size indexed.2 indexed.1
  let work ← (List.range size).foldlM (eliminateColumn size) augmented
  work.mapM fun row => slice row size row.length

/-! ## Shards -/

def shardLength (length dataShards : ℕ) : ℕ := (length + dataShards - 1) / dataShards

/-- A run of the data is copied into a shard of zeros. -/
def dataShard (data : Bytes) (shardLength i : ℕ) : Except Failure Bytes := do
  let start := i * shardLength
  let stop := min ((i + 1) * shardLength) data.length
  let count ← subtract stop start
  copyFromSlice (List.replicate shardLength 0) count (← slice data start stop)

def parityByte (coefficients : List UInt8) (shards : List Bytes) (position : ℕ) :
    Except Failure UInt8 :=
  (coefficients.zipIdx).foldlM
    (fun accumulated indexed => do
      let byte ← index (← index shards indexed.2) position
      return accumulated ^^^ (← gfMul indexed.1 byte)) 0

def encodeShards (data : Bytes) (config : ShardConfig) : Except Failure (List Bytes) := do
  validateConfig config
  let length := shardLength data.length config.dataShards
  let shards ← (List.range config.dataShards).mapM (dataShard data length)
  let parity ← (List.range' config.dataShards (config.totalShards - config.dataShards)).mapM
    fun parityIndex => do
      let coefficients ← encodeMatrixRow parityIndex config.dataShards
      (List.range length).mapM (parityByte coefficients shards)
  return shards ++ parity

structure PresentedShard where
  index : ℕ
  data : Bytes
deriving DecidableEq

/-- All data shards are there, in any order. -/
def passThrough (chosen : List PresentedShard) (dataShards : ℕ) : Except Failure (List Bytes) :=
  (List.range dataShards).mapM fun dataIndex =>
    match chosen.find? (·.index = dataIndex) with
    | some found => .ok found.data
    | none => .error (.erasureError (.invalidConfig
        "internal: data shard missing after the all-present check"))

/-- One shard is multiplied by its factor and added to the row. -/
def recoverStep (chosen : List PresentedShard) (row : Bytes) (indexed : UInt8 × ℕ) :
    Except Failure Bytes := do
  if indexed.1 = 0 then return row
  let source ← ErasureCoding.index chosen indexed.2
  (row.zipIdx).mapM fun slot => do
    let contribution ← gfMul indexed.1 (← ErasureCoding.index source.data slot.2)
    return slot.1 ^^^ contribution

def recoverRow (chosen : List PresentedShard) (length : ℕ) (inverseRow : List UInt8) :
    Except Failure Bytes :=
  (inverseRow.zipIdx).foldlM (recoverStep chosen) (List.replicate length 0)

def stitch (recovered : List Bytes) (length originalLength : ℕ) : Except Failure Bytes :=
  (List.range originalLength).mapM fun position => do
    -- A division by zero panics.
    if length = 0 then throw .panicked
    index (← index recovered (position / length)) (position % length)

def decodeShards (presented : List PresentedShard) (config : ShardConfig) (originalLength : ℕ) :
    Except Failure Bytes := do
  validateConfig config
  if let some outside := presented.find? (·.index ≥ config.totalShards) then
    throw (.erasureError (.indexOutOfRange outside.index))
  if presented.length < config.dataShards then
    throw (.erasureError (.tooFewShards presented.length config.dataShards))
  let chosen ← slice presented 0 config.dataShards
  let firstChosen ← ErasureCoding.index chosen 0
  let length := firstChosen.data.length
  let recovered ←
    if chosen.all (·.index < config.dataShards) then passThrough chosen config.dataShards
    else do
      let submatrix ← chosen.mapM fun shard => encodeMatrixRow shard.index config.dataShards
      let inverse ← invertMatrix submatrix
      (inverse.take config.dataShards).mapM (recoverRow chosen length)
  let capacity := config.dataShards * length
  if originalLength > capacity then
    throw (.erasureError (.lengthExceedsCapacity originalLength capacity))
  stitch recovered length originalLength

end WireMesh.Rust.ErasureCoding
