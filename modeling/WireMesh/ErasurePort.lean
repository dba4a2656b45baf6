import WireMesh.Reconstruction
import WireMesh.Rust.ErasureCoding

/-!
# The port of the erasure coding

What the functions of `erasure_coding.rs` do on the rows and tables of `Elimination` and
`Reconstruction`: none of their indices is out of bounds there, and they compute what those of
`erasure-coding.ts` compute. So the port decodes the shards of the original.

The encoder is the exception. A data shard which begins past the end of the data makes it panic
(`dataShard_error`), where the original pads with zeros.
-/

namespace WireMesh

open Rust.ErasureCoding hiding shardLength
open TypeScript.ErasureCoding (shardLength)

/-! ## Lists -/

theorem index_eq {α : Type} {v : List α} {i : ℕ} {a : α} (h : v[i]? = some a) :
    index v i = .ok a := by
  rw [index, h]

theorem assign_eq {α : Type} {v : List α} {i : ℕ} (h : i < v.length) (a : α) :
    assign v i a = .ok (v.set i a) :=
  if_pos h

theorem zipIdx_map_range {α : Type} (m : ℕ) (f : ℕ → α) :
    ((List.range m).map f).zipIdx = (List.range m).map fun c => (f c, c) := by
  grind [List.zipIdx_eq_zip_range', List.range_eq_range', List.zip_eq_zipWith, List.zipWith_self]

theorem zip_row (m : ℕ) (v w : ℕ → GF) :
    (row m v).zip (row m w) = (List.range m).map fun c => ((v c).byte, (w c).byte) := by
  rw [row, row, List.zip_map']

/-! ## The field -/

/-- The tables as bytes. -/
def asBytes (exp log : List ℕ) (x : ℕ) : Tables :=
  ⟨exp.map UInt8.ofNat, log.map UInt8.ofNat, .ofNat x⟩

theorem timesGenerator_ofNat :
    ∀ x < 256, timesGenerator (.ofNat x) = .ofNat (TypeScript.ErasureCoding.timesGenerator x) := by
  decide +kernel

theorem fill_tablesAfter {k : ℕ} (hk : k < 255) :
    (asBytes (tablesAfter k).exp (tablesAfter k).log (tablesAfter k).x).fill k =
      .ok (asBytes (tablesAfter (k + 1)).exp (tablesAfter (k + 1)).log
        (tablesAfter (k + 1)).x) := by
  obtain ⟨hexp, hlog⟩ := length_tablesAfter k
  have hx : (tablesAfter k).x < 256 := tablesAfter_x k ▸ gfPower_lt k
  have hlookup : (UInt16.ofNat (tablesAfter k).x).toNat = (tablesAfter k).x :=
    UInt16.toNat_ofNat_of_lt' (hx.trans (by decide))
  rw [tablesAfter_succ]
  simp only [Tables.fill, TypeScript.ErasureCoding.Tables.fill, asBytes, hlookup]
  rw [assign_eq (by rw [List.length_map]; omega), ok_bind,
    assign_eq (by rw [List.length_map]; omega), ok_bind, timesGenerator_ofNat _ hx, List.map_set,
    List.map_set, UInt16.toUInt8_ofNat']
  rfl

theorem copy_expAfter {m : ℕ} (hm : m < 255) (log : List ℕ) (x : ℕ) :
    (asBytes (expAfter m) log x).copy (255 + m) = .ok (asBytes (expAfter (m + 1)) log x) := by
  have hget : (expAfter m)[m]? = some (gfPower m) := getElem?_expAfter (by omega) (by omega)
  have hlength := length_expAfter m
  have hindex : ((expAfter m).map UInt8.ofNat)[255 + m - gfMaxShards]? =
      some (.ofNat (gfPower m)) := by
    rw [gfMaxShards, Nat.add_sub_cancel_left, List.getElem?_map, hget, Option.map_some]
  simp only [Tables.copy, asBytes, index_eq hindex, ok_bind]
  rw [assign_eq (by rw [List.length_map]; omega), ok_bind, expAfter_succ, hget, List.map_set]
  rfl

/-- The tables of the port are those of the original. -/
theorem tables_eq : tables = .ok (asBytes TypeScript.ErasureCoding.gfExp
    TypeScript.ErasureCoding.gfLog (tablesAfter 255).x) := by
  have hfill : (List.range gfMaxShards).foldlM Tables.fill
      (asBytes (tablesAfter 0).exp (tablesAfter 0).log (tablesAfter 0).x) =
        .ok (asBytes (tablesAfter 255).exp (tablesAfter 255).log (tablesAfter 255).x) :=
    foldlM_range (fun k => asBytes (tablesAfter k).exp (tablesAfter k).log (tablesAfter k).x)
      fun _ hm => fill_tablesAfter hm
  have hcopy : (List.range gfMaxShards).foldlM (fun t m => Tables.copy t (255 + m))
      (asBytes (expAfter 0) TypeScript.ErasureCoding.gfLog (tablesAfter 255).x) =
        .ok (asBytes (expAfter 255) TypeScript.ErasureCoding.gfLog (tablesAfter 255).x) :=
    foldlM_range (fun m => asBytes (expAfter m) TypeScript.ErasureCoding.gfLog (tablesAfter 255).x)
      fun _ hm => copy_expAfter hm _ _
  have hstart : asBytes (tablesAfter 0).exp (tablesAfter 0).log (tablesAfter 0).x =
      { exp := List.replicate (2 * gfMaxShards) 0
        log := List.replicate (gfMaxShards + 1) 0
        x := 1 } := by
    rw [asBytes, tablesAfter, List.range_zero, List.foldl_nil, List.map_replicate,
      List.map_replicate]
    rfl
  rw [tables, ← hstart, hfill, ok_bind, List.range'_eq_map_range, List.foldlM_map]
  exact hcopy

section Field

variable {a b : UInt8}

theorem index_log (ha : a ≠ 0) (x : ℕ) :
    index (asBytes TypeScript.ErasureCoding.gfExp TypeScript.ErasureCoding.gfLog x).log a.toNat =
      .ok (.ofNat (GF.log ⟨a⟩)) := by
  obtain ⟨p, hp, hpower, hlookup⟩ :=
    exists_gfLog a.toNat_lt (GF.toNat_ne_zero fun h => ha (GF.mk_eq_zero.1 h))
  have hget : (asBytes TypeScript.ErasureCoding.gfExp TypeScript.ErasureCoding.gfLog x).log[
      a.toNat]? = some (.ofNat p) := by
    rw [asBytes, List.getElem?_map, hlookup]
    rfl
  rw [index_eq hget, GF.log, hlookup]
  rfl

theorem index_exp {i : ℕ} (hi : i < 510) (x : ℕ) :
    index (asBytes TypeScript.ErasureCoding.gfExp TypeScript.ErasureCoding.gfLog x).exp i =
      .ok (.ofNat (gfPower i)) := by
  refine index_eq ?_
  rw [asBytes, List.getElem?_map, getElem?_gfExp hi, Option.map_some]

theorem log_toNat (ha : a ≠ 0) :
    (UInt8.ofNat (GF.log ⟨a⟩)).toNat = GF.log ⟨a⟩ ∧ GF.log ⟨a⟩ < 255 := by
  grind [GF.log_spec, GF.mk_eq_zero, UInt8.toNat_ofNat_of_lt']

theorem port_gfMul (a b : UInt8) : gfMul a b = .ok ((⟨a⟩ : GF) * ⟨b⟩).byte := by
  change _ = Except.ok (GF.generator.mul ⟨a⟩ ⟨b⟩).byte
  simp only [gfMul, Generator.mul, GF.mk_eq_zero]
  split_ifs with hzero
  · rfl
  · obtain ⟨ha, hb⟩ := not_or.1 hzero
    obtain ⟨hloga, hlta⟩ := log_toNat ha
    obtain ⟨hlogb, hltb⟩ := log_toNat hb
    rw [tables_eq, ok_bind, index_log ha, ok_bind, index_log hb, ok_bind, hloga, hlogb,
      index_exp (by omega), GF.power_eq, GF.generator_log]

theorem port_gfInv (ha : a ≠ 0) : gfInv a = .ok ((⟨a⟩ : GF)⁻¹).byte := by
  change _ = Except.ok (GF.generator.inv ⟨a⟩).byte
  obtain ⟨hlog, hlt⟩ := log_toNat ha
  have hsubtract : subtract gfMaxShards (GF.log ⟨a⟩) = .ok (gfMaxShards - GF.log ⟨a⟩) :=
    if_pos hlt.le
  rw [gfInv, tables_eq, ok_bind, index_log ha, ok_bind, hlog, hsubtract, ok_bind,
    index_exp (by rw [gfMaxShards]; omega), Generator.inv, if_neg (mt GF.mk_eq_zero.1 ha),
    GF.power_eq, GF.generator_log, GF.generator_order]
  rfl

end Field

/-! ## Matrices -/

theorem port_encodeMatrixRow {r k : ℕ} (hr : r < 255) :
    encodeMatrixRow r k = .ok (row k (CauchyCode.coefficient point k r)) := by
  rw [← encodeMatrixRow_eq hr, encodeMatrixRow, TypeScript.ErasureCoding.encodeMatrixRow]
  grind [assign_eq, mapM_ok, ofNat_xor_ne_zero, port_gfInv, gfInv_eq]

section Steps

variable {n column : ℕ} {rows : ℕ → ℕ → GF}

theorem port_index {r m : ℕ} (hr : r < n) :
    index (table n m rows) r = .ok (row m (rows r)) :=
  index_eq (getElem?_table hr)

theorem port_index_row {c m : ℕ} {v : ℕ → GF} (hc : c < m) :
    index (row m v) c = .ok (v c).byte :=
  index_eq (getElem?_row hc)

theorem port_findPivot (hcolumn : column < n) {candidates : List ℕ}
    (h : ∀ r ∈ candidates, r < n) :
    findPivot (table n (2 * n) rows) column candidates =
      .ok (candidates.find? fun r => rows r column ≠ 0) := by
  induction candidates with
  | nil => rfl
  | cons r rest ih =>
    rw [findPivot, port_index (h r List.mem_cons_self), ok_bind, port_index_row (by omega), ok_bind,
      ih fun s hs => h s (List.mem_cons_of_mem r hs), List.find?_cons]
    simp only [GF.byte_ne_zero]
    by_cases hzero : rows r column = 0
    · simp [hzero]
    · simp [hzero]
      rfl

theorem port_swapRows {p : ℕ} (hcolumn : column < n) (hp : p < n) :
    swapRows (table n (2 * n) rows) column p =
      .ok (table n (2 * n) (GaussJordan.swap rows column p)) := by
  rw [← swapRows_table hcolumn hp, swapRows, TypeScript.ErasureCoding.swapRows]
  by_cases heq : p = column
  · rw [if_pos heq, if_neg (not_not.2 heq)]
    rfl
  · rw [if_neg heq, if_pos heq, port_index hcolumn, ok_bind, port_index hp, ok_bind,
      getElem?_table hcolumn, getElem?_table hp]
    rfl

theorem port_eliminateRow {other : ℕ} (hother : other < n) (hcolumn : column < n) :
    eliminateRow column (table n (2 * n) rows) other =
      .ok (table n (2 * n) (Function.update rows other (GaussJordan.clear rows column other))) := by
  rcases eq_or_ne other column with rfl | hne
  · rw [eliminateRow, if_pos rfl, GaussJordan.clear, if_pos rfl, Function.update_eq_self]
    rfl
  rw [eliminateRow, if_neg hne, port_index hother, ok_bind, port_index_row (by omega), ok_bind,
    GaussJordan.clear, if_neg hne]
  by_cases hzero : rows other column = 0
  · rw [if_pos (by rw [hzero, GF.byte_zero]), hzero, zero_smul, sub_zero, Function.update_eq_self]
    rfl
  · rw [if_neg (GF.byte_ne_zero.2 hzero), port_index hcolumn, ok_bind, zip_row, List.mapM_map,
      mapM_ok (g := fun c => (rows other c - rows other column * rows column c).byte), ok_bind,
      List.drop_of_length_le (by rw [length_row, length_row]), List.append_nil, ← set_table]
    · rfl
    · intro c _
      rw [Function.comp_apply, port_gfMul, ok_bind]
      rfl

theorem port_scale (m : ℕ) (v : ℕ → GF) (a : GF) :
    (row m v).mapM (gfMul · a.byte) = .ok (row m (a • v)) := by
  rw [row, List.mapM_map]
  refine mapM_ok fun c _ => ?_
  rw [Function.comp_apply, port_gfMul, mul_comm]
  rfl

theorem port_eliminateColumn (hcolumn : column < n) {rows' : ℕ → ℕ → GF}
    (h : GaussJordan.step n rows column = some rows') :
    eliminateColumn n (table n (2 * n) rows) column = .ok (table n (2 * n) rows') := by
  obtain ⟨p, hp, rfl⟩ := Option.map_eq_some_iff.1 h
  obtain ⟨-, hlt, hne⟩ := GaussJordan.pivot_spec hp
  have hfind : findPivot (table n (2 * n) rows) column (List.range' column (n - column)) =
      .ok (some p) := by grind [port_findPivot, GaussJordan.pivot]
  have hpivot : (GaussJordan.swap rows column p column column).byte ≠ 0 := by
    rwa [GF.byte_ne_zero, GaussJordan.swap, Equiv.swap_apply_left]
  rw [eliminateColumn, hfind, ok_bind]
  dsimp only
  rw [port_swapRows hcolumn hlt, ok_bind, port_index hcolumn, ok_bind,
    port_index_row (by omega : column < 2 * n), ok_bind, port_gfInv hpivot, ok_bind, port_scale,
    ok_bind, set_table, foldlM_clear fun hother => port_eliminateRow hother hcolumn,
    GaussJordan.scale]

end Steps

theorem port_resize_row (n : ℕ) (v : ℕ → GF) :
    resize (row n v) (2 * n) 0 = row n v ++ List.replicate n 0 := by
  grind [resize, length_row, List.take_of_length_le]

theorem port_augmented (n : ℕ) (matrix : ℕ → ℕ → GF) :
    ((table n n matrix).zipIdx.mapM fun indexed => augmentRow n indexed.2 indexed.1) =
      .ok (table n (2 * n) (GaussJordan.augment n matrix)) := by
  rw [table, zipIdx_map_range, List.mapM_map]
  refine mapM_ok fun r hr => ?_
  rw [Function.comp_apply, augmentRow, port_resize_row, ← augment_row, assign_eq]
  · rfl
  · grind [length_row]

theorem port_eliminateColumn_none {n column : ℕ} {rows : ℕ → ℕ → GF} (hcolumn : column < n)
    (h : GaussJordan.step n rows column = none) :
    eliminateColumn n (table n (2 * n) rows) column =
      .error (.erasureError (.invalidConfig "matrix is singular over GF(2^8)")) := by
  have hpivot := Option.map_eq_none_iff.1 h
  have hfind : findPivot (table n (2 * n) rows) column (List.range' column (n - column)) =
      .ok none := by grind [port_findPivot, GaussJordan.pivot]
  rw [eliminateColumn, hfind, ok_bind]
  rfl

theorem port_eliminate {n : ℕ} {columns : List ℕ} (hcolumns : ∀ column ∈ columns, column < n)
    (rows : ℕ → ℕ → GF) :
    columns.foldlM (eliminateColumn n) (table n (2 * n) rows) =
      (columns.foldlM (GaussJordan.step n) rows).elim
        (.error (.erasureError (.invalidConfig "matrix is singular over GF(2^8)")))
        fun rows' => .ok (table n (2 * n) rows') := by
  induction columns generalizing rows with
  | nil => rfl
  | cons column columns ih =>
    have hcolumn := hcolumns column List.mem_cons_self
    rw [List.foldlM_cons, List.foldlM_cons]
    cases hstep : GaussJordan.step n rows column with
    | none =>
      rw [port_eliminateColumn_none hcolumn hstep]
      rfl
    | some rows' =>
      rw [port_eliminateColumn hcolumn hstep]
      exact ih (fun c hc => hcolumns c (List.mem_cons_of_mem _ hc)) rows'

theorem port_invertMatrix_eq (n : ℕ) (matrix : ℕ → ℕ → GF) :
    invertMatrix (table n n matrix) =
      (GaussJordan.eliminate n (GaussJordan.augment n matrix)).elim
        (.error (.erasureError (.invalidConfig "matrix is singular over GF(2^8)")))
        fun rows => .ok (table n n fun r c => rows r (n + c)) := by
  simp only [invertMatrix, length_table, port_augmented, ok_bind,
    port_eliminate fun _ => List.mem_range.1, GaussJordan.eliminate]
  cases (List.range n).foldlM (GaussJordan.step n) (GaussJordan.augment n matrix) with
  | none => rfl
  | some rows =>
    rw [Option.elim_some, Option.elim_some, ok_bind, ← drop_table]
    refine mapM_ok fun r hr => ?_
    obtain ⟨i, -, rfl⟩ := List.mem_map.1 hr
    grind [slice, length_row, List.length_drop]

/-- A nonsingular matrix is inverted. -/
theorem port_invertMatrix {n : ℕ} {matrix : ℕ → ℕ → GF} (h : GaussJordan.Nonsingular n matrix) :
    ∃ inverse : ℕ → ℕ → GF, invertMatrix (table n n matrix) = .ok (table n n inverse) ∧
      ∀ r < n, ∀ j < n,
        ∑ i ∈ Finset.range n, inverse r i * matrix i j = if r = j then 1 else 0 := by
  obtain ⟨rows, heliminate, hinverse⟩ := GaussJordan.exists_inverse h
  refine ⟨fun r c => rows r (n + c), ?_, hinverse⟩
  rw [port_invertMatrix_eq, heliminate, Option.elim_some]

/-! ## Decoding -/

theorem port_validateConfig {k n : ℕ} (hk : 1 ≤ k) (hkn : k ≤ n) (hn : n ≤ 255) :
    validateConfig ⟨k, n⟩ = .ok () := by grind [validateConfig, gfMaxShards]

section Decode

variable {data : Bytes} {k n : ℕ} {indices : List ℕ}

/-- The shard with an index. -/
def portPresent (data : Bytes) (k i : ℕ) : PresentedShard :=
  ⟨i, (present data k i).data⟩

theorem port_passThrough (hlength : indices.length = k) (hnodup : indices.Nodup)
    (hall : ∀ i ∈ indices, i < k) :
    passThrough (indices.map (portPresent data k)) k =
      .ok (table k (shardLength data.length k) (padded data (shardLength data.length k))) := by
  refine mapM_ok fun i hi => ?_
  have hi := List.mem_range.1 hi
  rw [find?_indices (fun _ => rfl) (mem_indices hlength hnodup hall hi)]
  refine congrArg Except.ok (row_congr fun position _ => ?_)
  rw [codeword, CauchyCode.symbol_of_lt hi]

theorem port_recoverRow {inverse shards : ℕ → ℕ → GF} {chosen : List PresentedShard} {length : ℕ}
    (hchosen : chosen.map PresentedShard.data = table k length shards) (i : ℕ) :
    recoverRow chosen length (row k (inverse i)) =
      .ok (row length fun position =>
        ∑ r ∈ Finset.range k, inverse i r * shards r position) := by
  let combined (m : ℕ) : Bytes :=
    row length fun position => ∑ r ∈ Finset.range m, inverse i r * shards r position
  have hstart : combined 0 = List.replicate length 0 := row_zero length
  rw [recoverRow, row, zipIdx_map_range, List.foldlM_map, ← hstart]
  refine foldlM_range combined fun m hm => ?_
  rw [recoverStep]
  split_ifs with hzero
  · refine congrArg Except.ok (row_congr fun position _ => ?_)
    have hzero : inverse i m = 0 := GF.ext hzero
    rw [Finset.sum_range_succ, hzero, zero_mul, add_zero]
  · obtain ⟨shard, hshard, hdata⟩ : ∃ shard, chosen[m]? = some shard ∧
        shard.data = row length (shards m) := by
      have hget : (chosen.map PresentedShard.data)[m]? = some (row length (shards m)) := by
        rw [hchosen, getElem?_table hm]
      rwa [List.getElem?_map, Option.map_eq_some_iff] at hget
    dsimp only [combined]
    rw [index_eq hshard, ok_bind, row, zipIdx_map_range, List.mapM_map, hdata]
    refine mapM_ok fun position hposition => ?_
    rw [Function.comp_apply, port_index_row (List.mem_range.1 hposition), ok_bind, port_gfMul,
      ok_bind]
    exact congrArg (Except.ok ∘ GF.byte) (Finset.sum_range_succ _ m).symm

theorem port_stitch (hk : 1 ≤ k) :
    stitch (table k (shardLength data.length k) (padded data (shardLength data.length k)))
      (shardLength data.length k) data.length = .ok data := by
  rw [stitch, mapM_ok (g := (data[·]?.getD 0)), map_getElem?_getD]
  intro position hposition
  obtain ⟨hshard, hoffset⟩ := position_lt hk (List.mem_range.1 hposition)
  grind [port_index, ok_bind, port_index_row, padded_position]

theorem port_decodeShards (hk : 1 ≤ k) (hkn : k ≤ n) (hn : n ≤ 255)
    (hlength : k ≤ indices.length) (hnodup : indices.Nodup) (hlt : ∀ i ∈ indices, i < n) :
    decodeShards (indices.map (portPresent data k)) ⟨k, n⟩ data.length = .ok data := by
  have hinside : (indices.map (portPresent data k)).find? (·.index ≥ n) = none :=
    find?_outside (fun _ => rfl) hlt
  have hmany : ¬(indices.map (portPresent data k)).length < k := by simpa using hlength
  have hslice : slice (indices.map (portPresent data k)) 0 k =
      .ok ((indices.take k).map (portPresent data k)) := by grind [slice, List.map_take]
  simp only [decodeShards, port_validateConfig hk hkn hn, hinside, hmany, hslice, ok_bind, if_false]
  have htake : (indices.take k).length = k := by simpa using hlength
  have hnodup := hnodup.sublist (List.take_sublist k indices)
  have hlt : ∀ i ∈ indices.take k, i < n := fun i hi => hlt i (List.mem_of_mem_take hi)
  generalize indices.take k = chosen at htake hnodup hlt
  have hfirst := index_eq (getElem?_first hk htake (portPresent data k))
  have hsize : (portPresent data k (indexAt chosen 0)).data.length = shardLength data.length k :=
    length_row
  have hcapacity : ¬data.length > k * shardLength data.length k :=
    Nat.not_lt.2 (length_le_capacity hk)
  by_cases hall : ∀ i ∈ chosen, i < k
  · grind [portPresent, ok_bind, port_passThrough, port_stitch]
  · have hdata : (chosen.map (portPresent data k)).all (·.index < k) = false :=
      (all_indices fun _ => rfl).trans (decide_eq_false hall)
    have hsubmatrix : ((chosen.map (portPresent data k)).mapM fun shard =>
        encodeMatrixRow shard.index k) =
          .ok (table k k fun r => CauchyCode.coefficient point k (indexAt chosen r)) := by
      rw [List.mapM_map, ← map_indices htake]
      exact mapM_ok fun i hi => port_encodeMatrixRow ((hlt i hi).trans_le hn)
    obtain ⟨inverse, hok, hinverse⟩ :=
      port_invertMatrix (nonsingular_indices hkn hn htake hnodup hlt)
    have hchosen : (chosen.map (portPresent data k)).map PresentedShard.data =
        table k (shardLength data.length k) fun r =>
          codeword data k (shardLength data.length k) (indexAt chosen r) :=
      List.map_map.trans (map_indices htake ..)
    have hrecovered : ((table k k inverse).take k).mapM (recoverRow
        (chosen.map (portPresent data k)) (shardLength data.length k)) =
          .ok (table k (shardLength data.length k) (padded data (shardLength data.length k))) := by
      rw [List.take_of_length_le (by rw [length_table]), table, List.mapM_map]
      refine mapM_ok fun i hi => ?_
      rw [Function.comp_apply, port_recoverRow hchosen, recovered_eq hinverse (List.mem_range.1 hi)]
    grind [ok_bind, port_stitch]

end Decode

-- The products are evaluated from the powers of the generator: the tables are large.
theorem encodeShards_three_bytes : TypeScript.ErasureCoding.encodeShards [1, 2, 3] ⟨2, 3⟩ =
    .ok [[1, 2], [3, 0], [143, 1]] := by
  have h142 : (142 : UInt8) = .ofNat (gfPower 254) := by decide +kernel
  have h244 : (244 : UInt8) = .ofNat (gfPower 230) := by decide +kernel
  have hinv : TypeScript.ErasureCoding.gfInv 2 = 142 ∧
      TypeScript.ErasureCoding.gfInv (2 ^^^ 1) = 244 := by
    constructor <;> refine gfInv_eq_of_gfMul ?_
    · rw [h142, gfMul_gfPower]
      decide +kernel
    · rw [h244, gfMul_gfPower]
      decide +kernel
  have hmul : TypeScript.ErasureCoding.gfMul 142 1 = 142 ∧
      TypeScript.ErasureCoding.gfMul 142 2 = 1 ∧ TypeScript.ErasureCoding.gfMul 244 3 = 1 ∧
      TypeScript.ErasureCoding.gfMul 244 0 = 0 := by
    rw [h142, h244]
    simp only [gfMul_gfPower]
    decide +kernel
  simp [TypeScript.ErasureCoding.encodeShards, TypeScript.ErasureCoding.validateConfig,
    TypeScript.ErasureCoding.gfMaxShards, shardLength, TypeScript.ErasureCoding.dataShard,
    TypeScript.ErasureCoding.parityByte, TypeScript.ErasureCoding.encodeMatrixRow,
    TypeScript.ErasureCoding.entry, List.range_succ, hinv, hmul]
  decide

/-- Any `dataShards` of the shards give the data back, in either language. -/
theorem decodeShards_encodeShards (data : Bytes) {k n : ℕ} (hk : 1 ≤ k) (hkn : k ≤ n)
    (hn : n ≤ 255) :
    ∃ shards, TypeScript.ErasureCoding.encodeShards data ⟨k, n⟩ = .ok shards ∧
      shards.length = n ∧
      ∀ presented : List (ℕ × Bytes), k ≤ presented.length → (presented.map Prod.fst).Nodup →
        (∀ shard ∈ presented, shards[shard.1]? = some shard.2) →
          TypeScript.ErasureCoding.decodeShards
            (presented.map fun shard => ⟨shard.1, shard.2⟩) ⟨k, n⟩ data.length = .ok data ∧
          Rust.ErasureCoding.decodeShards
            (presented.map fun shard => ⟨shard.1, shard.2⟩) ⟨k, n⟩ data.length = .ok data := by
  have hencode := encodeShards_eq hk hkn hn data
  refine ⟨_, hencode, length_table, fun presented hmany hnodup htaken => ⟨?_, ?_⟩⟩
  · exact decodeShards_of_encodeShards hk hkn hn hencode hmany hnodup htaken
  · have hport : presented.map (fun shard => (⟨shard.1, shard.2⟩ : PresentedShard)) =
        (presented.map Prod.fst).map (portPresent data k) := by
      rw [List.map_map]
      exact List.map_congr_left fun shard hshard => congrArg (PresentedShard.mk shard.1)
        (eq_present hk hkn hn hencode (htaken shard hshard)).2
    rw [hport]
    refine port_decodeShards hk hkn hn (by simpa using hmany) hnodup ?_
    rw [List.forall_mem_map]
    exact fun shard hshard => (eq_present hk hkn hn hencode (htaken shard hshard)).1

theorem decodeShards_encodeShards_sample :
    TypeScript.ErasureCoding.decodeShards [⟨2, [143, 1]⟩, ⟨0, [1, 2]⟩] ⟨2, 3⟩ 3 = .ok [1, 2, 3] ∧
      Rust.ErasureCoding.decodeShards [⟨2, [143, 1]⟩, ⟨0, [1, 2]⟩] ⟨2, 3⟩ 3 = .ok [1, 2, 3] := by
  obtain ⟨shards, hencode, -, hdecode⟩ := decodeShards_encodeShards [1, 2, 3]
    (by decide : 1 ≤ 2) (by decide : 2 ≤ 3) (by decide)
  obtain rfl := Except.ok.inj (hencode.symm.trans encodeShards_three_bytes)
  exact hdecode [(2, [143, 1]), (0, [1, 2])] (by decide) (by decide) (by decide)

/-! ## Encoding -/

section Encode

variable {data : Bytes} {k n length i : ℕ}

theorem port_dataShard (h : i * length ≤ data.length) :
    dataShard data length i = .ok (row length (padded data length i)) := by
  have hnext : (i + 1) * length = i * length + length := Nat.succ_mul i length
  have hstop : i * length ≤ min ((i + 1) * length) data.length := by omega
  have hrun : (data.drop (i * length)).take (min ((i + 1) * length) data.length - i * length) =
      (data.drop (i * length)).take length := by
    rw [List.take_eq_take_iff, List.length_drop]
    omega
  have hcount : ((data.drop (i * length)).take length).length =
      min ((i + 1) * length) data.length - i * length := by
    rw [List.length_take, List.length_drop]
    omega
  rw [dataShard, subtract, if_pos hstop, ok_bind, slice, if_pos ⟨hstop, Nat.min_le_right ..⟩,
    ok_bind, copyFromSlice, hrun, if_pos, ← dataShard_eq, TypeScript.ErasureCoding.dataShard,
    hcount, List.drop_replicate]
  exact ⟨by rw [List.length_replicate]; omega, hcount⟩

theorem port_parityByte {r position : ℕ} (hposition : position < length) :
    parityByte (row k (CauchyCode.coefficient point k r)) (table k length (padded data length))
      position = .ok (codeword data k length r position).byte := by
  let combined (m : ℕ) : UInt8 := (∑ c ∈ Finset.range m,
    CauchyCode.coefficient point k r c * padded data length c position).byte
  rw [parityByte, row, zipIdx_map_range, List.foldlM_map]
  refine foldlM_range combined fun m hm => ?_
  rw [port_index hm, ok_bind, port_index_row hposition, ok_bind, port_gfMul, ok_bind]
  exact congrArg (Except.ok ∘ GF.byte) (Finset.sum_range_succ _ m).symm

end Encode

theorem le_of_dataShard {shard : Bytes} (h : dataShard data length i = .ok shard) :
    i * length ≤ data.length := by
  obtain ⟨count, hcount, -⟩ := of_bind_eq_ok h
  rw [subtract] at hcount
  split_ifs at hcount with hle
  exact hle.trans (Nat.min_le_right _ _)

theorem encodeShards_ok (hk : 1 ≤ k) (hkn : k ≤ n) (hn : n ≤ 255)
    (hbegin : (k - 1) * shardLength data.length k ≤ data.length) :
    Rust.ErasureCoding.encodeShards data ⟨k, n⟩ = .ok (table n (shardLength data.length k)
      (codeword data k (shardLength data.length k))) := by
  have hshards : (List.range k).mapM (dataShard data (shardLength data.length k)) =
      .ok (table k (shardLength data.length k) (padded data (shardLength data.length k))) := by
    refine mapM_ok fun i hi => port_dataShard (le_trans ?_ hbegin)
    exact Nat.mul_le_mul_right _ (by have := List.mem_range.1 hi; omega)
  have hparity : ((List.range' k (n - k)).mapM fun parityIndex => do
      let coefficients ← encodeMatrixRow parityIndex k
      (List.range (shardLength data.length k)).mapM (parityByte coefficients
        (table k (shardLength data.length k) (padded data (shardLength data.length k))))) =
          .ok ((List.range' k (n - k)).map fun r => row (shardLength data.length k)
            (codeword data k (shardLength data.length k) r)) := by
    refine mapM_ok fun r hr => ?_
    rw [List.mem_range'_1] at hr
    rw [port_encodeMatrixRow (by omega), ok_bind]
    exact mapM_ok fun position hposition => port_parityByte (List.mem_range.1 hposition)
  have hlength : Rust.ErasureCoding.shardLength data.length k = shardLength data.length k := rfl
  simp only [Rust.ErasureCoding.encodeShards, port_validateConfig hk hkn hn, ok_bind, hlength,
    hshards, hparity, table_codeword hkn]
  rfl

/-- The encoders give the same shards if and only if no data shard begins past the end of the
    data. -/
theorem encodeShards_port (data : Bytes) {k n : ℕ} (hk : 1 ≤ k) (hkn : k ≤ n) (hn : n ≤ 255) :
    (∃ shards, TypeScript.ErasureCoding.encodeShards data ⟨k, n⟩ = .ok shards ∧
      Rust.ErasureCoding.encodeShards data ⟨k, n⟩ = .ok shards) ↔
        (k - 1) * shardLength data.length k ≤ data.length := by
  refine ⟨?_, fun hbegin => ⟨_, encodeShards_eq hk hkn hn data, encodeShards_ok hk hkn hn hbegin⟩⟩
  rintro ⟨shards, -, hport⟩
  rw [Rust.ErasureCoding.encodeShards, port_validateConfig hk hkn hn, ok_bind] at hport
  obtain ⟨dataShards, hshards, -⟩ := of_bind_eq_ok hport
  -- The last data shard is read from the data, too.
  obtain ⟨shard, hshard⟩ := exists_ok_of_mapM hshards
    (List.mem_range.2 (Nat.sub_lt hk Nat.one_pos))
  exact le_of_dataShard hshard

theorem encodeShards_port_sample :
    ∃ shards, TypeScript.ErasureCoding.encodeShards [1, 2, 3] ⟨2, 3⟩ = .ok shards ∧
      Rust.ErasureCoding.encodeShards [1, 2, 3] ⟨2, 3⟩ = .ok shards :=
  (encodeShards_port [1, 2, 3] (by decide) (by decide) (by decide)).2 (by decide)

/-- The third of three data shards begins past the end of one byte. -/
theorem encodeShards_port_differs :
    TypeScript.ErasureCoding.encodeShards [1] ⟨3, 3⟩ = .ok [[1], [0], [0]] ∧
      Rust.ErasureCoding.encodeShards [1] ⟨3, 3⟩ = .error .panicked := by
  decide +kernel

end WireMesh
