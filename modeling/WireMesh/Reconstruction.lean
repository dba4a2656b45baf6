import Mathlib.Algebra.BigOperators.Ring.Finset
import WireMesh.CauchyCode
import WireMesh.Elimination

/-!
# Reconstruction from shards

The shards of `encodeShards` are a systematic code with Cauchy rows, one codeword for each position
in a shard (`encodeShards_eq`). So any `dataShards` of them, in any order, give the data shards
back, and with them the bytes that were encoded (`decodeShards_encodeShards`).
-/

namespace WireMesh

open TypeScript.ErasureCoding

/-! ## The code -/

/-- The point of a shard. -/
def point (i : ℕ) : GF := ⟨.ofNat i⟩

/-- The byte at a position of a data shard. -/
def padded (data : Bytes) (length shard position : ℕ) : GF :=
  ⟨data[shard * length + position]?.getD 0⟩

/-- The byte at a position of any shard. -/
def codeword (data : Bytes) (k length shard position : ℕ) : GF :=
  CauchyCode.symbol point k (padded data length · position) shard

theorem point_injOn {n : ℕ} (hn : n ≤ 255) : Set.InjOn point { i | i < n } := by
  intro i hi j hj h
  have h := congrArg (fun a : GF => a.byte.toNat) h
  have hi : i < n := hi
  have hj : j < n := hj
  simpa [point, Nat.mod_eq_of_lt (by omega : i < 256), Nat.mod_eq_of_lt (by omega : j < 256)]
    using h

/-- The points of a parity shard and of a data shard differ. -/
theorem ofNat_xor_ne_zero {r c : ℕ} (hr : r < 255) (hc : c < 255) (hne : c ≠ r) :
    UInt8.ofNat (r ^^^ c) ≠ 0 := by
  have hsub : point r - point c = ⟨.ofNat (r ^^^ c)⟩ := GF.ext (UInt8.ofNat_xor r c).symm
  rw [Ne, ← GF.mk_eq_zero, ← hsub, sub_eq_zero]
  exact fun heq => hne (point_injOn (le_refl 255) hr hc heq).symm

theorem encodeMatrixRow_eq {r k : ℕ} (hr : r < 255) :
    encodeMatrixRow r k = row k (CauchyCode.coefficient point k r) := by
  rw [encodeMatrixRow]
  split_ifs with hlt
  · have hset := set_row (m := k) (v := fun _ => 0) r 1
    rw [row_zero] at hset
    refine hset.trans (row_congr fun c _ => ?_)
    rw [Function.update_apply, CauchyCode.coefficient, if_pos hlt]
  · refine List.map_congr_left fun c hc => ?_
    have hc := List.mem_range.1 hc
    have hsub : (⟨.ofNat (r ^^^ c)⟩ : GF) = point r - point c := GF.ext (UInt8.ofNat_xor r c)
    grind [CauchyCode.coefficient, gfInv_eq, ofNat_xor_ne_zero]

theorem dataShard_eq (data : Bytes) (length i : ℕ) :
    dataShard data length i = row length (padded data length i) := by
  have hrun : ((data.drop (i * length)).take length).length ≤ length := List.length_take_le ..
  apply List.ext_getElem?
  intro c
  by_cases hc : c < length
  · rw [getElem?_row hc, dataShard, padded]
    by_cases hin : i * length + c < data.length
    · grind
    · -- The padding begins where the data ends.
      grind
  · rw [List.getElem?_eq_none, List.getElem?_eq_none (by simpa using hc)]
    grind [dataShard]

theorem foldl_xor (k : ℕ) (f : ℕ → GF) :
    (List.range k).foldl (fun accumulated c => accumulated ^^^ (f c).byte) 0 =
      (∑ c ∈ Finset.range k, f c).byte := by
  induction k with
  | zero => rfl
  | succ k ih => rw [List.range_succ, List.foldl_append, ih, Finset.sum_range_succ]; rfl

theorem parityByte_eq {r k length position : ℕ} (data : Bytes) (hr : r < 255)
    (hposition : position < length) :
    parityByte (encodeMatrixRow r k) (table k length (padded data length)) k position =
      (codeword data k length r position).byte := by
  rw [parityByte, encodeMatrixRow_eq hr, codeword, CauchyCode.symbol, ← foldl_xor]
  refine List.foldl_ext _ _ _ fun accumulated c hc => ?_
  have hc := List.mem_range.1 hc
  rw [getElem?_row hc, Option.getD_some, entry_table hc hposition, gfMul_eq]

theorem validateConfig_ok {k n : ℕ} (hk : 1 ≤ k) (hkn : k ≤ n) (hn : n ≤ 255) :
    validateConfig ⟨k, n⟩ = .ok () := by grind [validateConfig, gfMaxShards]

theorem range_eq_append {k n : ℕ} (h : k ≤ n) :
    List.range n = List.range k ++ List.range' k (n - k) := by
  have happend := List.range'_append_1 (s := 0) (m := k) (n := n - k)
  grind [List.range_eq_range']

/-- The first shards are the data shards. -/
theorem table_codeword {k n : ℕ} (h : k ≤ n) (data : Bytes) (length : ℕ) :
    table n length (codeword data k length) = table k length (padded data length) ++
      (List.range' k (n - k)).map fun r => row length (codeword data k length r) := by
  rw [table, table, range_eq_append h, List.map_append]
  grind [List.map_congr_left, row_congr, codeword, CauchyCode.symbol_of_lt]

/-- Each shard has the bytes of one symbol of the code. -/
theorem encodeShards_eq {k n : ℕ} (hk : 1 ≤ k) (hkn : k ≤ n) (hn : n ≤ 255) (data : Bytes) :
    encodeShards data ⟨k, n⟩ =
      .ok (table n (shardLength data.length k) (codeword data k (shardLength data.length k))) := by
  generalize hlength : shardLength data.length k = length
  have hdata : (List.range k).map (dataShard data length) = table k length (padded data length) :=
    List.map_congr_left fun i _ => dataShard_eq data length i
  simp only [encodeShards, validateConfig_ok hk hkn hn, hlength, hdata, table_codeword hkn]
  refine congrArg (fun parity => Except.ok (_ ++ parity)) (List.map_congr_left fun i hi => ?_)
  rw [List.mem_range'_1] at hi
  exact List.map_congr_left fun position hposition =>
    parityByte_eq data (by omega) (List.mem_range.1 hposition)

/-! ## Presented shards -/

section Presented

variable {data : Bytes} {k n length : ℕ} {indices : List ℕ}

/-- The index of a presented shard. -/
def indexAt (indices : List ℕ) (r : ℕ) : ℕ := indices[r]?.getD 0

theorem map_indices (h : indices.length = k) (m : ℕ) (rows : ℕ → ℕ → GF) :
    indices.map (fun i => row m (rows i)) = table k m fun r => rows (indexAt indices r) := by
  apply List.ext_getElem?
  intro r
  rw [List.getElem?_map]
  by_cases hr : r < k
  · grind [getElem?_table, indexAt]
  · rw [List.getElem?_eq_none (by omega), List.getElem?_eq_none (by simpa using hr),
      Option.map_none]

/-- The rows of the encode matrix for distinct indices are independent. -/
theorem nonsingular_indices (hkn : k ≤ n) (hn : n ≤ 255) (hlength : indices.length = k)
    (hnodup : indices.Nodup) (hlt : ∀ i ∈ indices, i < n) :
    GaussJordan.Nonsingular k fun r => CauchyCode.coefficient point k (indexAt indices r) := by
  have hget : ∀ r < k, indices[r]? = some (indexAt indices r) := by grind [indexAt]
  refine CauchyCode.nonsingular_coefficient (point_injOn hn) hkn ?_ fun r hr => ?_
  · intro r hr s hs heq
    grind [List.getElem?_inj]
  · exact hlt _ (List.mem_of_getElem? (hget r hr))

/-- Every data shard is there, if only data shards are, and as many as there are. -/
theorem mem_indices (hlength : indices.length = k) (hnodup : indices.Nodup)
    (hall : ∀ i ∈ indices, i < k) {i : ℕ} (hi : i < k) : i ∈ indices := by
  have hsub : indices.toFinset ⊆ Finset.range k := fun j hj =>
    Finset.mem_range.2 (hall j (List.mem_toFinset.1 hj))
  grind [List.toFinset_card_of_nodup, List.mem_toFinset, Finset.eq_of_subset_of_card_le]

theorem find?_indices {α : Type} {present : ℕ → α} {index : α → ℕ}
    (hindex : ∀ i, index (present i) = i) {i : ℕ} (hi : i ∈ indices) :
    (indices.map present).find? (index · = i) = some (present i) := by
  grind [Option.isSome_iff_exists, List.find?_isSome]

theorem all_indices {α : Type} {present : ℕ → α} {index : α → ℕ}
    (hindex : ∀ i, index (present i) = i) :
    (indices.map present).all (index · < k) = decide (∀ i ∈ indices, i < k) := by
  rw [Bool.eq_iff_iff, List.all_eq_true, decide_eq_true_iff, List.forall_mem_map]
  simp only [hindex, decide_eq_true_iff]

theorem find?_outside {α : Type} {present : ℕ → α} {index : α → ℕ}
    (hindex : ∀ i, index (present i) = i) (hlt : ∀ i ∈ indices, i < n) :
    (indices.map present).find? (index · ≥ n) = none := by grind

theorem getElem?_first {α : Type} (hk : 1 ≤ k) (hlength : indices.length = k) (f : ℕ → α) :
    (indices.map f)[0]? = some (f (indexAt indices 0)) := by grind [indexAt]

theorem length_le_capacity (hk : 1 ≤ k) : data.length ≤ k * shardLength data.length k := by
  have := Nat.div_add_mod (data.length + k - 1) k
  have := Nat.mod_lt (data.length + k - 1) hk
  rw [shardLength]
  omega

/-- The positions of the data are those of the shards. -/
theorem position_lt (hk : 1 ≤ k) {position : ℕ} (hposition : position < data.length) :
    position / shardLength data.length k < k ∧
      position % shardLength data.length k < shardLength data.length k := by
  have hcapacity := hposition.trans_le (length_le_capacity hk)
  have hpos : 0 < shardLength data.length k := by grind
  exact ⟨Nat.div_lt_of_lt_mul (by rwa [Nat.mul_comm]), Nat.mod_lt _ hpos⟩

theorem padded_position (position : ℕ) :
    (padded data length (position / length) (position % length)).byte =
      data[position]?.getD 0 := by
  rw [padded, Nat.div_add_mod']

theorem map_getElem?_getD : (List.range data.length).map (data[·]?.getD 0) = data := by
  refine List.ext_getElem (by simp) fun position _ h => ?_
  simp [h]

end Presented

/-! ## Decoding -/

section Decode

variable {data : Bytes} {k n : ℕ} {indices : List ℕ}

/-- The shard with an index. -/
def present (data : Bytes) (k i : ℕ) : PresentedShard :=
  ⟨i, row (shardLength data.length k) (codeword data k (shardLength data.length k) i)⟩

theorem passThrough_eq (hlength : indices.length = k) (hnodup : indices.Nodup)
    (hall : ∀ i ∈ indices, i < k) :
    passThrough (indices.map (present data k)) k =
      .ok (table k (shardLength data.length k) (padded data (shardLength data.length k))) := by
  refine mapM_ok fun i hi => ?_
  have hi := List.mem_range.1 hi
  rw [find?_indices (fun _ => rfl) (mem_indices hlength hnodup hall hi)]
  refine congrArg Except.ok (row_congr fun position _ => ?_)
  rw [codeword, CauchyCode.symbol_of_lt hi]

/-- A row is a combination of the shards. -/
theorem recoverRow_eq {inverse shards : ℕ → ℕ → GF} {chosen : List PresentedShard} {length : ℕ}
    (hchosen : chosen.map PresentedShard.data = table k length shards) {i : ℕ} (hi : i < k) :
    recoverRow (table k k inverse) chosen k length i =
      row length fun position => ∑ r ∈ Finset.range k, inverse i r * shards r position := by
  -- After some of the shards, the row is the combination of those.
  let combined (m : ℕ) : Bytes :=
    row length fun position => ∑ r ∈ Finset.range m, inverse i r * shards r position
  have hstart : combined 0 = List.replicate length 0 := row_zero length
  rw [recoverRow, ← hstart, hchosen]
  refine foldl_range combined fun m hm => ?_
  dsimp only
  rw [entry_table hi hm]
  split_ifs with hzero
  · refine row_congr fun position _ => ?_
    have hzero : inverse i m = 0 := GF.ext hzero
    rw [Finset.sum_range_succ, hzero, zero_mul, add_zero]
  · refine List.map_congr_left fun position hposition => ?_
    have hposition := List.mem_range.1 hposition
    rw [getElem?_row hposition, Option.getD_some, entry_table hm hposition, gfMul_eq]
    exact congrArg GF.byte (Finset.sum_range_succ _ m).symm

theorem stitch_eq (hk : 1 ≤ k) :
    stitch (table k (shardLength data.length k) (padded data (shardLength data.length k)))
      (shardLength data.length k) data.length = .ok data := by
  rw [stitch, mapM_ok (g := (data[·]?.getD 0)), map_getElem?_getD]
  grind [position_lt, getElem?_table, getElem?_row, padded_position]

/-- The submatrix of distinct shards has an inverse. -/
theorem exists_inverse_indices (hkn : k ≤ n) (hn : n ≤ 255) (hlength : indices.length = k)
    (hnodup : indices.Nodup) (hlt : ∀ i ∈ indices, i < n) :
    ∃ inverse, invertMatrix (indices.map (encodeMatrixRow · k)) = .ok (table k k inverse) ∧
      ∀ r < k, ∀ j < k, ∑ i ∈ Finset.range k,
        inverse r i * CauchyCode.coefficient point k (indexAt indices i) j =
          if r = j then 1 else 0 := by
  have hrows : indices.map (encodeMatrixRow · k) =
      indices.map fun i => row k (CauchyCode.coefficient point k i) :=
    List.map_congr_left fun i hi => encodeMatrixRow_eq (by have := hlt i hi; omega)
  rw [hrows, map_indices hlength]
  exact invertMatrix_table (nonsingular_indices hkn hn hlength hnodup hlt)

/-- The data shards are recovered from as many shards, whatever their indices are. -/
theorem recovered_eq {length : ℕ} {inverse : ℕ → ℕ → GF}
    (hinverse : ∀ r < k, ∀ j < k, ∑ i ∈ Finset.range k,
      inverse r i * CauchyCode.coefficient point k (indexAt indices i) j = if r = j then 1 else 0)
    {i : ℕ} (hi : i < k) :
    (row length fun position => ∑ r ∈ Finset.range k,
      inverse i r * codeword data k length (indexAt indices r) position) =
        row length (padded data length i) :=
  row_congr fun _ _ => GaussJordan.sum_inverse_mul hinverse _ hi

theorem decodeShards_present (hk : 1 ≤ k) (hkn : k ≤ n) (hn : n ≤ 255)
    (hlength : k ≤ indices.length) (hnodup : indices.Nodup) (hlt : ∀ i ∈ indices, i < n) :
    decodeShards (indices.map (present data k)) ⟨k, n⟩ data.length = .ok data := by
  have hinside : (indices.map (present data k)).find? (·.index ≥ n) = none :=
    find?_outside (fun _ => rfl) hlt
  have hmany : ¬(indices.map (present data k)).length < k := by simpa using hlength
  simp only [decodeShards, validateConfig_ok hk hkn hn, hinside, hmany, ← List.map_take, ok_bind,
    if_false]
  -- Only the first shards are used.
  have htake : (indices.take k).length = k := by simpa using hlength
  have hnodup := hnodup.sublist (List.take_sublist k indices)
  have hlt : ∀ i ∈ indices.take k, i < n := fun i hi => hlt i (List.mem_of_mem_take hi)
  generalize indices.take k = chosen at htake hnodup hlt
  have hfirst : (chosen.map (present data k)).head? = some (present data k (indexAt chosen 0)) := by
    rw [List.head?_eq_getElem?, getElem?_first hk htake]
  have hsize : (present data k (indexAt chosen 0)).data.length = shardLength data.length k :=
    length_row
  have hcapacity : ¬data.length > k * shardLength data.length k :=
    Nat.not_lt.2 (length_le_capacity hk)
  by_cases hall : ∀ i ∈ chosen, i < k
  · grind [present, ok_bind, passThrough_eq, stitch_eq]
  · have hdata : (chosen.map (present data k)).all (·.index < k) = false :=
      (all_indices fun _ => rfl).trans (decide_eq_false hall)
    obtain ⟨inverse, hok, hinverse⟩ := exists_inverse_indices hkn hn htake hnodup hlt
    have hsubmatrix : ((chosen.map (present data k)).map fun shard =>
        encodeMatrixRow shard.index k) = chosen.map (encodeMatrixRow · k) := List.map_map
    have hchosen : (chosen.map (present data k)).map PresentedShard.data =
        table k (shardLength data.length k) fun r =>
          codeword data k (shardLength data.length k) (indexAt chosen r) :=
      List.map_map.trans (map_indices htake ..)
    have hrecovered : (List.range k).map (recoverRow (table k k inverse)
        (chosen.map (present data k)) k (shardLength data.length k)) =
          table k (shardLength data.length k) (padded data (shardLength data.length k)) := by
      refine List.map_congr_left fun i hi => ?_
      have hi := List.mem_range.1 hi
      rw [recoverRow_eq hchosen hi, recovered_eq hinverse hi]
    simp only [hfirst, hdata, Bool.false_eq_true, if_false, hsubmatrix, hok, ok_bind, pure_bind,
      hsize, hrecovered, hcapacity, stitch_eq hk]

/-- What the shards are. -/
theorem eq_present (hk : 1 ≤ k) (hkn : k ≤ n) (hn : n ≤ 255) {shards : List Bytes}
    (hencode : encodeShards data ⟨k, n⟩ = .ok shards) {i : ℕ} {bytes : Bytes}
    (h : shards[i]? = some bytes) : i < n ∧ bytes = (present data k i).data := by
  obtain rfl := Except.ok.inj ((encodeShards_eq hk hkn hn data).symm.trans hencode)
  have hi : i < n := by simpa using (List.getElem?_eq_some_iff.1 h).1
  rw [getElem?_table hi] at h
  exact ⟨hi, (Option.some.inj h).symm⟩

theorem decodeShards_of_encodeShards (hk : 1 ≤ k) (hkn : k ≤ n) (hn : n ≤ 255)
    {shards : List Bytes} (hencode : encodeShards data ⟨k, n⟩ = .ok shards)
    {presented : List (ℕ × Bytes)} (hmany : k ≤ presented.length)
    (hnodup : (presented.map Prod.fst).Nodup)
    (htaken : ∀ shard ∈ presented, shards[shard.1]? = some shard.2) :
    decodeShards (presented.map fun shard => ⟨shard.1, shard.2⟩) ⟨k, n⟩ data.length = .ok data := by
  have hpresent : presented.map (fun shard => (⟨shard.1, shard.2⟩ : PresentedShard)) =
      (presented.map Prod.fst).map (present data k) := by
    rw [List.map_map]
    exact List.map_congr_left fun shard hshard => congrArg (PresentedShard.mk shard.1)
      (eq_present hk hkn hn hencode (htaken shard hshard)).2
  rw [hpresent]
  refine decodeShards_present hk hkn hn (by simpa using hmany) hnodup ?_
  rw [List.forall_mem_map]
  exact fun shard hshard => (eq_present hk hkn hn hencode (htaken shard hshard)).1

end Decode

end WireMesh
