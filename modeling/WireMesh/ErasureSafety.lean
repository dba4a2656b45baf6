import WireMesh.ErasurePort

/-!
# What decoding shards in Rust takes

`decode_shards` indexes what its peers send. All accesses but those to the bytes of the shards are
within their bounds, whatever is presented: a matrix that cannot be inverted is refused. A shard
that is shorter than the first one is indexed past its end, if its missing bytes are used.

* `Safe`: no panic, and what holds of the result.
* `Overruns`: the missing bytes of a shard are used, which only needs to look at the indices and the
  lengths. To rebuild a data shard, all bytes of all shards are: no column of the inverse is zero.
* `decode_never_panics`: this is when there is a panic.
* `decode_panics`: two shards of different lengths.
-/

namespace WireMesh.Rust.ErasureCoding

/-! ## Programs that do not panic -/

section Safe

variable {α β : Type}

/-- There is no panic, and what is returned is as it should be. -/
def Safe (x : Except Failure α) (post : α → Prop) : Prop :=
  x ≠ .error .panicked ∧ ∀ a, x = .ok a → post a

theorem safe_ok {a : α} {post : α → Prop} (h : post a) : Safe (.ok a) post :=
  ⟨by simp, fun _ heq => Except.ok.inj heq ▸ h⟩

theorem safe_error (error : ErasureError) {post : α → Prop} :
    Safe (.error (.erasureError error)) post := ⟨by simp, by simp⟩

theorem Safe.bind {x : Except Failure α} {f : α → Except Failure β} {post : α → Prop}
    {post' : β → Prop} (hx : Safe x post) (hf : ∀ a, post a → Safe (f a) post') :
    Safe (x >>= f) post' := by
  cases x with
  | error e => exact ⟨fun h => hx.1 (by cases h; rfl), fun a h => by cases h⟩
  | ok a => exact hf a (hx.2 a rfl)

theorem safe_mapM {l : List α} {f : α → Except Failure β} {post : β → Prop}
    (h : ∀ a ∈ l, Safe (f a) post) :
    Safe (l.mapM f) fun r => r.length = l.length ∧ ∀ b ∈ r, post b := by
  induction l with
  | nil => exact safe_ok ⟨rfl, by simp⟩
  | cons a l ih =>
    rw [List.mapM_cons]
    refine (h a (by simp)).bind fun b hb => ?_
    refine (ih fun a ha => h a (by simp [ha])).bind fun r hr => safe_ok ?_
    exact ⟨by simp [hr.1], by simpa [hb] using hr.2⟩

theorem safe_foldlM {l : List α} {f : β → α → Except Failure β} {b : β} {inv : β → Prop}
    (hb : inv b) (h : ∀ b, inv b → ∀ a ∈ l, Safe (f b a) inv) : Safe (l.foldlM f b) inv := by
  induction l generalizing b with
  | nil => exact safe_ok hb
  | cons a l ih =>
    rw [List.foldlM_cons]
    exact (h b hb a (by simp)).bind fun b hb => ih hb fun b hb a ha => h b hb a (by simp [ha])

theorem safe_index {v : List α} {i : ℕ} (h : i < v.length) : Safe (index v i) (· ∈ v) := by
  rw [index_eq (List.getElem?_eq_getElem h)]
  exact safe_ok (List.getElem_mem h)

/-- A computation in which nothing is refused. -/
def OnlyPanics (x : Except Failure α) : Prop := ∀ e, x = .error e → e = .panicked

theorem onlyPanics_ok (a : α) : OnlyPanics (.ok a) := fun _ h => by cases h

theorem onlyPanics_index (v : List α) (i : ℕ) : OnlyPanics (index v i) := by
  intro e h
  rw [index] at h
  split at h
  · cases h
  · exact (Except.error.inj h).symm

theorem OnlyPanics.bind {x : Except Failure α} {f : α → Except Failure β} (hx : OnlyPanics x)
    (hf : ∀ a, OnlyPanics (f a)) : OnlyPanics (x >>= f) := by
  cases x with
  | error e => exact fun e' h => hx e' (by cases h; rfl)
  | ok a => exact hf a

theorem onlyPanics_mapM {l : List α} {f : α → Except Failure β} (h : ∀ a, OnlyPanics (f a)) :
    OnlyPanics (l.mapM f) := by
  induction l with
  | nil => exact onlyPanics_ok []
  | cons a l ih =>
    rw [List.mapM_cons]
    exact (h a).bind fun b => ih.bind fun r => onlyPanics_ok (b :: r)

theorem onlyPanics_foldlM {l : List α} {f : β → α → Except Failure β} {b : β}
    (h : ∀ b a, OnlyPanics (f b a)) : OnlyPanics (l.foldlM f b) := by
  induction l generalizing b with
  | nil => exact onlyPanics_ok b
  | cons a l ih =>
    rw [List.foldlM_cons]
    exact (h b a).bind fun _ => ih

theorem OnlyPanics.mapM_panics {l : List α} {f : α → Except Failure β} (h : ∀ a, OnlyPanics (f a))
    {a : α} (ha : a ∈ l) (hpanic : f a = .error .panicked) : l.mapM f = .error .panicked := by
  cases hmapM : l.mapM f with
  | error e => rw [onlyPanics_mapM h e hmapM]
  | ok r =>
    obtain ⟨b, hb⟩ := exists_ok_of_mapM hmapM ha
    cases hb.symm.trans hpanic

theorem OnlyPanics.foldlM_panics {l : List α} {f : β → α → Except Failure β} {b : β}
    (inv : β → Prop) (honly : ∀ b a, OnlyPanics (f b a)) (hb : inv b)
    (h : ∀ b, inv b → ∀ a b', f b a = .ok b' → inv b') {a : α} (ha : a ∈ l)
    (hpanic : ∀ b, inv b → f b a = .error .panicked) : l.foldlM f b = .error .panicked := by
  induction l generalizing b with
  | nil => cases ha
  | cons a' l ih =>
    rw [List.foldlM_cons]
    cases hstep : f b a' with
    | error e =>
      rw [honly b a' e hstep]
      rfl
    | ok b' =>
      rcases List.mem_cons.1 ha with rfl | ha
      · cases hstep.symm.trans (hpanic b hb)
      · exact ih (h b hb a' b' hstep) ha

end Safe

/-! ## Decoding -/

section Decode

variable {chosen : List PresentedShard} {length k : ℕ}

theorem find?_index (hnodup : (chosen.map (·.index)).Nodup) {shard : PresentedShard}
    (hshard : shard ∈ chosen) : chosen.find? (·.index = shard.index) = some shard := by
  have hsome : (chosen.find? (·.index = shard.index)).isSome :=
    List.find?_isSome.2 ⟨shard, hshard, decide_eq_true rfl⟩
  obtain ⟨found, hfound⟩ := Option.isSome_iff_exists.1 hsome
  have hindex := List.find?_some hfound
  rw [hfound, List.inj_on_of_nodup_map hnodup (List.mem_of_find?_eq_some hfound) hshard
    (of_decide_eq_true hindex)]

/-- The data shards are all there, if no index is there twice. -/
theorem passThrough_of_nodup (hlength : chosen.length = k)
    (hall : ∀ shard ∈ chosen, shard.index < k) (hnodup : (chosen.map (·.index)).Nodup) :
    ∃ recovered, passThrough chosen k = .ok recovered ∧ recovered.length = k ∧
      ∀ shard ∈ chosen, recovered[shard.index]? = some shard.data := by
  let recovered (i : ℕ) : Bytes := (chosen.find? (·.index = i)).elim [] (·.data)
  refine ⟨(List.range k).map recovered, mapM_ok fun i hi => ?_, by simp, fun shard hshard => ?_⟩
  · have hmem := mem_indices (by simpa using hlength) hnodup (by simpa using hall)
      (List.mem_range.1 hi)
    obtain ⟨shard, hshard, rfl⟩ := List.mem_map.1 hmem
    simp [recovered, find?_index hnodup hshard]
  · simp [recovered, hall shard hshard, find?_index hnodup hshard]

/-- Otherwise one is missing, since there are only as many shards as indices. -/
theorem nodup_of_passThrough (hlength : chosen.length = k) {recovered : List Bytes}
    (h : passThrough chosen k = .ok recovered) : (chosen.map (·.index)).Nodup := by
  have hsubset : List.range k ⊆ chosen.map (·.index) := by
    intro i hi
    obtain ⟨_, hdata⟩ := exists_ok_of_mapM h hi
    split at hdata
    · next found hfound =>
      have hindex := List.find?_some hfound
      exact List.mem_map.2 ⟨found, List.mem_of_find?_eq_some hfound, of_decide_eq_true hindex⟩
    · cases hdata
  have hperm := (List.nodup_range.subperm hsubset).perm_of_length_le (by simp [hlength])
  exact hperm.nodup_iff.1 List.nodup_range

theorem passThrough_ne_panicked : passThrough chosen k ≠ .error .panicked := by
  refine (safe_mapM fun i _ => (?_ : Safe _ fun _ => True)).1
  split
  · exact safe_ok trivial
  · exact safe_error _

theorem safe_recoverRow (hlong : ∀ shard ∈ chosen, length ≤ shard.data.length)
    {inverseRow : List UInt8} (hrow : inverseRow.length ≤ chosen.length) :
    Safe (recoverRow chosen length inverseRow) (·.length = length) := by
  refine safe_foldlM (by simp) fun row hlength indexed hindexed => ?_
  rw [recoverStep]
  split_ifs
  · exact safe_ok hlength
  have hlt : indexed.2 < chosen.length := by
    have := List.snd_lt_add_of_mem_zipIdx hindexed
    omega
  refine (safe_index hlt).bind fun source hsource => ?_
  have h : Safe (row.zipIdx.mapM fun slot => do
      let contribution ← gfMul indexed.1 (← ErasureCoding.index source.data slot.2)
      return slot.1 ^^^ contribution) fun r => r.length = row.zipIdx.length ∧ ∀ b ∈ r, True := by
    refine safe_mapM fun slot hslot => ?_
    have hposition := List.snd_lt_add_of_mem_zipIdx hslot
    have hbound := hlong source hsource
    refine (safe_index (by omega)).bind fun byte _ => ?_
    rw [port_gfMul]
    exact safe_ok trivial
  exact ⟨h.1, fun r hr => (h.2 r hr).1.trans (List.length_zipIdx.trans hlength)⟩

theorem onlyPanics_contribution (factor : UInt8) (source : Bytes) (slot : UInt8 × ℕ) :
    OnlyPanics (do
      let contribution ← gfMul factor (← ErasureCoding.index source slot.2)
      return slot.1 ^^^ contribution) := by
  refine (onlyPanics_index _ _).bind fun byte => ?_
  rw [port_gfMul]
  exact onlyPanics_ok _

theorem onlyPanics_recoverStep (row : Bytes) (indexed : UInt8 × ℕ) :
    OnlyPanics (recoverStep chosen row indexed) := by
  rw [recoverStep]
  split_ifs
  · exact onlyPanics_ok row
  · exact (onlyPanics_index _ _).bind fun source =>
      onlyPanics_mapM fun slot => onlyPanics_contribution indexed.1 source.data slot

/-- A row of the inverse that uses a shard uses as many bytes of it as the first one has. -/
theorem recoverRow_panics {inverseRow : List UInt8} {i : ℕ} {factor : UInt8}
    (hfactor : inverseRow[i]? = some factor) (hne : factor ≠ 0) {shard : PresentedShard}
    (hshard : chosen[i]? = some shard) (hshort : shard.data.length < length) :
    recoverRow chosen length inverseRow = .error .panicked := by
  refine OnlyPanics.foldlM_panics (·.length = length) onlyPanics_recoverStep
    List.length_replicate (fun row hrow indexed row' hok => ?_)
    (List.mk_mem_zipIdx_iff_getElem?.2 hfactor) fun row hrow => ?_
  · rw [recoverStep] at hok
    split_ifs at hok
    · exact Except.ok.inj hok ▸ hrow
    · obtain ⟨source, -, hslots⟩ := of_bind_eq_ok hok
      rw [← (forall₂_of_mapM hslots).length_eq, List.length_zipIdx, hrow]
  · rw [recoverStep, if_neg hne, index_eq hshard, ok_bind]
    have hslot : row[shard.data.length]? = some row[shard.data.length] :=
      List.getElem?_eq_getElem (hshort.trans_eq hrow.symm)
    refine OnlyPanics.mapM_panics (fun slot => onlyPanics_contribution factor shard.data slot)
      (List.mk_mem_zipIdx_iff_getElem?.2 hslot) ?_
    rw [ErasureCoding.index, List.getElem?_eq_none le_rfl]
    rfl

theorem shard_of_position {position originalLength : ℕ} (hposition : position < originalLength)
    (hcapacity : originalLength ≤ k * length) : 0 < length ∧ position / length < k := by
  have hlt : position < k * length := hposition.trans_le hcapacity
  have hpos : 0 < length := Nat.pos_of_ne_zero fun h => by simp [h] at hlt
  exact ⟨hpos, (Nat.div_lt_iff_lt_mul hpos).2 hlt⟩

theorem safe_stitch {recovered : List Bytes} {originalLength : ℕ} (hlength : recovered.length = k)
    (hcapacity : originalLength ≤ k * length)
    (hlong : ∀ position < originalLength, ∀ b, recovered[position / length]? = some b →
      position % length < b.length) :
    Safe (stitch recovered length originalLength) fun _ => True := by
  refine ⟨(safe_mapM fun position hposition => (?_ : Safe _ fun _ => True)).1, fun _ _ => trivial⟩
  have hposition := List.mem_range.1 hposition
  obtain ⟨hpos, hshard⟩ := shard_of_position hposition hcapacity
  have hget := List.getElem?_eq_getElem (hshard.trans_eq hlength.symm)
  rw [if_neg hpos.ne', index_eq hget]
  exact ⟨(safe_index (hlong position hposition _ hget)).1, fun _ _ => trivial⟩

theorem stitch_panics {recovered : List Bytes} {originalLength position : ℕ}
    (hposition : position < originalLength) {b : Bytes}
    (hget : recovered[position / length]? = some b) (hshort : b.length ≤ position % length) :
    stitch recovered length originalLength = .error .panicked := by
  refine OnlyPanics.mapM_panics (fun position => ?_) (List.mem_range.2 hposition) ?_
  · split_ifs
    · exact fun e h => (Except.error.inj h).symm
    · exact (onlyPanics_index _ _).bind fun b => onlyPanics_index b _
  · split_ifs
    · rfl
    · dsimp only
      rw [index_eq hget, ok_bind, ErasureCoding.index, List.getElem?_eq_none hshort]

theorem validateConfig_cases (config : ShardConfig) :
    (∃ error, validateConfig config = .error (.erasureError error)) ∧
      ¬(1 ≤ config.dataShards ∧ config.dataShards ≤ config.totalShards ∧
        config.totalShards ≤ 255) ∨
    validateConfig config = .ok () ∧ 1 ≤ config.dataShards ∧
      config.dataShards ≤ config.totalShards ∧ config.totalShards ≤ 255 := by
  rw [validateConfig]
  grind [gfMaxShards]

/-- The rows of the chosen shards in the encode matrix. -/
theorem submatrix_eq (hlength : chosen.length = k) (hindex : ∀ shard ∈ chosen, shard.index < 255) :
    (chosen.mapM fun shard => encodeMatrixRow shard.index k) =
      .ok (table k k fun r => CauchyCode.coefficient point k
        (indexAt (chosen.map (·.index)) r)) := by
  have hrows := mapM_ok (l := chosen.map (·.index)) (f := (encodeMatrixRow · k))
    (g := fun i => row k (CauchyCode.coefficient point k i))
    (by simpa using fun shard hshard => port_encodeMatrixRow (hindex shard hshard))
  rw [List.mapM_map] at hrows
  rw [← map_indices (by simpa using hlength)]
  exact hrows

section Inverse

variable {inverse : ℕ → ℕ → GF} {indices : List ℕ}
  (hinverse : ∀ r < k, ∀ j < k, ∑ i ∈ Finset.range k,
    inverse r i * CauchyCode.coefficient point k (indexAt indices i) j = if r = j then 1 else 0)
include hinverse

/-- Equal rows cannot be inverted. -/
theorem nodup_of_inverse (hlength : indices.length = k) : indices.Nodup := by
  rw [List.nodup_iff_injective_get]
  rintro ⟨r, hr⟩ ⟨s, hs⟩ heq
  by_contra hne
  have hmul := GaussJordan.mul_inverse hinverse
  have hrow := hmul r (by omega) r (by omega)
  have hsame : indexAt indices r = indexAt indices s := by
    rw [indexAt, indexAt, List.getElem?_eq_getElem hr, List.getElem?_eq_getElem hs]
    exact congrArg (Option.getD · 0) (congrArg some heq)
  rw [hsame, hmul s (by omega) r (by omega), if_neg (fun h => hne (Fin.ext h.symm)), if_pos rfl]
    at hrow
  exact zero_ne_one hrow

/-- Every shard is used by a row of the inverse. -/
theorem exists_inverse_ne_zero {i : ℕ} (hi : i < k) : ∃ r < k, inverse r i ≠ 0 := by
  by_contra hzero
  push Not at hzero
  have hrow := GaussJordan.mul_inverse hinverse i hi i hi
  rw [Finset.sum_eq_zero fun r hr => by rw [hzero r (Finset.mem_range.1 hr), mul_zero],
    if_pos rfl] at hrow
  exact zero_ne_one hrow

end Inverse

/-- What is recovered is put together, unless it would have to be longer. -/
def finish (k length originalLength : ℕ) (recovered : List Bytes) : Except Failure Bytes := do
  if originalLength > k * length then
    throw (.erasureError (.lengthExceedsCapacity originalLength (k * length)))
  stitch recovered length originalLength

theorem finish_eq {originalLength : ℕ} {recovered : List Bytes}
    (h : originalLength ≤ k * length) :
    finish k length originalLength recovered = stitch recovered length originalLength := by
  rw [finish, if_neg h.not_gt]

theorem finish_of_exceeds {originalLength : ℕ} {recovered : List Bytes}
    (h : ¬originalLength ≤ k * length) :
    finish k length originalLength recovered =
      .error (.erasureError (.lengthExceedsCapacity originalLength (k * length))) := by
  rw [finish, if_pos (not_le.1 h)]
  rfl

/-- Without parity shards, only the bytes of the result are read. -/
theorem passThrough_panics_iff {originalLength : ℕ} (hlength : chosen.length = k)
    (hall : ∀ shard ∈ chosen, shard.index < k) :
    (passThrough chosen k >>= finish k length originalLength) = .error .panicked ↔
      (chosen.map (·.index)).Nodup ∧ ∃ shard ∈ chosen, shard.data.length < length ∧
        originalLength ≤ k * length ∧
        shard.index * length + shard.data.length < originalLength := by
  by_cases hnodup : (chosen.map (·.index)).Nodup
  swap
  · refine iff_of_false (fun hpanic => ?_) fun h => hnodup h.1
    cases hpass : passThrough chosen k with
    | ok r => exact hnodup (nodup_of_passThrough hlength hpass)
    | error e =>
      rw [hpass] at hpanic
      exact passThrough_ne_panicked (hpass.trans (by cases hpanic; rfl))
  obtain ⟨r, hok, hr, hdata⟩ := passThrough_of_nodup hlength hall hnodup
  rw [hok, ok_bind]
  by_cases hcapacity : originalLength ≤ k * length
  · rw [finish_eq hcapacity]
    constructor
    · intro hpanic
      refine ⟨hnodup, ?_⟩
      by_contra hnone
      push Not at hnone
      refine (safe_stitch hr hcapacity fun position hposition b hget => ?_).1 hpanic
      obtain ⟨hpos, hlt⟩ := shard_of_position hposition hcapacity
      have hmem := mem_indices (by simpa using hlength) hnodup (by simpa using hall) hlt
      obtain ⟨shard, hshard, hindex⟩ := List.mem_map.1 hmem
      rw [← hindex, hdata shard hshard, Option.some.injEq] at hget
      subst hget
      -- Otherwise it would be a byte that the shard lacks.
      by_contra hover
      have hmod := Nat.mod_lt position hpos
      have hread := hnone shard hshard (by omega) hcapacity
      have hdivide := Nat.div_add_mod' position length
      rw [← hindex] at hdivide
      omega
    · rintro ⟨-, shard, hshard, hshort, -, hread⟩
      refine stitch_panics hread (b := shard.data) ?_ ?_
      · rw [Nat.add_comm, Nat.add_mul_div_right _ _ (by omega), Nat.div_eq_of_lt hshort, zero_add]
        exact hdata shard hshard
      · rw [Nat.add_comm, Nat.add_mul_mod_self_right, Nat.mod_eq_of_lt hshort]
  · rw [finish_of_exceeds hcapacity]
    refine ⟨fun h => (by cases h), ?_⟩
    rintro ⟨-, shard, -, -, hle, -⟩
    exact absurd hle hcapacity

theorem safe_rebuild {inverse : List (List UInt8)} {originalLength : ℕ}
    (hlength : inverse.length = k)
    (hrows : ∀ inverseRow ∈ inverse, inverseRow.length ≤ chosen.length)
    (hlong : ∀ shard ∈ chosen, length ≤ shard.data.length) :
    Safe (inverse.mapM (recoverRow chosen length) >>= finish k length originalLength)
      fun _ => True := by
  refine (safe_mapM fun row hrow => safe_recoverRow hlong (hrows row hrow)).bind fun r hr => ?_
  by_cases hcapacity : originalLength ≤ k * length
  · rw [finish_eq hcapacity]
    refine safe_stitch (hr.1.trans hlength) hcapacity fun position hposition b hget => ?_
    rw [hr.2 b (List.mem_of_getElem? hget)]
    exact Nat.mod_lt _ (shard_of_position hposition hcapacity).1
  · rw [finish_of_exceeds hcapacity]
    exact safe_error _

/-- To rebuild data shards, all bytes of all shards are read. -/
theorem rebuild_panics_iff {n originalLength : ℕ} (hkn : k ≤ n) (hn : n ≤ 255)
    (hlength : chosen.length = k) (hindex : ∀ shard ∈ chosen, shard.index < n) :
    (do
      let submatrix ← chosen.mapM fun shard : PresentedShard => encodeMatrixRow shard.index k
      let inverse ← invertMatrix submatrix
      let recovered ← (inverse.take k).mapM (recoverRow chosen length)
      finish k length originalLength recovered) = .error .panicked ↔
      (chosen.map (·.index)).Nodup ∧ ∃ shard ∈ chosen, shard.data.length < length := by
  have hindices : (chosen.map (·.index)).length = k := by simpa using hlength
  rw [submatrix_eq hlength fun shard hshard => (hindex shard hshard).trans_le hn, ok_bind]
  rw [port_invertMatrix_eq]
  cases heliminate : GaussJordan.eliminate k (GaussJordan.augment k fun r =>
      CauchyCode.coefficient point k (indexAt (chosen.map (·.index)) r)) with
  | none =>
    -- Distinct rows can be inverted.
    refine ⟨fun h => (by cases h), fun h => ?_⟩
    obtain ⟨rows, hrows, -⟩ := GaussJordan.exists_inverse
      (nonsingular_indices hkn hn hindices h.1 (by simpa using hindex))
    cases hrows.symm.trans heliminate
  | some rows =>
  have hinverse := GaussJordan.inverse_of_eliminate heliminate
  rw [Option.elim_some, ok_bind, List.take_of_length_le length_table.le]
  have hnodup := nodup_of_inverse hinverse hindices
  constructor
  · intro hpanic
    refine ⟨hnodup, ?_⟩
    by_contra hnone
    push Not at hnone
    refine (safe_rebuild length_table (fun inverseRow hrow => ?_) hnone).1 hpanic
    obtain ⟨i, -, rfl⟩ := List.mem_map.1 hrow
    rw [length_row, hlength]
  · rintro ⟨-, shard, hshard, hshort⟩
    obtain ⟨i, hi⟩ := List.getElem?_of_mem hshard
    have hlt : i < k := hlength ▸ (List.getElem?_eq_some_iff.1 hi).1
    -- Some row of the inverse uses the short shard.
    obtain ⟨r, hr, hne⟩ := exists_inverse_ne_zero hinverse hlt
    have hrow : recoverRow chosen length (row k fun c => rows r (k + c)) = .error .panicked :=
      recoverRow_panics (getElem?_row hlt) (GF.byte_ne_zero.2 hne) hi hshort
    have hused : (row k fun c => rows r (k + c)) ∈ table k k fun r c => rows r (k + c) :=
      List.mem_map.2 ⟨r, List.mem_range.2 hr, rfl⟩
    have honly (inverseRow : List UInt8) : OnlyPanics (recoverRow chosen length inverseRow) :=
      onlyPanics_foldlM onlyPanics_recoverStep
    rw [OnlyPanics.mapM_panics honly hused hrow]
    rfl

end Decode

/-- A shard among those that are used is shorter than the first, and bytes that it does not have
    are read: for a data shard to be rebuilt, or for the result. -/
def Overruns (presented : List PresentedShard) (config : ShardConfig) (originalLength : ℕ) : Prop :=
  (1 ≤ config.dataShards ∧ config.dataShards ≤ config.totalShards ∧ config.totalShards ≤ 255) ∧
  (∀ shard ∈ presented, shard.index < config.totalShards) ∧
  config.dataShards ≤ presented.length ∧
  ((presented.take config.dataShards).map (·.index)).Nodup ∧
  ∃ first ∈ presented.head?, ∃ shard ∈ presented.take config.dataShards,
    shard.data.length < first.data.length ∧
      ((∃ other ∈ presented.take config.dataShards, config.dataShards ≤ other.index) ∨
        originalLength ≤ config.dataShards * first.data.length ∧
        shard.index * first.data.length + shard.data.length < originalLength)

/-- Decoding does not panic if and only if no bytes that a shard does not have are read. -/
theorem decode_never_panics (presented : List PresentedShard) (config : ShardConfig)
    (originalLength : ℕ) :
    decodeShards presented config originalLength ≠ .error .panicked ↔
      ¬Overruns presented config originalLength := by
  rw [ne_eq, not_iff_not, decodeShards]
  rcases validateConfig_cases config with ⟨⟨error, hinvalid⟩, hconfig⟩ | ⟨hvalid, hconfig⟩
  · rw [hinvalid]
    exact ⟨fun h => (by cases h), fun h => absurd h.1 hconfig⟩
  rw [hvalid, ok_bind]
  obtain ⟨hk, hkn, hn⟩ := hconfig
  cases hfind : presented.find? (·.index ≥ config.totalShards) with
  | some outside =>
    have houtside := List.find?_some hfind
    refine ⟨fun h => (by cases h), fun h => ?_⟩
    exact absurd (h.2.1 outside (List.mem_of_find?_eq_some hfind)) (by simpa using houtside)
  | none =>
  have hindex : ∀ shard ∈ presented, shard.index < config.totalShards := by
    simpa using hfind
  by_cases hfew : presented.length < config.dataShards
  · simp only [hfew, if_true]
    exact ⟨fun h => (by cases h), fun h => absurd h.2.2.1 (by omega)⟩
  simp only [hfew, if_false]
  have hslice : slice presented 0 config.dataShards = .ok (presented.take config.dataShards) := by
    grind [slice]
  rw [hslice, ok_bind]
  have hlength : (presented.take config.dataShards).length = config.dataShards := by grind
  obtain ⟨first, rest, rfl⟩ := List.exists_cons_of_ne_nil
    (List.ne_nil_of_length_pos (by omega : 0 < presented.length))
  have hfirst : ((first :: rest).take config.dataShards)[0]? = some first := by
    rw [List.getElem?_take_of_lt (by omega)]
    rfl
  have htaken : ∀ shard ∈ (first :: rest).take config.dataShards,
      shard.index < config.totalShards :=
    fun shard hshard => hindex shard (List.mem_of_mem_take hshard)
  simp only [index_eq hfirst, ok_bind, Overruns, List.head?_cons, Option.mem_some_iff,
    exists_eq_left']
  by_cases hall : ((first :: rest).take config.dataShards).all (·.index < config.dataShards)
  · rw [if_pos hall]
    change (passThrough _ _ >>= finish config.dataShards first.data.length originalLength) = _ ↔ _
    rw [passThrough_panics_iff hlength (by simpa using hall)]
    grind
  · rw [if_neg hall]
    refine Iff.trans (rebuild_panics_iff hkn hn hlength htaken) ?_
    grind

/-- The second shard is shorter than the first. -/
theorem decode_panics : decodeShards [⟨0, [1, 2]⟩, ⟨1, [3]⟩] ⟨2, 3⟩ 4 = .error .panicked := by
  decide +kernel

end WireMesh.Rust.ErasureCoding
