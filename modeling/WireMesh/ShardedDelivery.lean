import WireMesh.Machine
import WireMesh.Reconstruction
import WireMesh.TypeScript.ShardCollector

/-!
# Sharded delivery

A payload that is split, and whose shards are collected, comes back. The entry of the manifest is
read as the manifest (`decodeShardManifest_encode`), and a collector resolves with the payload when
as many shards as the threshold have been read back, and not before (`sharded_delivery`).

What is read back is what the transfer carries: the storage keeps the chunks of a transfer that has
completed while they are read (`Faithful`). Each read may find its shard cut into chunks in another
way.
-/

namespace WireMesh.TypeScript

open ShardManifest ErasureCoding Machine

/-! ## Manifests -/

namespace ShardManifest

theorem decodeLocation_toValue (location : ShardLocation) :
    decodeLocation location.toValue = .ok location := rfl

variable {cbor : Cbor2} {manifest : Manifest}

/-- What is encoded is decoded again, if the library does so. -/
theorem decodeShardManifest_encode (hvalid : validateManifest manifest = .ok ())
    (hcbor : cbor.decode (cbor.encode manifest.toValue) = .ok manifest.toValue) :
    decodeShardManifest cbor (cbor.encode manifest.toValue) = .ok manifest := by
  have hlocations : (manifest.shards.map ShardLocation.toValue).mapM decodeLocation =
      .ok manifest.shards := by
    rw [List.mapM_map, mapM_ok (g := id), List.map_id]
    exact fun location _ => decodeLocation_toValue location
  rw [decodeShardManifest, hcbor, ok_bind]
  change ((manifest.shards.map ShardLocation.toValue).mapM decodeLocation >>=
    fun locations => _) = _
  rw [hlocations, ok_bind]
  change (validateManifest manifest >>= fun _ => pure manifest) = _
  rw [hvalid, ok_bind]
  rfl

/-! ## Splitting -/

/-- The delivery is one of the payload. -/
@[grind cases]
structure Delivers (payload : Bytes) (delivery : ShardedDelivery) : Prop where
  one_le : 1 ≤ delivery.manifest.threshold
  le_total : delivery.manifest.threshold ≤ delivery.manifest.totalShards
  total_le : delivery.manifest.totalShards ≤ 255
  originalLength : delivery.manifest.originalLength = payload.length
  shards : encodeShards payload ⟨delivery.manifest.threshold, delivery.manifest.totalShards⟩ =
    .ok delivery.shards

theorem validateConfig_eq_ok {config : ShardConfig} (h : validateConfig config = .ok ()) :
    1 ≤ config.dataShards ∧ config.dataShards ≤ config.totalShards ∧ config.totalShards ≤ 255 := by
  simp only [validateConfig] at h
  split_ifs at h with hdata htotal hmax
  exact ⟨Nat.not_lt.1 hdata, Nat.not_lt.1 htotal, Nat.not_lt.1 hmax⟩

variable {payload : Bytes} {options : SplitOptions} {delivery : ShardedDelivery}

theorem split_spec (h : splitForShardedDelivery cbor payload options = .ok delivery) :
    Delivers payload delivery ∧ delivery.manifest.threshold = options.config.dataShards ∧
      validateManifest delivery.manifest = .ok () ∧
        delivery.manifestEntry = cbor.encode delivery.manifest.toValue := by
  rw [splitForShardedDelivery] at h
  split_ifs at h
  · cases h
  dsimp only at h
  obtain ⟨shards, hshards, h⟩ := of_bind_eq_ok h
  obtain ⟨locations, -, h⟩ := of_bind_eq_ok h
  obtain ⟨⟨⟩, hvalid, h⟩ := of_bind_eq_ok h
  obtain ⟨entry, hentry, h⟩ := of_bind_eq_ok h
  obtain ⟨-, -, hentry⟩ := of_bind_eq_ok hentry
  obtain rfl := Except.ok.inj h
  obtain ⟨hone, hle, htotal⟩ : 1 ≤ options.config.dataShards ∧
      options.config.dataShards ≤ options.config.totalShards ∧
        options.config.totalShards ≤ 255 := by
    obtain ⟨⟨⟩, hconfig, -⟩ := of_bind_eq_ok hshards
    exact validateConfig_eq_ok hconfig
  exact ⟨⟨hone, hle, htotal, rfl, hshards⟩, rfl, hvalid, (Except.ok.inj hentry).symm⟩

/-- A payload is split, if there are as many targets as shards. -/
theorem exists_split (payload : Bytes) (options : SplitOptions)
    (hone : 1 ≤ options.config.dataShards)
    (hle : options.config.dataShards ≤ options.config.totalShards)
    (htotal : options.config.totalShards ≤ 255)
    (htargets : options.config.totalShards ≤ options.targets.length) :
    ∃ delivery, splitForShardedDelivery cbor payload options = .ok delivery := by
  rw [splitForShardedDelivery, if_neg (Nat.not_lt.2 htargets)]
  dsimp only
  rw [encodeShards_eq hone hle htotal, ok_bind]
  generalize hshards : table options.config.totalShards _ _ = shards
  have hcount : shards.length = options.config.totalShards := hshards ▸ length_table
  have hlocations : (shards.zipIdx.mapM fun shard => do
      let device ← targetFor options.targets shard.2 shard.1
      return { device, transferId := options.nextTransferId shard.2 : ShardLocation }) =
        .ok (shards.zipIdx.map fun shard =>
          ⟨options.targets[shard.2]?.getD [], options.nextTransferId shard.2⟩) := by
    refine mapM_ok fun shard hshard => ?_
    have hlt : shard.2 < options.targets.length := by
      have := List.snd_lt_of_mem_zipIdx hshard
      omega
    rw [targetFor, List.getElem?_eq_getElem hlt]
    rfl
  have hvalid : ∀ manifest : Manifest, manifest.shards.length = manifest.totalShards →
      manifest.totalShards = options.config.totalShards →
        manifest.threshold = options.config.dataShards → validateManifest manifest = .ok () := by
    grind [validateManifest]
  rw [hlocations, ok_bind, hvalid _ (by simpa using hcount) rfl rfl, ok_bind, encodeShardManifest,
    hvalid _ (by simpa using hcount) rfl rfl]
  exact ⟨_, rfl⟩

end ShardManifest

namespace ShardCollector

/-! ## Reading a shard back -/

/-- A transfer is stored in the given chunks. -/
def Stored (storage : KeyValueStorage) (idHex : String) (chunks : List Bytes) : Prop :=
  countAt storage (Bulk.ackSeqKey idHex) = chunks.length ∧
    ∀ seq < chunks.length, storage.lookup (Bulk.chunkKey idHex seq) = chunks[seq]?

instance (storage : KeyValueStorage) (idHex : String) (chunks : List Bytes) :
    Decidable (Stored storage idHex chunks) :=
  inferInstanceAs (Decidable (_ ∧ _))

/-- A read of a transfer that is stored in the given chunks: it has some of them, or all of them,
    which are the shard. -/
def Reading.Sound (idHex : String) (carried : List Bytes) (shard : Option Bytes) : Reading → Prop
  | pulling chunks call => chunks <+: carried ∧
      (call = Bulk.storedNext idHex chunks.length ∨
        chunks.length < carried.length ∧
          ∃ rest, call = .get (Bulk.chunkKey idHex chunks.length) rest ∧
            ∀ chunk, rest (some chunk) = .ret (.ok (some chunk)))
  | finished result => ∃ data, shard = some data ∧ result = .ok data
  | ended => True

variable {idHex : String} {carried : List Bytes} {shard : Option Bytes} {reading : Reading}
  {storage : KeyValueStorage}

theorem step_storedNext_of_le {seq : ℕ} (h : countAt storage (Bulk.ackSeqKey idHex) ≤ seq) :
    ((Bulk.storedNext idHex seq).step storage).2 = .ret (.ok none) :=
  if_pos h

theorem step_storedNext_of_lt {seq : ℕ} (h : seq < countAt storage (Bulk.ackSeqKey idHex)) :
    ∃ rest, ((Bulk.storedNext idHex seq).step storage).2 = .get (Bulk.chunkKey idHex seq) rest ∧
      ∀ chunk, rest (some chunk) = .ret (.ok (some chunk)) :=
  ⟨_, if_neg (Nat.not_le.2 h), fun _ => rfl⟩

theorem step_chunk (hstored : Stored storage idHex carried) {seq : ℕ} (hlt : seq < carried.length)
    {rest : Option Bytes → StorageM (Except String (Option Bytes))}
    (hrest : ∀ chunk, rest (some chunk) = .ret (.ok (some chunk))) :
    (StorageProgram.step storage (.get (Bulk.chunkKey idHex seq) rest)).2 =
      .ret (.ok (some carried[seq])) := by
  rw [StorageProgram.step, hstored.2 seq hlt, List.getElem?_eq_getElem hlt, hrest]

theorem Reading.Sound.step (h : reading.Sound idHex carried shard)
    (hstored : Stored storage idHex carried) (hshard : shard = some carried.flatten) :
    (reading.step idHex storage).Sound idHex carried shard := by
  rcases reading with ⟨chunks, call⟩ | result | -
  · obtain ⟨hchunks, rfl | ⟨hlt, rest, rfl, hrest⟩⟩ := h
    · -- The count is read: there is a next chunk, or the read is over.
      rcases Nat.lt_or_ge chunks.length carried.length with hlt | hle
      · obtain ⟨rest, hstep, hrest⟩ := step_storedNext_of_lt (hstored.1 ▸ hlt)
        rw [Reading.step, hstep]
        exact ⟨hchunks, .inr ⟨hlt, rest, rfl, hrest⟩⟩
      · rw [Reading.step, step_storedNext_of_le (hstored.1 ▸ hle)]
        exact ⟨_, hshard, by rw [hchunks.eq_of_length_le hle]⟩
    · -- The next chunk is read.
      rw [Reading.step, step_chunk hstored hlt hrest]
      refine ⟨?_, .inl (by rw [List.length_append, List.length_singleton])⟩
      grind [List.prefix_iff_eq_take, List.take_add_one]
  · exact h
  · exact h

/-! ## The collector -/

variable {payload : Bytes} {delivery : ShardedDelivery} {carries : ℕ → List Bytes} {x : State}

/-- Shards of the delivery, as many as the threshold, give the payload. -/
theorem reconstruct_eq (h : Delivers payload delivery) {entries : List (ℕ × Bytes)}
    (hnodup : (entries.map Prod.fst).Nodup)
    (hentries : ∀ e ∈ entries, delivery.shards[e.1]? = some e.2)
    (hlength : delivery.manifest.threshold ≤ entries.length) :
    reconstructFromShards
      ((entries.take delivery.manifest.threshold).map fun e => ⟨e.1, e.2⟩) delivery.manifest none =
        .ok payload := by
  have htake : ∀ e ∈ entries.take delivery.manifest.threshold, delivery.shards[e.1]? = some e.2 :=
    fun e he => hentries e (List.mem_of_mem_take he)
  have hdecode := decodeShards_of_encodeShards h.one_le h.le_total h.total_le h.shards
    (by simpa using hlength) (hnodup.sublist ((List.take_sublist ..).map _)) htake
  rw [reconstructFromShards, h.originalLength, hdecode]
  rfl

/-- The collector has settled if it has as many shards as the threshold, and then the result is
    the payload, or will be. -/
def State.Settles (payload : Bytes) (threshold : ℕ) (x : State) : Prop :=
  if x.presented.entries.length < threshold then
    x.settled = false ∧ x.reconstructing = none ∧ x.settlements = []
  else x.settled = true ∧
    (x.reconstructing = some (.ok payload) ∧ x.settlements = [] ∨
      x.reconstructing = none ∧ x.settlements = [.ok payload])

/-- A read finds the shard in the storage. -/
def Faithful (delivery : ShardedDelivery) (carries : ℕ → List Bytes) (x : State) : Event → Prop
  | .read k => ∀ task, x.tasks[k]? = some task →
      Stored x.storage (bytesToHex task.transferId) (carries k) ∧
        delivery.shards[task.index]? = some (carries k).flatten
  | _ => True

instance (delivery : ShardedDelivery) (carries : ℕ → List Bytes) (x : State) :
    (e : Event) → Decidable (Faithful delivery carries x e)
  | .read k => inferInstanceAs (Decidable (∀ task, x.tasks[k]? = some task → _))
  | .write _ _ => .isTrue trivial
  | .offer _ _ _ => .isTrue trivial
  | .complete _ _ => .isTrue trivial
  | .present _ => .isTrue trivial
  | .reconstruct => .isTrue trivial

@[grind cases]
structure Sound (payload : Bytes) (delivery : ShardedDelivery) (carries : ℕ → List Bytes)
    (x : State) : Prop where
  tasks : ∀ k (task : Task), x.tasks[k]? = some task →
    task.reading.Sound (bytesToHex task.transferId) (carries k) delivery.shards[task.index]?
  presented : ∀ e ∈ x.presented.entries, delivery.shards[e.1]? = some e.2
  settles : x.Settles payload delivery.manifest.threshold

theorem sound_init (h : Delivers payload delivery) (storage : KeyValueStorage) :
    Sound payload delivery carries (init storage) := by
  constructor <;> grind [init, OrderedMap.empty, State.Settles]

/-- Changing a task keeps what the others have. -/
theorem Sound.set_task (h : Sound payload delivery carries x) {k : ℕ} {task : Task}
    (htask : task.reading.Sound (bytesToHex task.transferId) (carries k)
      delivery.shards[task.index]?) :
    Sound payload delivery carries { x with tasks := x.tasks.set k task } := by
  refine ⟨fun k' task' htask' => ?_, h.presented, h.settles⟩
  grind

theorem Sound.present (hd : Delivers payload delivery) (h : Sound payload delivery carries x)
    {index : ℕ} {data : Bytes} (hdata : delivery.shards[index]? = some data) :
    Sound payload delivery carries
      (maybeFinish delivery.manifest none { x with presented := x.presented.set index data }) := by
  have hentries : ∀ e ∈ (x.presented.set index data).entries,
      delivery.shards[e.1]? = some e.2 := by
    intro e he
    rcases OrderedMap.mem_setEntry he with rfl | he
    · exact hdata
    · exact h.presented e he
  have hgrows : x.presented.entries.length ≤ (x.presented.set index data).entries.length :=
    OrderedMap.length_le_length_setEntry ..
  have hsettles := h.settles
  rw [State.Settles] at hsettles
  rw [maybeFinish]
  by_cases hbefore : x.presented.entries.length < delivery.manifest.threshold
  · rw [if_pos hbefore] at hsettles
    obtain ⟨hopen, hreconstructing, hsettlements⟩ := hsettles
    by_cases hfew : (x.presented.set index data).entries.length < delivery.manifest.threshold
    · constructor <;> grind [State.Settles]
    · -- This is the last shard that was missing.
      constructor <;> grind [State.Settles, reconstruct_eq, OrderedMap.nodup]
  · constructor <;> grind [State.Settles]

theorem Sound.offer (h : Sound payload delivery carries x) (index : ℕ) (transferId : Bytes)
    (totalSize : Option ℕ) :
    Sound payload delivery carries
      (onOfferForIndex delivery.manifest x index transferId totalSize) := by
  rw [onOfferForIndex]
  split
  · split_ifs <;> exact ⟨h.tasks, h.presented, h.settles⟩
  · exact ⟨h.tasks, h.presented, h.settles⟩

/-- A new read begins with nothing. -/
theorem Sound.complete (h : Sound payload delivery carries x) (index : ℕ)
    (location : ShardLocation) (ok : Bool) :
    Sound payload delivery carries (onComplete x index location ok) := by
  rw [onComplete]
  split_ifs
  · exact h
  · refine ⟨fun k task htask => ?_, h.presented, h.settles⟩
    rcases getElem?_concat htask with htask | ⟨-, rfl⟩
    · exact h.tasks k task htask
    · refine ⟨?_, .inl rfl⟩
      exact List.nil_prefix

theorem Sound.reconstruct (h : Sound payload delivery carries x) :
    Sound payload delivery carries (next delivery.manifest none x .reconstruct) ∧
      (next delivery.manifest none x .reconstruct).reconstructing = none := by
  have hsettles := h.settles
  rw [State.Settles] at hsettles
  rw [next]
  split
  next hnone => exact ⟨h, hnone⟩
  next result hsome =>
    refine ⟨⟨h.tasks, h.presented, ?_⟩, rfl⟩
    grind [State.Settles]

theorem Sound.next (hd : Delivers payload delivery) (h : Sound payload delivery carries x)
    {e : Event} (hfaithful : Faithful delivery carries x e) :
    Sound payload delivery carries (next delivery.manifest none x e) := by
  rcases e with ⟨key, value | value⟩ | ⟨index, transferId, totalSize⟩ | ⟨offer, ok⟩ | k | k | -
  · exact ⟨h.tasks, h.presented, h.settles⟩
  · exact ⟨h.tasks, h.presented, h.settles⟩
  · exact h.offer index transferId totalSize
  · grind [ShardCollector.next, complete]
  · rw [ShardCollector.next]
    split
    next => exact h
    next task htask =>
      obtain ⟨hstored, hshard⟩ := hfaithful task htask
      exact h.set_task ((h.tasks k task htask).step hstored hshard)
  · rw [ShardCollector.next]
    split
    next index transferId result htask =>
      obtain ⟨data, hdata, rfl⟩ := h.tasks k _ htask
      have hover : Sound payload delivery carries
          { x with tasks := x.tasks.set k ⟨index, transferId, .ended⟩ } := h.set_task trivial
      exact hover.present hd hdata
    next => exact h
  · exact h.reconstruct.1

/-- A settlement is never taken back. -/
theorem settlements_next (manifest : Manifest) (x : State) (e : Event) :
    x.settlements <+: (ShardCollector.next manifest none x e).settlements := by
  rcases e with ⟨key, value | value⟩ | ⟨index, transferId, totalSize⟩ | ⟨offer, ok⟩ | k | k | -
  · exact List.prefix_rfl
  · exact List.prefix_rfl
  · grind [next, onOfferForIndex]
  · grind [next, onComplete]
  · grind [next]
  · grind [next, maybeFinish]
  · grind [next]

/-! ## Where the shards come from -/

/-- The transfer of an accepted offer for the shard has completed. -/
def Completed (events : List Event) (offers : List (ℕ × ShardLocation)) (i : ℕ) : Prop :=
  ∃ offer location, offers[offer]? = some (i, location) ∧ .complete offer true ∈ events

@[grind cases]
structure Origin (manifest : Manifest) (events : List Event) (x : State) : Prop where
  offers : ∀ e ∈ x.offers, manifest.shards[e.1]? = some e.2 ∧
    ∃ totalSize, .offer e.1 e.2.transferId totalSize ∈ events
  tasks : ∀ task ∈ x.tasks, Completed events x.offers task.index
  presented : ∀ e ∈ x.presented.entries, Completed events x.offers e.1

section Origin

variable {manifest : Manifest} {events : List Event} {e : Event}

theorem Completed.later {offers : List (ℕ × ShardLocation)} {i : ℕ}
    (h : Completed events offers i) (e : Event) (later : List (ℕ × ShardLocation)) :
    Completed (events ++ [e]) (offers ++ later) i := by
  obtain ⟨offer, location, hoffer, hmem⟩ := h
  refine ⟨offer, location, ?_, List.mem_append_left _ hmem⟩
  rw [List.getElem?_append_left (List.getElem?_eq_some_iff.1 hoffer).1, hoffer]

theorem Origin.later (h : Origin manifest events x) : Origin manifest (events ++ [e]) x where
  offers entry hentry := by grind
  tasks task htask := by simpa using (h.tasks task htask).later e []
  presented entry hentry := by
    simpa using (h.presented entry hentry).later e []

theorem Origin.offer (h : Origin manifest events x) (index : ℕ) (transferId : Bytes)
    (totalSize : Option ℕ) :
    Origin manifest (events ++ [.offer index transferId totalSize])
      (onOfferForIndex manifest x index transferId totalSize) := by
  rw [onOfferForIndex]
  split
  next location hlocation =>
    split_ifs with heq
    · constructor <;> grind [Completed.later]
    · exact ⟨h.later.offers, h.later.tasks, h.later.presented⟩
  next => exact ⟨h.later.offers, h.later.tasks, h.later.presented⟩

theorem Origin.set_task (h : Origin manifest events x) {k : ℕ} {task : Task}
    (htask : x.tasks[k]? = some task) (reading : Reading) :
    Origin manifest events { x with tasks := x.tasks.set k { task with reading } } := by
  constructor <;> grind

theorem Origin.present (h : Origin manifest events x) {index : ℕ} (data : Bytes)
    (hindex : Completed events x.offers index) :
    Origin manifest events
      (maybeFinish manifest none { x with presented := x.presented.set index data }) := by
  have hentries : ∀ e ∈ (x.presented.set index data).entries, Completed events x.offers e.1 := by
    intro e he
    rcases OrderedMap.mem_setEntry he with rfl | he
    · exact hindex
    · exact h.presented e he
  constructor <;> grind [maybeFinish]

theorem Origin.next (h : Origin manifest events x) (e : Event) :
    Origin manifest (events ++ [e]) (ShardCollector.next manifest none x e) := by
  have hlater := h.later (e := e)
  rcases e with ⟨key, value | value⟩ | ⟨index, transferId, totalSize⟩ | ⟨offer, ok⟩ | k | k | -
  · exact ⟨hlater.offers, hlater.tasks, hlater.presented⟩
  · exact ⟨hlater.offers, hlater.tasks, hlater.presented⟩
  · exact h.offer index transferId totalSize
  · rw [ShardCollector.next]
    split
    next => exact hlater
    next index location hoffer =>
      rw [onComplete]
      split_ifs with hignored
      · exact hlater
      · refine ⟨hlater.offers, fun task htask => ?_, hlater.presented⟩
        rcases List.mem_append.1 htask with htask | htask
        · exact hlater.tasks task htask
        · obtain rfl := List.mem_singleton.1 htask
          have hok : ok = true := by simpa using (not_or.1 hignored).2
          exact ⟨offer, location, hoffer, by simp [hok]⟩
  · grind [ShardCollector.next, set_task]
  · rw [ShardCollector.next]
    split
    next index transferId result htask =>
      have hover := hlater.set_task htask .ended
      dsimp only
      split
      · exact hover.present _ (hlater.tasks _ (List.mem_of_getElem? htask))
      · exact ⟨hover.offers, hover.tasks, hover.presented⟩
    next => exact hlater
  · constructor <;> grind [ShardCollector.next]

end Origin

/-! ## Shards that arrive -/

/-- The read of a transfer that is stored in the given chunks is not handled yet, and ends after at
    most so many further accesses to the storage. -/
def Reading.Within (idHex : String) (carried : List Bytes) (steps : ℕ) : Reading → Prop
  | pulling chunks call =>
    (call = Bulk.storedNext idHex chunks.length ∧ 2 * (carried.length - chunks.length) < steps) ∨
      (chunks.length < carried.length ∧ 2 * (carried.length - chunks.length) ≤ steps ∧
        ∃ rest, call = .get (Bulk.chunkKey idHex chunks.length) rest ∧
          ∀ chunk, rest (some chunk) = .ret (.ok (some chunk)))
  | finished _ => True
  | ended => False

theorem Reading.Within.step {steps : ℕ} (h : reading.Within idHex carried (steps + 1))
    (hstored : Stored storage idHex carried) :
    (reading.step idHex storage).Within idHex carried steps := by
  rcases reading with ⟨chunks, call⟩ | result | -
  · obtain ⟨rfl, hsteps⟩ | ⟨hlt, hsteps, rest, rfl, hrest⟩ := h
    · rcases Nat.lt_or_ge chunks.length carried.length with hlt | hle
      · obtain ⟨rest, hstep, hrest⟩ := step_storedNext_of_lt (hstored.1 ▸ hlt)
        rw [Reading.step, hstep]
        exact .inr ⟨hlt, by omega, rest, rfl, hrest⟩
      · rw [Reading.step, step_storedNext_of_le (hstored.1 ▸ hle)]
        trivial
    · rw [Reading.step, step_chunk hstored hlt hrest]
      refine .inl ⟨by rw [List.length_append, List.length_singleton], ?_⟩
      rw [List.length_append, List.length_singleton]
      omega
  · trivial
  · exact h.elim

theorem Reading.Within.mono {steps : ℕ} (h : reading.Within idHex carried steps) :
    reading.Within idHex carried (steps + 1) := by
  rcases reading with ⟨chunks, call⟩ | result | -
  · exact h.imp (fun h => ⟨h.1, by omega⟩) fun h => ⟨h.1, by omega, h.2.2⟩
  · trivial
  · exact h

/-- The shard of a task is there, or its read goes on for at most so many steps. -/
def Arriving (carries : ℕ → List Bytes) (k index steps : ℕ) (x : State) : Prop :=
  index ∈ x.presented.keys ∨ ∃ task, x.tasks[k]? = some task ∧ task.index = index ∧
    task.reading.Within (bytesToHex task.transferId) (carries k) steps

section Arriving

variable {k index steps : ℕ} {e : Event}

/-- What has been presented stays, whatever the others do. -/
theorem keys_next (hmem : index ∈ x.presented.keys) (manifest : Manifest) (e : Event) :
    index ∈ (ShardCollector.next manifest none x e).presented.keys := by
  rcases e with ⟨key, value | value⟩ | ⟨index, transferId, totalSize⟩ | ⟨offer, ok⟩ | k | k | -
  · exact hmem
  · exact hmem
  · grind [ShardCollector.next, onOfferForIndex]
  · grind [ShardCollector.next, onComplete]
  · grind [ShardCollector.next]
  · grind [ShardCollector.next, maybeFinish, OrderedMap.mem_keys_set]
  · grind [ShardCollector.next]

theorem Arriving.read (hfaithful : Faithful delivery carries x (.read k))
    (h : Arriving carries k index (steps + 1) x) (manifest : Manifest) :
    Arriving carries k index steps (ShardCollector.next manifest none x (.read k)) := by
  rcases h with hmem | ⟨task, htask, hindex, hwithin⟩
  · exact .inl (keys_next hmem manifest _)
  · have hlt := (List.getElem?_eq_some_iff.1 htask).1
    rw [ShardCollector.next, htask]
    exact .inr ⟨_, List.getElem?_set_self hlt, hindex, hwithin.step (hfaithful task htask).1⟩

/-- A read that has finished has found its shard, which is presented. -/
theorem Arriving.present (hsound : Sound payload delivery carries x)
    (h : Arriving carries k index steps x) (manifest : Manifest) :
    index ∈ (ShardCollector.next manifest none x (.present k)).presented.keys ∨
      0 < steps ∧ Arriving carries k index steps
        (ShardCollector.next manifest none x (.present k)) := by
  rcases h with hmem | ⟨⟨index, transferId, reading⟩, htask, rfl, hwithin⟩
  · exact .inl (keys_next hmem manifest _)
  · cases reading with
    | pulling chunks call =>
      refine .inr ⟨?_, ?_⟩
      · rcases hwithin with ⟨-, h⟩ | ⟨hlt, h, -⟩ <;> omega
      · rw [ShardCollector.next, htask]
        exact .inr ⟨_, htask, rfl, hwithin⟩
    | ended => exact hwithin.elim
    | finished result =>
      obtain ⟨data, -, rfl⟩ := hsound.tasks k _ htask
      rw [ShardCollector.next, htask]
      grind [maybeFinish, OrderedMap.mem_keys_set]

theorem Arriving.next (hsound : Sound payload delivery carries x)
    (hfaithful : Faithful delivery carries x e) (h : Arriving carries k index steps x)
    (manifest : Manifest) :
    Arriving carries k index steps (ShardCollector.next manifest none x e) := by
  rcases h with hmem | harriving
  · exact .inl (keys_next hmem manifest e)
  have ⟨task, htask, hindex, hwithin⟩ := harriving
  rcases e with ⟨key, value | value⟩ | ⟨i, transferId, totalSize⟩ | ⟨offer, ok⟩ | k' | k' | -
  · exact .inr harriving
  · exact .inr harriving
  · grind [ShardCollector.next, onOfferForIndex, Arriving]
  · refine .inr ⟨task, ?_, hindex, hwithin⟩
    grind [ShardCollector.next, onComplete]
  · by_cases hk : k' = k
    · subst hk
      exact Arriving.read hfaithful (.inr ⟨task, htask, hindex, hwithin.mono⟩) manifest
    · refine .inr ⟨task, ?_, hindex, hwithin⟩
      grind [ShardCollector.next]
  · by_cases hk : k' = k
    · subst hk
      exact (Arriving.present hsound (.inr harriving) manifest).elim .inl And.right
    · refine .inr ⟨task, ?_, hindex, hwithin⟩
      grind [ShardCollector.next, maybeFinish]
  · grind [ShardCollector.next, Arriving]

/-- Once the read has had its accesses to the storage and its handlers have run, the shard is
    there. -/
theorem Arriving.run (hd : Delivers payload delivery) {events : List Event}
    (hsound : Sound payload delivery carries x) (h : Arriving carries k index steps x)
    (hfaithful : Along (ShardCollector.next delivery.manifest none) (Faithful delivery carries) x
      events)
    (hevents : (List.replicate steps (Event.read k) ++ [Event.present k]).Sublist events) :
    index ∈ (Machine.run (ShardCollector.next delivery.manifest none) x events).presented.keys := by
  induction events generalizing x steps with
  | nil => simp at hevents
  | cons e events ih =>
    obtain ⟨he, hfaithful⟩ := along_cons.1 hfaithful
    have hnext := hsound.next hd he
    cases steps with
    | zero =>
      rcases List.cons_sublist_cons'.1 hevents with hevents | ⟨rfl, -⟩
      · exact ih hnext (h.next hsound he _) hfaithful hevents
      · have hmem := (h.present hsound delivery.manifest).resolve_right fun h => by omega
        exact run_invariant (P := fun y : State => index ∈ y.presented.keys) hmem
          (fun y e hy => keys_next hy _ e) events
    | succ steps =>
      rw [List.replicate_succ, List.cons_append] at hevents
      rcases List.cons_sublist_cons'.1 hevents with hrest | ⟨rfl, hrest⟩
      · exact ih hnext (h.next hsound he _) hfaithful hrest
      · exact ih hnext (h.read he _) hfaithful hrest

/-- A transfer of an accepted offer that completes is read, if the collector is still open. -/
theorem arriving_complete {offer : ℕ} {location : ShardLocation} (hopen : x.settled = false)
    (hoffer : x.offers[offer]? = some (index, location)) (manifest : Manifest) :
    Arriving carries x.tasks.length index (2 * (carries x.tasks.length).length + 1)
      (ShardCollector.next manifest none x (.complete offer true)) := by
  refine .inr ⟨⟨index, location.transferId, readStoredTransferBytes location.transferId⟩, ?_, rfl,
    .inl ⟨rfl, by simp⟩⟩
  simp [ShardCollector.next, hoffer, onComplete, hopen]

end Arriving

/-! ## The delivery -/

theorem sound_run (hd : Delivers payload delivery) {storage : KeyValueStorage}
    {events : List Event} (h : Along (ShardCollector.next delivery.manifest none)
      (Faithful delivery carries) (init storage) events) :
    Sound payload delivery carries
      (run (ShardCollector.next delivery.manifest none) (init storage) events) :=
  run_along (sound_init hd storage) (fun _ _ hsound hfaithful => hsound.next hd hfaithful) h

theorem origin_run (manifest : Manifest) (storage : KeyValueStorage) (events : List Event) :
    Origin manifest events
      (run (ShardCollector.next manifest none) (init storage) events) := by
  refine run_history (P := Origin manifest) ⟨?_, ?_, ?_⟩ (fun _ _ e h => h.next e) events <;>
    simp [init, OrderedMap.empty]

theorem settlements_run (manifest : Manifest) (x : State) (events : List Event) :
    x.settlements <+: (run (ShardCollector.next manifest none) x events).settlements :=
  run_invariant (P := fun y => x.settlements <+: y.settlements) List.prefix_rfl
    (fun y e h => h.trans (settlements_next manifest y e)) events

theorem Sound.settlements (h : Sound payload delivery carries x) :
    x.settlements = [] ∨ x.settlements = [.ok payload] := by grind [State.Settles]

/-- When the handlers have run, the result is there exactly if there are enough shards. -/
theorem Sound.result_iff (h : Sound payload delivery carries x) (hran : x.reconstructing = none) :
    x.result = some (.ok payload) ↔ delivery.manifest.threshold ≤ x.presented.keys.length := by
  grind [OrderedMap.keys, State.Settles, State.result]

theorem reconstruct_presented (manifest : Manifest) (x : State) :
    (ShardCollector.next manifest none x .reconstruct).presented = x.presented := by
  rw [ShardCollector.next]
  split <;> rfl

/-- A payload that is split comes back from any collector of its shards. -/
theorem sharded_delivery (cbor : Cbor2) (payload : Bytes) (options : SplitOptions) :
    (1 ≤ options.config.dataShards → options.config.dataShards ≤ options.config.totalShards →
      options.config.totalShards ≤ 255 → options.config.totalShards ≤ options.targets.length →
        ∃ delivery, splitForShardedDelivery cbor payload options = .ok delivery) ∧
    ∀ delivery, splitForShardedDelivery cbor payload options = .ok delivery →
      (cbor.decode (cbor.encode delivery.manifest.toValue) = .ok delivery.manifest.toValue →
        decodeShardManifest cbor delivery.manifestEntry = .ok delivery.manifest) ∧
      ∀ storage carries events,
        Along (ShardCollector.next delivery.manifest none) (Faithful delivery carries)
          (init storage) events →
        let x := run (ShardCollector.next delivery.manifest none) (init storage) events
        -- The result is the payload, as soon as enough shards have been read back.
        ((ShardCollector.next delivery.manifest none x .reconstruct).result =
            some (.ok payload) ↔ options.config.dataShards ≤ x.presented.keys.length) ∧
        -- It is settled once.
        (x.settlements = [] ∨ x.settlements = [.ok payload]) ∧
        (∀ later, Along (ShardCollector.next delivery.manifest none) (Faithful delivery carries)
            (init storage) (events ++ later) → x.result.isSome →
          (run (ShardCollector.next delivery.manifest none) x later).settlements =
            [.ok payload]) ∧
        -- A transfer that completes while the collector is open is collected when it is read.
        (∀ before after offer i location,
          events = before ++ .complete offer true :: after →
          let y := run (ShardCollector.next delivery.manifest none) (init storage) before
          let k := y.tasks.length
          y.settled = false → y.offers[offer]? = some (i, location) →
          (List.replicate (2 * (carries k).length + 1) (Event.read k) ++ [Event.present k]).Sublist
            after → i ∈ x.presented.keys) ∧
        -- Only what matches the manifest has been collected.
        (∀ i ∈ x.presented.keys, ∃ offer location totalSize,
          delivery.manifest.shards[i]? = some location ∧
            .offer i location.transferId totalSize ∈ events ∧
            x.offers[offer]? = some (i, location) ∧ .complete offer true ∈ events) ∧
        ∀ index transferId totalSize,
          (∀ location ∈ delivery.manifest.shards[index]?, transferId ≠ location.transferId) →
            ShardCollector.next delivery.manifest none x (.offer index transferId totalSize) =
              { x with
                decisions := x.decisions ++
                  [.reject "shard offer does not match the manifest"] } := by
  refine ⟨exists_split payload options, fun delivery hsplit => ?_⟩
  obtain ⟨hd, hthreshold, hvalid, hentry⟩ := split_spec hsplit
  refine ⟨fun hcbor => hentry ▸ decodeShardManifest_encode hvalid hcbor, ?_⟩
  intro storage carries events hfaithful x
  have hsound : Sound payload delivery carries x := sound_run hd hfaithful
  have horigin : Origin delivery.manifest events x := origin_run ..
  refine ⟨?_, hsound.settlements, fun later hlater hsome => ?_, ?_, fun i hi => ?_, ?_⟩
  · obtain ⟨hreconstruct, hran⟩ := hsound.reconstruct
    rw [hreconstruct.result_iff hran, reconstruct_presented, hthreshold]
  · have hrun := sound_run hd hlater
    rw [run_append] at hrun
    -- Settlements only grow, so that there is still one.
    refine hrun.settlements.resolve_left fun hnil => ?_
    have hkept := settlements_run delivery.manifest x later
    rw [hnil, List.prefix_nil] at hkept
    rw [State.result, hkept] at hsome
    cases hsome
  · rintro before after offer i location rfl y k hopen hoffer hafter
    obtain ⟨hbefore, hcomplete⟩ := along_append.1 hfaithful
    obtain ⟨he, hfaithful⟩ := along_cons.1 hcomplete
    have hy : Sound payload delivery carries y := sound_run hd hbefore
    change i ∈ (run _ (init storage) (before ++ .complete offer true :: after)).presented.keys
    rw [run_append]
    exact (arriving_complete hopen hoffer _).run (x := next delivery.manifest none y _) hd
      (hy.next hd he) hfaithful hafter
  · obtain ⟨entry, hentry, rfl⟩ := List.mem_map.1 hi
    obtain ⟨offer, location, hoffer, hcomplete⟩ := horigin.presented entry hentry
    obtain ⟨hlocation, totalSize, hmem⟩ := horigin.offers _ (List.mem_of_getElem? hoffer)
    exact ⟨offer, location, totalSize, hlocation, hmem, hoffer, hcomplete⟩
  · intro index transferId totalSize hmismatch
    rw [ShardCollector.next, onOfferForIndex]
    split
    next location hlocation => rw [if_neg (hmismatch location hlocation)]
    next => rfl

def sampleOptions : SplitOptions where
  config := ⟨2, 3⟩
  contentType := "text/plain"
  targets := [[10], [11], [12]]
  nextTransferId i := [.ofNat i]

def sampleDelivery : ShardedDelivery where
  manifest :=
    { totalShards := 3
      threshold := 2
      contentType := "text/plain"
      originalLength := 3
      shards := [⟨[10], [0]⟩, ⟨[11], [1]⟩, ⟨[12], [2]⟩] }
  shards := [[1, 2], [3, 0], [143, 1]]
  manifestEntry := []

/-- A library that encodes everything as nothing, which is enough for one manifest. -/
def sampleCbor : Cbor2 where
  encode _ := []
  decode _ := .ok sampleDelivery.manifest.toValue

/-- The first and the third shard are stored, each in one chunk. -/
def sampleStorage : KeyValueStorage :=
  [("bulk/00/ack-seq", encodeCount 1), ("bulk/00/chunk/0", [1, 2]),
    ("bulk/02/ack-seq", encodeCount 1), ("bulk/02/chunk/0", [143, 1])].foldl
      (fun storage e => storage.insert e.1 e.2) ∅

/-- The shards are offered, one of them as another one, and two of them complete and are read. -/
def sampleEvents : List Event :=
  [.offer 2 [2] none, .offer 1 [0] none, .offer 0 [0] (some 2), .complete 1 true,
    .complete 0 false, .complete 0 true, .read 0, .read 1, .read 1, .read 0, .read 0, .read 1,
    .present 1, .present 0]

theorem sharded_delivery_sample :
    splitForShardedDelivery sampleCbor [1, 2, 3] sampleOptions = .ok sampleDelivery ∧
      decodeShardManifest sampleCbor sampleDelivery.manifestEntry = .ok sampleDelivery.manifest ∧
      (ShardCollector.next sampleDelivery.manifest none
        (run (ShardCollector.next sampleDelivery.manifest none) (init sampleStorage) sampleEvents)
          .reconstruct).result = some (.ok [1, 2, 3]) := by
  have hsplit : splitForShardedDelivery sampleCbor [1, 2, 3] sampleOptions =
      .ok sampleDelivery := by decide +kernel
  obtain ⟨hdecode, hcollect⟩ :=
    (sharded_delivery sampleCbor [1, 2, 3] sampleOptions).2 sampleDelivery hsplit
  have hfaithful : Along (ShardCollector.next sampleDelivery.manifest none)
      (Faithful sampleDelivery fun k => if k = 0 then [[1, 2]] else [[143, 1]])
        (init sampleStorage) sampleEvents := by decide +kernel
  refine ⟨hsplit, hdecode rfl, (hcollect sampleStorage _ sampleEvents hfaithful).1.2 ?_⟩
  decide +kernel

end ShardCollector

end WireMesh.TypeScript
