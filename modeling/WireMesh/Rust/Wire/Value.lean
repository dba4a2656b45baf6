import WireMesh.Rust.Wire.Strict

/-!
# The values of open maps

The CBOR values of `value.rs`, which stand wherever the schema is open, and the
maps whose entries are kept in the order of their encoded keys.

* `CborValue.decodeStrict_exact`: what is decoded is canonical, and its encoding
  is what was read.
* `CborValue.decodeStrict_encode`: a canonical value is decoded from its
  encoding, with its non-negative integers unsigned.
* `CborValue.Built.canonical`: a value whose maps were built by insertion and
  removal is canonical.
-/

namespace WireMesh.Rust.Wire

open Cbor Reader

/-! ## Canonical maps -/

/-- A key of a map, which is ordered by its encoding. -/
class CdeKey (K : Type) where
  encoded : K → Bytes

section CanonicalMap

variable {K V : Type} [CdeKey K]

/-- The entries with one more, unless its key is there already. -/
def insertEntry (entries : List (K × V)) (key : K) (value : V) :
    Except DecodeError (List (K × V)) :=
  match insertSorted (fun e => cdeRank (CdeKey.encoded e.1)) (key, value) entries with
  | some entries => .ok entries
  | none => .error .duplicateKey

/-- The value of a key, and the entries without it. -/
def removeEntry (entries : List (K × V)) (key : K) : Option (V × List (K × V)) :=
  (eraseSorted (fun e => cdeRank (CdeKey.encoded e.1)) (cdeRank (CdeKey.encoded key)) entries).map
    fun x => (x.1.2, x.2)

variable {entries entries' : List (K × V)} {key : K} {value : V}

theorem insertEntry_eq_ok_iff (h : Ordered CdeKey.encoded entries) :
    insertEntry entries key value = .ok entries' ↔
      Ordered CdeKey.encoded entries' ∧ entries'.Perm ((key, value) :: entries) := by
  rw [insertEntry, Ordered, ← insertSorted_eq_some_iff h]
  cases insertSorted (fun e => cdeRank (CdeKey.encoded e.1)) (key, value) entries <;> simp

/-- An entry with the greatest key goes to the end. -/
theorem insertEntry_append (h : Ordered CdeKey.encoded entries)
    (hlt : ∀ e ∈ entries, cdeRank (CdeKey.encoded e.1) < cdeRank (CdeKey.encoded key)) :
    insertEntry entries key value = .ok (entries ++ [(key, value)]) := by
  rw [insertEntry, insertSorted_append h hlt]

theorem removeEntry_eq_some (h : Ordered CdeKey.encoded entries)
    (hremove : removeEntry entries key = some (value, entries')) :
    Ordered CdeKey.encoded entries' ∧ ∃ key', CdeKey.encoded key' = CdeKey.encoded key ∧
      entries.Perm ((key', value) :: entries') := by
  obtain ⟨⟨⟨key', value'⟩, rest⟩, herase, hx⟩ := Option.map_eq_some_iff.1 hremove
  cases hx
  obtain ⟨hkey, hperm, hsorted⟩ := eraseSorted_eq_some h herase
  exact ⟨hsorted, key', cdeRank_injective hkey, hperm⟩

end CanonicalMap

/-! ## Values -/

/-- A value of an open position. -/
inductive CborValue
  | null
  | bool (b : Bool)
  | int (v : Int64)
  | uint (v : UInt64)
  | bytes (b : Bytes)
  | text (s : String)
  | array (items : List CborValue)
  | map (entries : List (CborValue × CborValue))

namespace CborValue

mutual

def encode : CborValue → Bytes
  | .null => Cbor.null
  | .bool b => Cbor.bool b
  | .int v => Cbor.int v.toInt
  | .uint v => Cbor.uint v.toNat
  | .bytes b => Cbor.bytes b
  | .text s => Cbor.text s
  | .array items => head 4 items.length ++ encodeItems items
  | .map entries => head 5 entries.length ++ encodeEntries entries

def encodeItems : List CborValue → Bytes
  | [] => []
  | v :: items => v.encode ++ encodeItems items

def encodeEntries : List (CborValue × CborValue) → Bytes
  | [] => []
  | (k, v) :: entries => k.encode ++ v.encode ++ encodeEntries entries

end

instance : CdeKey CborValue := ⟨encode⟩

mutual

/-- The value with its non-negative integers unsigned. -/
def normalize : CborValue → CborValue
  | .int v => if 0 ≤ v then .uint v.toUInt64 else .int v
  | .array items => .array (normalizeItems items)
  | .map entries => .map (normalizeEntries entries)
  | .null => .null
  | .bool b => .bool b
  | .uint v => .uint v
  | .bytes b => .bytes b
  | .text s => .text s

def normalizeItems : List CborValue → List CborValue
  | [] => []
  | v :: items => v.normalize :: normalizeItems items

def normalizeEntries : List (CborValue × CborValue) → List (CborValue × CborValue)
  | [] => []
  | (k, v) :: entries => (k.normalize, v.normalize) :: normalizeEntries entries

end

/-- An entry of a map, after its key. -/
def mapEntry (decode : Decoder CborValue) (entries : List (CborValue × CborValue))
    (key : CborValue) : Decoder (List (CborValue × CborValue)) := do
  let value ← decode
  Reader.ofExcept (insertEntry entries key value)

/-- The decoder, with a bound on how deep values are nested. -/
def decodeFuel : ℕ → Decoder CborValue
  | 0 => fail .malformed
  | fuel + 1 => do
    match ← datatype with
    | .null =>
      ofOption .malformed readNull
      return .null
    | .bool => return .bool (← ofOption .malformed readBool)
    | .unsigned => return .uint (← uintValue)
    | .negative => return .int (← intValue)
    | .bytes => return .bytes (← bytesValue)
    | .string => return .text (← textValue)
    | .array =>
      let n ← definiteArray
      return .array (← times n (decodeFuel fuel))
    | .map =>
      return .map (← orderedMap (decodeFuel fuel) encode (mapEntry (decodeFuel fuel)) [])
    | other =>
      fail (.unexpectedType ("a CDE-compatible CBOR value " ++
        "(no floats, tags, undefined, or indefinite lengths)") other)

/-- A value takes at least a byte, so that no input is nested deeper than it is long. -/
def decodeStrict : Decoder CborValue := fun input => decodeFuel (input.length + 1) input

theorem encodeItems_eq (items : List CborValue) : encodeItems items = items.flatMap encode := by
  induction items with
  | nil => rw [encodeItems, List.flatMap_nil]
  | cons v items ih => rw [encodeItems, ih, List.flatMap_cons]

theorem encode_array (items : List CborValue) :
    (array items).encode = Cbor.array (items.map encode) := by
  rw [encode, encodeItems_eq, Cbor.array, List.length_map, List.flatMap_def]

/-- The encodings of the entries of a map. -/
def pairs (entries : List (CborValue × CborValue)) : List (Bytes × Bytes) :=
  entries.map fun e => (e.1.encode, e.2.encode)

theorem encode_map (entries : List (CborValue × CborValue)) :
    (map entries).encode = rawMap (pairs entries) := by
  have hentries : encodeEntries entries = (pairs entries).flatMap fun e => e.1 ++ e.2 := by
    induction entries with
    | nil => rw [encodeEntries, pairs, List.map_nil, List.flatMap_nil]
    | cons e entries ih => rw [encodeEntries, ih, pairs, pairs, List.map_cons, List.flatMap_cons]
  rw [encode, hentries, rawMap, pairs, List.length_map]

/-- Every length has a head, and every map has its keys in order. -/
inductive Canonical : CborValue → Prop
  | null : Canonical .null
  | bool (b : Bool) : Canonical (.bool b)
  | int (v : Int64) : Canonical (.int v)
  | uint (v : UInt64) : Canonical (.uint v)
  | bytes {b : Bytes} (h : b.length < 2 ^ 64) : Canonical (.bytes b)
  | text {s : String} (h : textLength s < 2 ^ 64) : Canonical (.text s)
  | array {items : List CborValue} (h : items.length < 2 ^ 64)
    (hitems : ∀ v ∈ items, Canonical v) : Canonical (.array items)
  | map {entries : List (CborValue × CborValue)} (h : entries.length < 2 ^ 64)
    (hsorted : Ordered encode entries) (hkeys : ∀ e ∈ entries, Canonical e.1)
    (hvalues : ∀ e ∈ entries, Canonical e.2) : Canonical (.map entries)

theorem readNull_eq_some_iff {input rest : Bytes} {u : Unit} :
    readNull input = some (u, rest) ↔ input = Cbor.null ++ rest := by
  unfold readNull
  grind [Cbor.null]

theorem readBool_eq_some_iff {input rest : Bytes} {b : Bool} :
    readBool input = some (b, rest) ↔ input = Cbor.bool b ++ rest := by
  unfold readBool
  split
  next rest' => cases b <;> simp [Cbor.bool, eq_comm]
  next rest' => cases b <;> simp [Cbor.bool, eq_comm]
  next hfalse htrue =>
    refine ⟨nofun, ?_⟩
    rintro rfl
    cases b with
    | false => exact absurd rfl (hfalse rest)
    | true => exact absurd rfl (htrue rest)

/-- The entries of a map, read by a decoder that is exact. -/
theorem orderedMap_mapEntry_exact {decode : Decoder CborValue}
    (hdecode : ∀ input v rest, decode input = .ok (v, rest) →
      input = v.encode ++ rest ∧ v.Canonical)
    {entries : List (CborValue × CborValue)} {input rest : Bytes}
    (h : orderedMap decode encode (mapEntry decode) [] input = .ok (entries, rest)) :
    input = (map entries).encode ++ rest ∧ (map entries).Canonical := by
  have hmap := orderedMap_exact
    (fun entries raw => raw = entries.map (fun e => (e.1, e.2.encode)) ∧
      Ordered encode entries ∧ (∀ e ∈ entries, Canonical e.1) ∧ ∀ e ∈ entries, Canonical e.2)
    hdecode ?_ ⟨rfl, List.Pairwise.nil, by simp, by simp⟩ h
  · obtain ⟨raw, rfl, hlen, -, rfl, hsorted, hkeys, hvalues⟩ := hmap
    rw [List.length_map] at hlen
    refine ⟨?_, .map hlen hsorted hkeys hvalues⟩
    simp [encode_map, pairs, encodedEntries, Function.comp_def]
  · rintro entries _ key input entries' rest ⟨rfl, hsorted, hkeys, hvalues⟩ hkey hlt h
    -- The key is greater than those before it: the insertion is at the end.
    replace hlt : ∀ e ∈ entries, cdeRank e.1.encode < cdeRank key.encode :=
      fun e he => hlt _ (List.mem_map_of_mem he)
    simp only [mapEntry, bind_eq_ok, ofExcept_eq_ok] at h
    obtain ⟨value, mid, hvalue, hinsert, rfl⟩ := h
    obtain ⟨rfl, hcanonical⟩ := hdecode _ _ _ hvalue
    rw [insertEntry_append hsorted hlt, Except.ok.injEq] at hinsert
    subst hinsert
    refine ⟨value.encode, rfl, by simp, ?_, ?_, ?_⟩
    · exact sortedBy_append.2 ⟨hsorted, List.pairwise_singleton _ _, by simpa using hlt⟩
    · exact List.forall_mem_append.2 ⟨hkeys, List.forall_mem_singleton.2 hkey⟩
    · exact List.forall_mem_append.2 ⟨hvalues, List.forall_mem_singleton.2 hcanonical⟩

theorem decodeFuel_exact (fuel : ℕ) : ∀ {input : Bytes} {v : CborValue} {rest : Bytes},
    decodeFuel fuel input = .ok (v, rest) → input = v.encode ++ rest ∧ v.Canonical := by
  induction fuel with
  | zero => exact fun h => absurd h fail_eq_ok
  | succ fuel ih =>
    intro input v rest h
    simp only [decodeFuel, bind_eq_ok, datatype_eq_ok_iff] at h
    obtain ⟨t, _, ⟨-, rfl⟩, h⟩ := h
    cases t <;> try exact absurd h fail_eq_ok
    case null =>
      simp only [bind_eq_ok, ofOption_eq_ok, readNull_eq_some_iff, pure_eq_ok] at h
      obtain ⟨_, _, rfl, rfl, rfl⟩ := h
      exact ⟨rfl, .null⟩
    case bool =>
      simp only [bind_eq_ok, ofOption_eq_ok, readBool_eq_some_iff, pure_eq_ok] at h
      obtain ⟨b, _, rfl, rfl, rfl⟩ := h
      exact ⟨rfl, .bool b⟩
    case unsigned =>
      simp only [bind_eq_ok, uintValue_eq_ok_iff, pure_eq_ok] at h
      obtain ⟨v, _, rfl, rfl, rfl⟩ := h
      exact ⟨rfl, .uint v⟩
    case negative =>
      simp only [bind_eq_ok, intValue_eq_ok_iff, pure_eq_ok] at h
      obtain ⟨v, _, rfl, rfl, rfl⟩ := h
      exact ⟨rfl, .int v⟩
    case bytes =>
      simp only [bind_eq_ok, bytesValue_eq_ok_iff, pure_eq_ok] at h
      obtain ⟨b, _, ⟨rfl, hlen⟩, rfl, rfl⟩ := h
      exact ⟨rfl, .bytes hlen⟩
    case string =>
      simp only [bind_eq_ok, textValue_eq_ok_iff, pure_eq_ok] at h
      obtain ⟨s, _, ⟨rfl, hlen⟩, rfl, rfl⟩ := h
      exact ⟨rfl, .text hlen⟩
    case array =>
      simp only [bind_eq_ok, definiteArray_eq_ok_iff, pure_eq_ok] at h
      obtain ⟨n, _, ⟨rfl, hn⟩, items, _, htimes, rfl, rfl⟩ := h
      obtain ⟨rfl, rfl, hitems⟩ := times_exact encode Canonical
        (fun _ _ _ => ih) htimes
      exact ⟨by rw [encode, encodeItems_eq, List.append_assoc], .array hn hitems⟩
    grind [bind_eq_ok, pure_eq_ok, orderedMap_mapEntry_exact]

/-- What is decoded is canonical, and its encoding is what was read. -/
theorem decodeStrict_exact {input : Bytes} {v : CborValue} {rest : Bytes}
    (h : decodeStrict input = .ok (v, rest)) : input = v.encode ++ rest ∧ v.Canonical :=
  decodeFuel_exact _ h

theorem normalize_array (items : List CborValue) :
    (array items).normalize = array (items.map normalize) := by
  have hitems : normalizeItems items = items.map normalize := by
    induction items with
    | nil => rw [normalizeItems, List.map_nil]
    | cons v items ih => rw [normalizeItems, ih, List.map_cons]
  rw [normalize, hitems]

theorem normalize_map (entries : List (CborValue × CborValue)) :
    (map entries).normalize = map (entries.map fun e => (e.1.normalize, e.2.normalize)) := by
  have hentries : normalizeEntries entries =
      entries.map fun e => (e.1.normalize, e.2.normalize) := by
    induction entries with
    | nil => rw [normalizeEntries, List.map_nil]
    | cons e entries ih => rw [normalizeEntries, ih, List.map_cons]
  rw [normalize, hentries]

theorem toNat_toUInt64_of_nonneg {v : Int64} (h : 0 ≤ v) : (v.toUInt64.toNat : ℤ) = v.toInt := by
  grind [Int64.le_iff_toInt_le, UInt64.toNat_lt, toInt_eq_ite]

theorem int_toInt_of_nonneg {v : Int64} (h : 0 ≤ v) :
    Cbor.int v.toInt = Cbor.uint v.toUInt64.toNat := by
  rw [← toNat_toUInt64_of_nonneg h]
  rfl

/-- Which of the two an integer is written as makes no difference to its encoding. -/
theorem Canonical.encode_normalize {v : CborValue} (hv : v.Canonical) :
    v.normalize.encode = v.encode := by
  induction hv with
  | null | bool | uint | bytes | text => rw [normalize]
  | int v => grind [normalize, encode, int_toInt_of_nonneg]
  | array _ _ ih => grind [normalize_array, encode_array, List.map_congr_left]
  | map _ _ _ _ ihkeys ihvalues =>
    rw [normalize_map, encode_map, encode_map, pairs, pairs, List.map_map]
    grind [List.map_congr_left]

/-- The entries of a map are read back when its keys and values are. -/
theorem orderedMap_mapEntry_writes {decode : Decoder CborValue}
    {entries : List (CborValue × CborValue)} (hlen : entries.length < 2 ^ 64)
    (hsorted : Ordered encode entries) (hcanonical : ∀ e ∈ entries, Canonical e.1)
    (hkeys : ∀ e ∈ entries, ∀ rest, decode (e.1.encode ++ rest) = .ok (e.1.normalize, rest))
    (hvalues : ∀ e ∈ entries, ∀ rest, decode (e.2.encode ++ rest) = .ok (e.2.normalize, rest))
    (rest : Bytes) :
    orderedMap decode encode (mapEntry decode) [] ((map entries).encode ++ rest) =
      .ok (entries.map fun e => (e.1.normalize, e.2.normalize), rest) := by
  have hencode : ∀ e ∈ entries, encode e.1.normalize = e.1.encode :=
    fun e he => (hcanonical e he).encode_normalize
  have hsorted' : SortedBy (fun e : CborValue × CborValue => cdeRank (encode e.1.normalize))
      entries := by
    refine List.Pairwise.imp_of_mem ?_ hsorted
    grind
  have hpairs : pairs entries = entries.map fun e => (encode e.1.normalize, encode e.2) :=
    List.map_congr_left fun e he => by rw [hencode e he]
  rw [encode_map, hpairs]
  have hwrites := @orderedMap_writes _ _ decode encode (mapEntry decode) _
    (fun e => e.1.normalize) (fun e => e.2.encode)
    (fun done => done.map fun e => (e.1.normalize, e.2.normalize)) [] List.map_nil entries hlen
    hsorted' ?_ ?_ rest
  · exact hwrites
  · intro e he rest
    rw [hencode e he]
    exact hkeys e he rest
  · intro before e after rest hentries
    rw [hentries, sortedBy_append] at hsorted'
    obtain ⟨hbefore, -, hlt⟩ := hsorted'
    have hmem : e ∈ entries := by simp [hentries]
    have hinsert : insertEntry (before.map fun e => (e.1.normalize, e.2.normalize)) e.1.normalize
        e.2.normalize = .ok ((before ++ [e]).map fun e => (e.1.normalize, e.2.normalize)) := by
      rw [List.map_append]
      refine insertEntry_append (List.pairwise_map.2 hbefore) ?_
      intro x hx
      obtain ⟨y, hy, rfl⟩ := List.mem_map.1 hx
      exact hlt y hy e List.mem_cons_self
    simp only [mapEntry, bind_eq_ok, ofExcept_eq_ok]
    exact ⟨_, _, hvalues e hmem rest, hinsert, rfl⟩

theorem length_lt_of_mem_array {items : List CborValue} {v : CborValue} (hv : v ∈ items) :
    v.encode.length < (array items).encode.length := by
  have hlen := List.Sublist.length_le
    (List.sublist_flatten_of_mem (List.mem_map_of_mem (f := encode) hv))
  grind [headLength_pos, encode_array, Cbor.array, length_head]

theorem length_lt_of_mem_map {entries : List (CborValue × CborValue)} {e : CborValue × CborValue}
    (he : e ∈ entries) :
    e.1.encode.length + e.2.encode.length < (map entries).encode.length := by
  have hmem : e.1.encode ++ e.2.encode ∈ (pairs entries).map fun x => x.1 ++ x.2 :=
    List.mem_map.2 ⟨_, List.mem_map_of_mem he, rfl⟩
  have hlen := List.Sublist.length_le (List.sublist_flatten_of_mem hmem)
  grind [headLength_pos, encode_map, rawMap, length_head]

theorem Canonical.decodeFuel_encode {v : CborValue} (hv : v.Canonical) :
    ∀ fuel, v.encode.length < fuel → ∀ rest,
      decodeFuel fuel (v.encode ++ rest) = .ok (v.normalize, rest) := by
  induction hv with
  | null =>
    rintro (_ | fuel) hfuel rest
    · omega
    · rfl
  | bool b =>
    rintro (_ | fuel) hfuel rest
    · omega
    · cases b <;> rfl
  | int v =>
    rintro (_ | fuel) hfuel rest
    · omega
    · simp only [decodeFuel, bind_eq_ok, datatype_eq_ok_iff, normalize]
      split_ifs with h
      · refine ⟨.unsigned, _, ⟨?_, rfl⟩, ?_⟩
        · rw [encode, int_toInt_of_nonneg h, Cbor.uint, datatype_uint]
        · simp only [bind_eq_ok, uintValue_eq_ok_iff, pure_eq_ok]
          exact ⟨v.toUInt64, rest, by rw [encode, int_toInt_of_nonneg h], rfl, rfl⟩
      · refine ⟨.negative, _, ⟨?_, rfl⟩, ?_⟩
        · cases hv : v.toInt with
          | ofNat n =>
            exact absurd (Int64.le_iff_toInt_le.2 (by rw [hv]; exact Int.natCast_nonneg n)) h
          | negSucc n => rw [encode, hv, Cbor.int, datatype_negative]
        · simp only [bind_eq_ok, intValue_eq_ok_iff, pure_eq_ok]
          exact ⟨v, rest, rfl, rfl, rfl⟩
  | uint v =>
    rintro (_ | fuel) hfuel rest
    · omega
    · simp only [decodeFuel, bind_eq_ok, datatype_eq_ok_iff, normalize]
      refine ⟨.unsigned, _, ⟨by rw [encode, Cbor.uint, datatype_uint], rfl⟩, ?_⟩
      simp only [bind_eq_ok, uintValue_eq_ok_iff, pure_eq_ok]
      exact ⟨v, rest, rfl, rfl, rfl⟩
  | @bytes b h =>
    rintro (_ | fuel) hfuel rest
    · omega
    · simp only [decodeFuel, bind_eq_ok, datatype_eq_ok_iff, normalize]
      refine ⟨.bytes, _, ⟨by rw [encode, Cbor.bytes, List.append_assoc, datatype_bytes], rfl⟩, ?_⟩
      simp only [bind_eq_ok, bytesValue_eq_ok_iff, pure_eq_ok]
      exact ⟨b, rest, ⟨rfl, h⟩, rfl, rfl⟩
  | @text s h =>
    rintro (_ | fuel) hfuel rest
    · omega
    · simp only [decodeFuel, bind_eq_ok, datatype_eq_ok_iff, normalize]
      refine ⟨.string, _, ⟨by rw [encode, Cbor.text, List.append_assoc, datatype_text], rfl⟩, ?_⟩
      simp only [bind_eq_ok, textValue_eq_ok_iff, pure_eq_ok]
      exact ⟨s, rest, ⟨rfl, h⟩, rfl, rfl⟩
  | @array items h hitems ih =>
    rintro (_ | fuel) hfuel rest
    · omega
    · have htimes := times_writes normalize
        (fun v hv => ih v hv fuel (by have := length_lt_of_mem_array hv; omega)) rest
      simp only [decodeFuel, bind_eq_ok, datatype_eq_ok_iff, normalize_array]
      rw [encode, encodeItems_eq, List.append_assoc]
      refine ⟨.array, _, ⟨datatype_array _ _, rfl⟩, ?_⟩
      simp only [bind_eq_ok, definiteArray_eq_ok_iff, pure_eq_ok]
      exact ⟨_, _, ⟨rfl, h⟩, _, rest, htimes, rfl, rfl⟩
  | @map entries h hsorted hkeys hvalues ihkeys ihvalues =>
    rintro (_ | fuel) hfuel rest
    · omega
    · have hmap := orderedMap_mapEntry_writes h hsorted hkeys
        (fun e he => ihkeys e he fuel (by have := length_lt_of_mem_map he; omega))
        (fun e he => ihvalues e he fuel (by have := length_lt_of_mem_map he; omega)) rest
      simp only [decodeFuel, bind_eq_ok, datatype_eq_ok_iff, normalize_map]
      refine ⟨.map, _, ⟨by rw [encode, List.append_assoc, datatype_map], rfl⟩, ?_⟩
      grind [bind_eq_ok, pure_eq_ok]

/-- A canonical value is decoded from its encoding. -/
theorem Canonical.decodeStrict_encode {v : CborValue} (hv : v.Canonical) (rest : Bytes) :
    decodeStrict (v.encode ++ rest) = .ok (v.normalize, rest) :=
  hv.decodeFuel_encode _ (by rw [List.length_append]; omega) rest

/-! ### Built values -/

/-- The values that a program makes, the maps being built by insertion and removal. A vector
    has less than 2⁶³ bytes or items. -/
inductive Built : CborValue → Prop
  | null : Built .null
  | bool (b : Bool) : Built (.bool b)
  | int (v : Int64) : Built (.int v)
  | uint (v : UInt64) : Built (.uint v)
  | bytes {b : Bytes} (h : b.length < 2 ^ 63) : Built (.bytes b)
  | text {s : String} (h : textLength s < 2 ^ 63) : Built (.text s)
  | array {items : List CborValue} (h : items.length < 2 ^ 63) (hitems : ∀ v ∈ items, Built v) :
    Built (.array items)
  | new : Built (.map [])
  | insert {entries entries' : List (CborValue × CborValue)} {key value : CborValue}
    (hmap : Built (.map entries)) (hkey : Built key) (hvalue : Built value)
    (hinsert : insertEntry entries key value = .ok entries') (h : entries'.length < 2 ^ 63) :
    Built (.map entries')
  | remove {entries entries' : List (CborValue × CborValue)} {key value : CborValue}
    (hmap : Built (.map entries)) (hremove : removeEntry entries key = some (value, entries')) :
    Built (.map entries')

theorem Built.canonical {v : CborValue} (hv : v.Built) : v.Canonical := by
  induction hv with
  | null => exact .null
  | bool b => exact .bool b
  | int v => exact .int v
  | uint v => exact .uint v
  | bytes h => exact .bytes (by omega)
  | text h => exact .text (by omega)
  | array h _ ih => exact .array (by omega) ih
  | new => exact .map (by decide) List.Pairwise.nil (by simp) (by simp)
  | insert _ _ _ hinsert h ihmap ihkey ihvalue =>
    cases ihmap with
    | map _ hsorted hkeys hvalues =>
      obtain ⟨hsorted', hperm⟩ := (insertEntry_eq_ok_iff hsorted).1 hinsert
      refine .map (by omega) hsorted' ?_ ?_
      · grind
      · grind
  | remove _ hremove ihmap =>
    cases ihmap with
    | map h hsorted hkeys hvalues =>
      obtain ⟨hsorted', key', -, hperm⟩ := removeEntry_eq_some hsorted hremove
      have hlen := hperm.length_eq
      rw [List.length_cons] at hlen
      refine .map (by omega) hsorted' ?_ ?_
      · grind
      · grind

/-- A value that stands in another one, at any depth, or is it. -/
inductive Inside (u : CborValue) : CborValue → Prop
  | refl : Inside u u
  | item {items : List CborValue} {v : CborValue} (hv : v ∈ items) (h : Inside u v) :
    Inside u (.array items)
  | key {entries : List (CborValue × CborValue)} {e : CborValue × CborValue} (he : e ∈ entries)
    (h : Inside u e.1) : Inside u (.map entries)
  | value {entries : List (CborValue × CborValue)} {e : CborValue × CborValue} (he : e ∈ entries)
    (h : Inside u e.2) : Inside u (.map entries)

theorem Canonical.inside {u v : CborValue} (hv : v.Canonical) (h : u.Inside v) :
    u.Canonical := by
  induction h with
  | refl => exact hv
  | item hmem _ ih =>
    cases hv with
    | array _ hitems => exact ih (hitems _ hmem)
  | key he _ ih =>
    cases hv with
    | map _ _ hkeys _ => exact ih (hkeys _ he)
  | value he _ ih =>
    cases hv with
    | map _ _ _ hvalues => exact ih (hvalues _ he)

end CborValue

end WireMesh.Rust.Wire
