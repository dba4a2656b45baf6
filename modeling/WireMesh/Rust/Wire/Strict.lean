import WireMesh.BinarySearch
import WireMesh.Cbor.Read
import WireMesh.Reader

/-!
# The strict decoders of the wire

The helpers of `strict.rs`, over the primitives of minicbor. Every head is to be
in its shortest width, which is seen in how far the decoder has moved, and the
keys of a map are to be in order: the shorter encodings first, those of one
length bytewise.

* `uintValue_eq_ok_iff` and the lemmas beside it: what a helper accepts is the
  deterministic encoding of the value it returns.
* `orderedMap_exact`, `orderedMap_writes`: the two rules for the loop over the
  entries of a map.
-/

namespace WireMesh.Rust.Wire

open Cbor Reader

/-- Why a value is not decoded. The messages of minicbor are left out. -/
inductive DecodeError
  | unknownKey (key : String)
  | missingField (name : String)
  | wrongArity (expected found : ℕ)
  | indefiniteLength
  | duplicateKey
  | nonMinimalHead
  | unsortedMapKeys
  | unexpectedType (expected : String) (found : DataType)
  | invalidLength (field : String) (expected found : ℕ)
  | badLiteral (expected found : String)
  | trailingBytes (consumed total : ℕ)
  | constraint (what : String)
  | malformed
deriving DecidableEq

abbrev Decoder := Reader DecodeError

/-! ## The order of keys -/

/-- The shorter first, then bytewise. -/
def cdeOrder (a b : Bytes) : Ordering := (compare a.length b.length).then (compare a b)

/-- The place of an encoding in the order: the number it is, after a byte 1. -/
def cdeRank (b : Bytes) : ℕ := 256 ^ b.length + ofBigEndian b

theorem cdeOrder_eq (a b : Bytes) : cdeOrder a b = compare (cdeRank a) (cdeRank b) := by
  have ha := ofBigEndian_lt a
  have hb := ofBigEndian_lt b
  have hpow : ∀ {m n : ℕ}, m < n → 2 * 256 ^ m ≤ 256 ^ n := by
    intro m n hmn
    calc 2 * 256 ^ m ≤ 256 * 256 ^ m := Nat.mul_le_mul_right _ (by decide)
      _ = 256 ^ (m + 1) := by rw [pow_succ, mul_comm]
      _ ≤ 256 ^ n := Nat.pow_le_pow_right (by decide) hmn
  unfold cdeOrder cdeRank
  rcases lt_trichotomy a.length b.length with hlen | hlen | hlen
  · have hlt := hpow hlen
    rw [Nat.compare_eq_lt.2 hlen, Ordering.lt_then, eq_comm, Nat.compare_eq_lt]
    omega
  · rw [Nat.compare_eq_eq.2 hlen, compare_eq_compare_ofBigEndian hlen, hlen]
    simp [Nat.compare_eq_ite_lt]
  · have hlt := hpow hlen
    rw [Nat.compare_eq_gt.2 hlen, Ordering.gt_then, eq_comm, Nat.compare_eq_gt]
    omega

theorem cdeRank_injective : Function.Injective cdeRank := by
  intro a b h
  have horder : cdeOrder a b = .eq := by rw [cdeOrder_eq, h, Nat.compare_eq_eq]
  grind [cdeOrder]

/-- The previous key of a map, encoded. -/
abbrev KeyOrder := Option Bytes

def KeyOrder.push (order : KeyOrder) (key : Bytes) : Except DecodeError KeyOrder :=
  match order with
  | none => .ok (some key)
  | some prev =>
    match cdeOrder prev key with
    | .lt => .ok (some key)
    | .eq => .error .duplicateKey
    | .gt => .error .unsortedMapKeys

theorem KeyOrder.push_eq_ok_iff {order order' : KeyOrder} {key : Bytes} :
    order.push key = .ok order' ↔
      (∀ prev ∈ order, cdeRank prev < cdeRank key) ∧ order' = some key := by
  cases order with
  | none => simp [KeyOrder.push, eq_comm]
  | some prev => grind [push, cdeOrder_eq]

/-! ## Heads -/

def minimalUintHeadLen (v : ℕ) : ℕ :=
  if v ≤ 23 then 1 else if v ≤ 0xff then 2 else if v ≤ 0xffff then 3 else if v ≤ 0xffffffff then 5
  else 9

/-- A negative number has the argument `-1 - v`. -/
def minimalIntHeadLen (v : Int64) : ℕ :=
  if 0 ≤ v then minimalUintHeadLen v.toUInt64.toNat
  else minimalUintHeadLen (-v.toUInt64 - 1).toNat

@[simp]
theorem minimalUintHeadLen_eq (v : ℕ) : minimalUintHeadLen v = headLength v := by
  grind [minimalUintHeadLen, headLength]

theorem toInt_eq_ite (v : Int64) :
    v.toInt = if 2 * v.toUInt64.toNat < 2 ^ 64 then (v.toUInt64.toNat : ℤ)
      else v.toUInt64.toNat - 2 ^ 64 :=
  BitVec.toInt_eq_toNat_cond v.toBitVec

@[simp]
theorem minimalIntHeadLen_eq (v : Int64) : minimalIntHeadLen v = (int v.toInt).length := by
  have hv := toInt_eq_ite v
  have hlt := v.toUInt64.toNat_lt
  have hnonneg : 0 ≤ v ↔ 0 ≤ v.toInt := Int64.le_iff_toInt_le
  rw [minimalIntHeadLen]
  cases hint : v.toInt with
  | ofNat n => grind [minimalUintHeadLen_eq, int, length_head]
  | negSucc n => grind [UInt64.toNat_sub, UInt64.toNat_neg, minimalUintHeadLen_eq, int, length_head]

def checkHeadWidth (width minimal : ℕ) : Decoder Unit :=
  ensure (width = minimal) .nonMinimalHead

/-- A value whose head is to be in its shortest width: what the decoder has moved by, without
    the content of the value, is the width of the head. -/
def measured {A : Type} (read : Bytes → Option (A × Bytes)) (content minimal : A → ℕ) :
    Decoder A := do
  let before ← remaining
  let value ← ofOption .malformed read
  let after ← remaining
  checkHeadWidth (before - after - content value) (minimal value)
  return value

theorem measured_eq_ok_iff {A : Type} {read : Bytes → Option (A × Bytes)} {content minimal : A → ℕ}
    {input rest : Bytes} {value : A} (hpos : 0 < minimal value) :
    measured read content minimal input = .ok (value, rest) ↔
      read input = some (value, rest) ∧
        input.length = minimal value + content value + rest.length := by
  simp only [measured, checkHeadWidth, bind_eq_ok, remaining_eq_ok, ofOption_eq_ok, ensure_eq_ok,
    pure_eq_ok]
  grind

/-- A definite length, in its shortest width. -/
def definite (read : Bytes → Option (Option ℕ × Bytes)) : Decoder ℕ := do
  let before ← remaining
  match ← ofOption .malformed read with
  | none => fail .indefiniteLength
  | some n =>
    let after ← remaining
    checkHeadWidth (before - after) (minimalUintHeadLen n)
    return n

def definiteMap : Decoder ℕ := definite readMap

def definiteArray : Decoder ℕ := definite readArray

theorem definite_eq_ok_iff {read : Bytes → Option (Option ℕ × Bytes)} {input rest : Bytes}
    {n : ℕ} :
    definite read input = .ok (n, rest) ↔
      read input = some (some n, rest) ∧ input.length = headLength n + rest.length := by
  have hpos := headLength_pos n
  simp only [definite, checkHeadWidth, bind_eq_ok, remaining_eq_ok, ofOption_eq_ok]
  constructor
  · rintro ⟨_, _, ⟨rfl, rfl⟩, _ | m, mid, hread, h⟩
    · exact absurd h fail_eq_ok
    · grind [bind_eq_ok, remaining_eq_ok, ensure_eq_ok, pure_eq_ok, minimalUintHeadLen_eq]
  · rintro ⟨hread, hlen⟩
    refine ⟨_, _, ⟨rfl, rfl⟩, some n, rest, hread, ?_⟩
    simp only [bind_eq_ok, remaining_eq_ok, ensure_eq_ok, pure_eq_ok, minimalUintHeadLen_eq]
    grind

theorem definiteMap_eq_ok_iff {input rest : Bytes} {n : ℕ} :
    definiteMap input = .ok (n, rest) ↔ input = head 5 n ++ rest ∧ n < 2 ^ 64 :=
  definite_eq_ok_iff.trans (lengthOf_and_length_iff (by decide))

theorem definiteArray_eq_ok_iff {input rest : Bytes} {n : ℕ} :
    definiteArray input = .ok (n, rest) ↔ input = head 4 n ++ rest ∧ n < 2 ^ 64 :=
  definite_eq_ok_iff.trans (lengthOf_and_length_iff (by decide))

/-! ## Values -/

/-- What the next item is. -/
def datatype : Decoder DataType := fun input =>
  match Cbor.datatype input with
  | some t => .ok (t, input)
  | none => .error .malformed

theorem datatype_eq_ok_iff {input rest : Bytes} {t : DataType} :
    datatype input = .ok (t, rest) ↔ Cbor.datatype input = some t ∧ rest = input := by
  grind [datatype]

def u64 (input : Bytes) : Option (UInt64 × Bytes) :=
  (readUInt input).map fun x => (.ofNat x.1, x.2)

def i64 (input : Bytes) : Option (Int64 × Bytes) :=
  (readInt input).map fun x => (.ofInt x.1, x.2)

def textLength (s : String) : ℕ := (utf8 s).length

def textValue : Decoder String := do
  match ← datatype with
  | .string => measured readText textLength fun s => minimalUintHeadLen (textLength s)
  | other => fail (.unexpectedType "text string" other)

def bytesValue : Decoder Bytes := do
  match ← datatype with
  | .bytes => measured readBytes List.length fun b => minimalUintHeadLen b.length
  | other => fail (.unexpectedType "byte string" other)

def uintValue : Decoder UInt64 := do
  match ← datatype with
  | .unsigned => measured u64 (fun _ => 0) fun v => minimalUintHeadLen v.toNat
  | other => fail (.unexpectedType "unsigned integer" other)

def intValue : Decoder Int64 := do
  match ← datatype with
  | .unsigned =>
    let v ← measured u64 (fun _ => 0) fun v => minimalUintHeadLen v.toNat
    if v.toNat < 2 ^ 63 then return .ofNat v.toNat
    else fail (.constraint "integer above i64::MAX where int expected")
  | .negative => measured i64 (fun _ => 0) minimalIntHeadLen
  | other => fail (.unexpectedType "integer" other)

section Values

variable {input rest : Bytes}

theorem u64_and_length_iff {v : UInt64} :
    u64 input = some (v, rest) ∧ input.length = headLength v.toNat + rest.length ↔
      input = uint v.toNat ++ rest := by
  constructor
  · rintro ⟨hread, hlen⟩
    obtain ⟨⟨n, left⟩, hn64, hv⟩ := Option.map_eq_some_iff.1 hread
    cases hv
    have hn : n < 2 ^ 64 := lt_of_readHead (ofMajor_eq_some_iff.1 hn64)
    grind [UInt64.toNat_ofNat_of_lt', readUInt_and_length_iff]
  · intro h
    obtain ⟨hread, hlen⟩ := readUInt_and_length_iff.2 ⟨h, v.toNat_lt⟩
    refine ⟨Option.map_eq_some_iff.2 ⟨_, hread, ?_⟩, hlen⟩
    rw [UInt64.ofNat_toNat]

theorem i64_and_length_iff {v : Int64} :
    i64 input = some (v, rest) ∧ input.length = (int v.toInt).length + rest.length ↔
      input = int v.toInt ++ rest := by
  have hle := v.le_toInt
  have hlt := v.toInt_lt
  constructor
  · rintro ⟨hread, hlen⟩
    obtain ⟨⟨n, left⟩, hn64, hv⟩ := Option.map_eq_some_iff.1 hread
    grind [bounds_of_readInt, Int64.toInt_ofInt_of_le, readInt_and_length_iff]
  · intro h
    obtain ⟨hread, hlen⟩ := readInt_and_length_iff.2 ⟨h, hle, hlt⟩
    refine ⟨Option.map_eq_some_iff.2 ⟨_, hread, ?_⟩, hlen⟩
    rw [Int64.ofInt_toInt]

theorem measured_u64_eq_ok_iff {v : UInt64} :
    measured u64 (fun _ => 0) (fun v => minimalUintHeadLen v.toNat) input = .ok (v, rest) ↔
      input = uint v.toNat ++ rest := by
  grind [measured_eq_ok_iff, headLength_pos, minimalUintHeadLen_eq, u64_and_length_iff]

theorem measured_readText_eq_ok_iff {s : String} :
    measured readText textLength (fun s => minimalUintHeadLen (textLength s)) input =
        .ok (s, rest) ↔
      input = text s ++ rest ∧ textLength s < 2 ^ 64 := by
  rw [measured_eq_ok_iff (by simpa using headLength_pos _), minimalUintHeadLen_eq]
  exact readText_and_length_iff

theorem textValue_eq_ok_iff {s : String} :
    textValue input = .ok (s, rest) ↔ input = text s ++ rest ∧ textLength s < 2 ^ 64 := by
  simp only [textValue, bind_eq_ok, datatype_eq_ok_iff]
  constructor
  · rintro ⟨t, _, ⟨-, rfl⟩, h⟩
    cases t <;> first | exact absurd h fail_eq_ok | exact measured_readText_eq_ok_iff.1 h
  · grind [measured_readText_eq_ok_iff, text, datatype_text]

theorem bytesValue_eq_ok_iff {b : Bytes} :
    bytesValue input = .ok (b, rest) ↔ input = bytes b ++ rest ∧ b.length < 2 ^ 64 := by
  have hmeasured : measured readBytes List.length (fun b => minimalUintHeadLen b.length) input =
      .ok (b, rest) ↔ input = bytes b ++ rest ∧ b.length < 2 ^ 64 := by
    rw [measured_eq_ok_iff (by simpa using headLength_pos _), minimalUintHeadLen_eq]
    exact readBytes_and_length_iff
  simp only [bytesValue, bind_eq_ok, datatype_eq_ok_iff]
  constructor
  · rintro ⟨t, _, ⟨-, rfl⟩, h⟩
    cases t <;> first | exact absurd h fail_eq_ok | exact hmeasured.1 h
  · grind [bytes, datatype_bytes]

theorem uintValue_eq_ok_iff {v : UInt64} :
    uintValue input = .ok (v, rest) ↔ input = uint v.toNat ++ rest := by
  simp only [uintValue, bind_eq_ok, datatype_eq_ok_iff]
  constructor
  · rintro ⟨t, _, ⟨-, rfl⟩, h⟩
    cases t <;> first | exact absurd h fail_eq_ok | exact measured_u64_eq_ok_iff.1 h
  · grind [measured_u64_eq_ok_iff, uint, datatype_uint]

theorem intValue_eq_ok_iff {v : Int64} :
    intValue input = .ok (v, rest) ↔ input = int v.toInt ++ rest := by
  have hmeasured : measured i64 (fun _ => 0) minimalIntHeadLen input = .ok (v, rest) ↔
      input = int v.toInt ++ rest := by
    have hpos : 0 < minimalIntHeadLen v := by
      rw [minimalIntHeadLen_eq]
      cases v.toInt <;> simp [int, headLength_pos]
    rw [measured_eq_ok_iff hpos, minimalIntHeadLen_eq, add_zero]
    exact i64_and_length_iff
  simp only [intValue, bind_eq_ok, datatype_eq_ok_iff]
  constructor
  · rintro ⟨t, _, ⟨-, rfl⟩, h⟩
    cases t <;> try exact absurd h fail_eq_ok
    case unsigned =>
      obtain ⟨n, mid, hn, h⟩ := bind_eq_ok.1 h
      rw [measured_u64_eq_ok_iff] at hn
      split_ifs at h with hlt
      · obtain ⟨rfl, rfl⟩ := pure_eq_ok.1 h
        rw [hn, Int64.toInt_ofNat_of_lt hlt]
        rfl
      · exact absurd h fail_eq_ok
    case negative => exact hmeasured.1 h
  · intro h
    cases hv : v.toInt with
    | ofNat n =>
      have hlt : n < 2 ^ 63 := by
        have := v.toInt_lt
        rw [hv, Int.ofNat_eq_natCast] at this
        omega
      have hn : (UInt64.ofNat n).toNat = n := UInt64.toNat_ofNat_of_lt' (by
        unfold UInt64.size
        omega)
      rw [hv] at h
      refine ⟨.unsigned, input, ⟨by rw [h, int, datatype_uint], rfl⟩, bind_eq_ok.2
        ⟨.ofNat n, rest, measured_u64_eq_ok_iff.2 (by rw [h, hn]; rfl), ?_⟩⟩
      grind [pure_eq_ok, Int64.toInt_inj, Int64.toInt_ofNat_of_lt]
    | negSucc n =>
      refine ⟨.negative, input, ⟨?_, rfl⟩, hmeasured.2 h⟩
      rw [h, hv, int, datatype_negative]

end Values

/-! ## Maps -/

section Maps

variable {K S : Type}

/-- An entry of a map, the key of which is to come after the previous one. -/
def orderedEntry (key : Decoder K) (encoded : K → Bytes) (entry : S → K → Decoder S)
    (x : S × KeyOrder) : Decoder (S × KeyOrder) := do
  let k ← key
  let order ← Reader.ofExcept (x.2.push (encoded k))
  return (← entry x.1 k, order)

/-- The loop over the entries of a map, the keys of which are to be in order. -/
def orderedMap (key : Decoder K) (encoded : K → Bytes) (entry : S → K → Decoder S) (s : S) :
    Decoder S := do
  let n ← definiteMap
  let (s, _) ← loop n (orderedEntry key encoded entry) (s, none)
  return s

/-- The encodings of the entries of a map, given the encodings of their values. -/
def encodedEntries (encoded : K → Bytes) (entries : List (K × Bytes)) : List (Bytes × Bytes) :=
  entries.map fun e => (encoded e.1, e.2)

/-- The keys of the entries are in order, and so without duplicates. -/
abbrev Ordered {V : Type} (encoded : K → Bytes) (entries : List (K × V)) : Prop :=
  SortedBy (fun e : K × V => cdeRank (encoded e.1)) entries

variable {key : Decoder K} {encoded : K → Bytes} {entry : S → K → Decoder S}

theorem orderedEntry_eq_ok_iff {s s' : S} {order order' : KeyOrder} {input rest : Bytes} :
    orderedEntry key encoded entry (s, order) input = .ok ((s', order'), rest) ↔
      ∃ k mid, key input = .ok (k, mid) ∧ (∀ prev ∈ order, cdeRank prev < cdeRank (encoded k)) ∧
        order' = some (encoded k) ∧ entry s k mid = .ok (s', rest) := by
  simp only [orderedEntry, bind_eq_ok, ofExcept_eq_ok, pure_eq_ok, KeyOrder.push_eq_ok_iff,
    Prod.mk.injEq]
  grind

/-- What the loop accepts is a map with its keys in order. What every entry keeps about the
    state and the entries so far, the loop keeps. -/
theorem orderedMap_exact {P : K → Prop} (Inv : S → List (K × Bytes) → Prop)
    (hkey : ∀ input k rest, key input = .ok (k, rest) → input = encoded k ++ rest ∧ P k)
    (hentry : ∀ s entries k input s' rest, Inv s entries → P k →
      (∀ e ∈ entries, cdeRank (encoded e.1) < cdeRank (encoded k)) →
      entry s k input = .ok (s', rest) →
        ∃ value, input = value ++ rest ∧ Inv s' (entries ++ [(k, value)]))
    {s s' : S} {input rest : Bytes} (hinv : Inv s [])
    (h : orderedMap key encoded entry s input = .ok (s', rest)) :
    ∃ entries, input = rawMap (encodedEntries encoded entries) ++ rest ∧
      entries.length < 2 ^ 64 ∧ Ordered encoded entries ∧ Inv s' entries := by
  simp only [orderedMap, bind_eq_ok, definiteMap_eq_ok_iff, pure_eq_ok] at h
  obtain ⟨n, body, ⟨rfl, hn⟩, ⟨_, order⟩, _, hloop, rfl, rfl⟩ := h
  have hloop := loop_exact (fun k (x : S × KeyOrder) taken =>
    ∃ entries : List (K × Bytes), taken = entries.flatMap (fun e => encoded e.1 ++ e.2) ∧
      entries.length = k ∧ Ordered encoded entries ∧
      (∀ b, (∀ prev ∈ x.2, cdeRank prev < b) → ∀ e ∈ entries, cdeRank (encoded e.1) < b) ∧
      Inv x.1 entries) ?_ ⟨[], rfl, rfl, List.Pairwise.nil, by simp, hinv⟩ hloop
  · grind [rawMap, encodedEntries, List.flatMap_map]
  · rintro k ⟨s, order⟩ taken input ⟨s', order'⟩ rest ⟨entries, rfl, rfl, hsorted, hprev, hinv⟩ h
    obtain ⟨k, mid, hk, hlt, rfl, hstep⟩ := orderedEntry_eq_ok_iff.1 h
    obtain ⟨rfl, hP⟩ := hkey _ _ _ hk
    have hbefore := hprev _ hlt
    obtain ⟨value, rfl, hinv⟩ := hentry _ _ _ _ _ _ hinv hP hbefore hstep
    refine ⟨encoded k ++ value, by simp, entries ++ [(k, value)], by simp, by simp, ?_, ?_, hinv⟩
    · exact sortedBy_append.2 ⟨hsorted, List.pairwise_singleton _ _, by simpa using hbefore⟩
    · grind

/-- The loop reads back a map with its keys in order, the state being what it is to be after
    each entry. -/
theorem orderedMap_writes {X : Type} (keyOf : X → K) (value : X → Bytes) (state : List X → S)
    {s : S} (hinit : state [] = s) {items : List X} (hlen : items.length < 2 ^ 64)
    (hsorted : SortedBy (fun x => cdeRank (encoded (keyOf x))) items)
    (hkey : ∀ x ∈ items, ∀ rest, key (encoded (keyOf x) ++ rest) = .ok (keyOf x, rest))
    (hentry : ∀ before x after rest, items = before ++ x :: after →
      entry (state before) (keyOf x) (value x ++ rest) = .ok (state (before ++ [x]), rest))
    (rest : Bytes) :
    orderedMap key encoded entry s
        (rawMap (items.map fun x => (encoded (keyOf x), value x)) ++ rest) =
      .ok (state items, rest) := by
  subst hinit
  simp only [orderedMap, bind_eq_ok, definiteMap_eq_ok_iff, pure_eq_ok]
  refine ⟨items.length, items.flatMap (fun x => encoded (keyOf x) ++ value x) ++ rest, ⟨?_, hlen⟩,
    (state items, items.getLast?.map fun x => encoded (keyOf x)), rest, ?_, rfl, rfl⟩
  · simp [rawMap, List.flatMap_map]
  · refine loop_writes (fun done : List X =>
      (state done, done.getLast?.map fun x => encoded (keyOf x))) ?_ rest
    intro before x after rest hitems
    rw [List.append_assoc]
    refine orderedEntry_eq_ok_iff.2 ⟨_, _, hkey x (by simp [hitems]) _, ?_, by simp,
      hentry before x after rest hitems⟩
    intro prev hprev
    obtain ⟨y, hy, rfl⟩ := Option.map_eq_some_iff.1 hprev
    rw [hitems] at hsorted
    exact (sortedBy_append.1 hsorted).2.2 y (List.mem_of_getLast? hy) x List.mem_cons_self

end Maps

end WireMesh.Rust.Wire
