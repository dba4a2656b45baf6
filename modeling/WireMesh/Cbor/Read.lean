import Mathlib.Tactic.IntervalCases
import Mathlib.Tactic.Ring
import WireMesh.Cbor

/-!
# Reading CBOR heads

The head of an item is its first byte, of a major type and an information, with
the bytes of an argument that the information calls for (`argument`). A head may
be longer than its argument needs; one that is not is the head of the
deterministic encoding.

* `readHead_and_length_iff` says so of heads, and the lemmas after it of the items
  that are read whole.
* `Item.skip_append`: an item of a deterministic encoding is skipped exactly.
-/

namespace WireMesh.Cbor

/-! ## Numbers -/

/-- The number with the given bytes, the most significant first. -/
def ofBigEndian (b : Bytes) : ℕ := b.foldl (fun n x => 256 * n + x.toNat) 0

@[simp]
theorem length_bigEndian (k n : ℕ) : (bigEndian k n).length = k := by
  induction k generalizing n with
  | zero => rfl
  | succ k ih => simp [bigEndian, ih]

theorem ofBigEndian_append_singleton (b : Bytes) (x : UInt8) :
    ofBigEndian (b ++ [x]) = 256 * ofBigEndian b + x.toNat := by
  simp [ofBigEndian]

theorem ofBigEndian_lt (b : Bytes) : ofBigEndian b < 256 ^ b.length := by
  induction b using List.reverseRecOn with
  | nil => simp [ofBigEndian]
  | append_singleton b x ih => grind [UInt8.toNat_lt, ofBigEndian_append_singleton]

theorem ofBigEndian_cons (x : UInt8) (b : Bytes) :
    ofBigEndian (x :: b) = 256 ^ b.length * x.toNat + ofBigEndian b := by
  induction b using List.reverseRecOn with
  | nil => simp [ofBigEndian]
  | append_singleton b y ih =>
    grind [ofBigEndian_append_singleton, List.length_append, List.length_singleton, pow_succ]

theorem bigEndian_ofBigEndian (b : Bytes) : bigEndian b.length (ofBigEndian b) = b := by
  induction b using List.reverseRecOn with
  | nil => rfl
  | append_singleton b x ih =>
    have hx := x.toNat_lt
    have hdiv : (256 * ofBigEndian b + x.toNat) / 256 = ofBigEndian b := by omega
    have hlow : UInt8.ofNat (256 * ofBigEndian b + x.toNat) = x := by
      rw [← UInt8.toNat_inj, UInt8.toNat_ofNat']
      omega
    rw [ofBigEndian_append_singleton, List.length_append, List.length_singleton, bigEndian, hdiv,
      ih, hlow]

theorem ofBigEndian_bigEndian {k n : ℕ} (h : n < 256 ^ k) : ofBigEndian (bigEndian k n) = n := by
  induction k generalizing n with
  | zero =>
    rw [pow_zero, Nat.lt_one_iff] at h
    rw [h]
    rfl
  | succ k ih => grind [bigEndian, ofBigEndian_append_singleton, UInt8.toNat_ofNat']

theorem compare_eq_compare_toNat (x y : UInt8) : compare x y = compare x.toNat y.toNat := by
  change compareOfLessAndEq x y = compareOfLessAndEq x.toNat y.toNat
  simp only [compareOfLessAndEq, UInt8.lt_iff_toNat_lt, ← UInt8.toNat_inj]

/-- Bytes of one length are ordered as the numbers they are. -/
theorem compare_eq_compare_ofBigEndian {a b : Bytes} (h : a.length = b.length) :
    compare a b = compare (ofBigEndian a) (ofBigEndian b) := by
  induction a generalizing b with
  | nil =>
    rw [List.eq_nil_of_length_eq_zero h.symm]
    rfl
  | cons x a ih =>
    cases b with
    | nil => simp at h
    | cons y b =>
      have h : a.length = b.length := by simpa using h
      have ha : ofBigEndian a < 256 ^ b.length := h ▸ ofBigEndian_lt a
      have hb := ofBigEndian_lt b
      have hcons : compare (x :: a) (y :: b) = (compare x y).then (compare a b) :=
        List.compareLex_cons_cons
      rw [hcons, ih h, compare_eq_compare_toNat, ofBigEndian_cons, ofBigEndian_cons, h]
      -- The first byte decides, unless it is the same.
      rcases lt_trichotomy x.toNat y.toNat with hxy | hxy | hxy
      · have hle := Nat.mul_le_mul_left (256 ^ b.length) (Nat.succ_le_of_lt hxy)
        grind [Nat.compare_eq_lt, Ordering.lt_then]
      · grind [Nat.compare_eq_ite_lt]
      · have hle := Nat.mul_le_mul_left (256 ^ b.length) (Nat.succ_le_of_lt hxy)
        grind [Nat.compare_eq_gt, Ordering.gt_then]

/-! ## Heads -/

/-- A number of bytes off the input. -/
def takeBytes (k : ℕ) (input : Bytes) : Option (Bytes × Bytes) :=
  if k ≤ input.length then some (input.take k, input.drop k) else none

theorem takeBytes_eq_some_iff {k : ℕ} {input b rest : Bytes} :
    takeBytes k input = some (b, rest) ↔ b.length = k ∧ input = b ++ rest := by
  grind [takeBytes, List.take_append_drop]

/-- How many bytes of argument an information from 24 on calls for. -/
def argumentWidth : ℕ → Option ℕ
  | 24 => some 1
  | 25 => some 2
  | 26 => some 4
  | 27 => some 8
  | _ => none

theorem argumentWidth_eq_some_iff {info k : ℕ} :
    argumentWidth info = some k ↔
      info = 24 ∧ k = 1 ∨ info = 25 ∧ k = 2 ∨ info = 26 ∧ k = 4 ∨ info = 27 ∧ k = 8 := by
  unfold argumentWidth
  split <;> simp_all [eq_comm]

theorem argumentWidth_inj {info info' k : ℕ} (h : argumentWidth info = some k)
    (h' : argumentWidth info' = some k) : info = info' := by
  rw [argumentWidth_eq_some_iff] at h h'
  omega

/-- The argument of a head, given the information in its first byte and what comes after. -/
def argument (info : ℕ) (input : Bytes) : Option (ℕ × Bytes) :=
  if info < 24 then some (info, input)
  else match argumentWidth info with
    | none => none
    | some k => (takeBytes k input).map fun x => (ofBigEndian x.1, x.2)

theorem argument_of_lt {info : ℕ} (h : info < 24) (input : Bytes) :
    argument info input = some (info, input) := by
  rw [argument, if_pos h]

theorem argument_eq_some_iff {info k : ℕ} (hinfo : ¬info < 24) (hk : argumentWidth info = some k)
    {input rest : Bytes} {n : ℕ} :
    argument info input = some (n, rest) ↔
      ∃ b : Bytes, b.length = k ∧ input = b ++ rest ∧ n = ofBigEndian b := by
  rw [argument, if_neg hinfo, hk]
  constructor
  · grind [Option.map_eq_some_iff, takeBytes_eq_some_iff]
  · rintro ⟨b, hlen, rfl, rfl⟩
    exact Option.map_eq_some_iff.2 ⟨(b, rest), takeBytes_eq_some_iff.2 ⟨hlen, rfl⟩, rfl⟩

/-- An argument is a number of at most eight bytes. -/
theorem lt_of_argument {info : ℕ} {input rest : Bytes} {n : ℕ}
    (h : argument info input = some (n, rest)) : n < 2 ^ 64 := by
  by_cases hinfo : info < 24
  · rw [argument_of_lt hinfo] at h
    cases h
    omega
  · cases hk : argumentWidth info with
    | none => simp [argument, hinfo, hk] at h
    | some k =>
      obtain ⟨b, rfl, -, rfl⟩ := (argument_eq_some_iff hinfo hk).1 h
      have hk8 : b.length ≤ 8 := by
        rw [argumentWidth_eq_some_iff] at hk
        omega
      calc ofBigEndian b < 256 ^ b.length := ofBigEndian_lt b
        _ ≤ 256 ^ 8 := Nat.pow_le_pow_right (by decide) hk8
        _ = 2 ^ 64 := by norm_num

/-- The length of the head of an argument, in the shortest width. -/
def headLength (n : ℕ) : ℕ :=
  if n < 24 then 1 else if n < 2 ^ 8 then 2 else if n < 2 ^ 16 then 3 else if n < 2 ^ 32 then 5
  else 9

@[simp]
theorem length_head (major n : ℕ) : (head major n).length = headLength n := by
  unfold head headLength
  split_ifs <;> simp

theorem headLength_pos (n : ℕ) : 0 < headLength n := by
  unfold headLength
  split_ifs <;> decide

theorem head_of_lt {n : ℕ} (h : n < 24) (major : ℕ) :
    head major n = [UInt8.ofNat (32 * major + n)] := by
  rw [head, if_pos h]

/-- The head of an argument from 24 on has an information that calls for as many bytes as the
    argument needs. -/
theorem exists_head_eq {n : ℕ} (h24 : ¬n < 24) (hn : n < 2 ^ 64) :
    ∃ info k, ¬info < 24 ∧ info < 32 ∧ argumentWidth info = some k ∧ n < 256 ^ k ∧
      headLength n = k + 1 ∧
      ∀ major, head major n = UInt8.ofNat (32 * major + info) :: bigEndian k n := by
  unfold head headLength
  rw [if_neg h24]
  split_ifs with h8 h16 h32
  · exact ⟨24, 1, by decide, by decide, rfl, by simpa using h8, rfl, fun _ => rfl⟩
  · exact ⟨25, 2, by decide, by decide, rfl, by simpa using h16, rfl, fun _ => rfl⟩
  · exact ⟨26, 4, by decide, by decide, rfl, by simpa using h32, rfl, fun _ => rfl⟩
  · exact ⟨27, 8, by decide, by decide, rfl, by simpa using hn, rfl, fun _ => rfl⟩

/-- The head of an item: its major type, its argument, and what comes after. -/
def readHead : Bytes → Option (ℕ × ℕ × Bytes)
  | [] => none
  | b :: input => (argument (b.toNat % 32) input).map fun x => (b.toNat / 32, x)

theorem readHead_cons_eq_some_iff {b : UInt8} {input rest : Bytes} {major n : ℕ} :
    readHead (b :: input) = some (major, n, rest) ↔
      b.toNat / 32 = major ∧ argument (b.toNat % 32) input = some (n, rest) := by
  grind [readHead, Option.map_eq_some_iff]

theorem lt_of_readHead {input rest : Bytes} {major n : ℕ}
    (h : readHead input = some (major, n, rest)) : n < 2 ^ 64 := by
  cases input with
  | nil => cases h
  | cons b input => exact lt_of_argument (readHead_cons_eq_some_iff.1 h).2

/-- A head is that of the deterministic encoding iff it is not longer than its argument
    needs. -/
theorem readHead_and_length_iff {input rest : Bytes} {major n : ℕ} :
    readHead input = some (major, n, rest) ∧ input.length = headLength n + rest.length ↔
      input = head major n ++ rest ∧ major < 8 ∧ n < 2 ^ 64 := by
  constructor
  · rintro ⟨hread, hlen⟩
    cases input with
    | nil => cases hread
    | cons b input =>
      obtain ⟨rfl, harg⟩ := readHead_cons_eq_some_iff.1 hread
      have hb := b.toNat_lt
      have hn := lt_of_argument harg
      refine ⟨?_, by omega, hn⟩
      by_cases hinfo : b.toNat % 32 < 24
      · grind [argument_of_lt, head_of_lt, UInt8.ofNat_toNat]
      · obtain ⟨k, hk⟩ : ∃ k, argumentWidth (b.toNat % 32) = some k := by grind [argument]
        obtain ⟨taken, rfl, rfl, rfl⟩ := (argument_eq_some_iff hinfo hk).1 harg
        have hwidth : headLength (ofBigEndian taken) = taken.length + 1 := by grind
        have h24 : ¬ofBigEndian taken < 24 := by grind [headLength, argumentWidth_eq_some_iff]
        obtain ⟨info, k, -, -, hk', -, hwidth', hhead⟩ := exists_head_eq h24 hn
        grind [argumentWidth_inj, UInt8.ofNat_toNat, bigEndian_ofBigEndian]
  · rintro ⟨rfl, hmajor, hn⟩
    refine ⟨?_, by simp⟩
    by_cases h24 : n < 24
    · grind [UInt8.toNat_ofNat_of_lt', head_of_lt, readHead_cons_eq_some_iff, argument_of_lt]
    · obtain ⟨info, k, hinfo, hinfo', hk, hfits, -, hhead⟩ := exists_head_eq h24 hn
      grind [UInt8.toNat_ofNat_of_lt', readHead_cons_eq_some_iff, argument_eq_some_iff,
        length_bigEndian, ofBigEndian_bigEndian]

/-! ## Items -/

/-- What the first byte of an item says that it is, the widths of numbers left out. -/
inductive DataType
  | unsigned
  | negative
  | bytes
  | bytesIndef
  | string
  | stringIndef
  | array
  | arrayIndef
  | map
  | mapIndef
  | tag
  | simple
  | bool
  | null
  | undefined
  | float
  | break
  | unknown
deriving DecidableEq

/-- An item of a length: its head may have an argument, or say that it is indefinite. -/
def ofLength (definite indefinite : DataType) (info : ℕ) : DataType :=
  if info < 28 then definite else if info = 31 then indefinite else .unknown

def typeOf (b : UInt8) : DataType :=
  let info := b.toNat % 32
  match b.toNat / 32 with
  | 0 => ofLength .unsigned .unknown info
  | 1 => ofLength .negative .unknown info
  | 2 => ofLength .bytes .bytesIndef info
  | 3 => ofLength .string .stringIndef info
  | 4 => ofLength .array .arrayIndef info
  | 5 => ofLength .map .mapIndef info
  | 6 => ofLength .tag .unknown info
  | _ =>
    if info < 20 then .simple
    else match info with
      | 20 => .bool
      | 21 => .bool
      | 22 => .null
      | 23 => .undefined
      | 24 => .simple
      | 25 => .float
      | 26 => .float
      | 27 => .float
      | 31 => .break
      | _ => .unknown

def datatype (input : Bytes) : Option DataType := input.head?.map typeOf

/-- The argument of a head of the given major type. -/
def ofMajor (major : ℕ) (input : Bytes) : Option (ℕ × Bytes) :=
  match readHead input with
  | some (m, x) => if m = major then some x else none
  | none => none

/-- The length in a head of the given major type, if it is definite. -/
def lengthOf (major : ℕ) (input : Bytes) : Option (Option ℕ × Bytes) :=
  match input with
  | [] => none
  | b :: rest =>
    if b.toNat = 32 * major + 31 then some (none, rest)
    else (ofMajor major input).map fun x => (some x.1, x.2)

def readUInt (input : Bytes) : Option (ℕ × Bytes) := ofMajor 0 input

/-- An integer of 64 bits with a sign. -/
def readInt (input : Bytes) : Option (ℤ × Bytes) :=
  match readHead input with
  | some (0, n, rest) => if n < 2 ^ 63 then some (n, rest) else none
  | some (1, n, rest) => if n < 2 ^ 63 then some (Int.negSucc n, rest) else none
  | _ => none

def readBytes (input : Bytes) : Option (Bytes × Bytes) := do
  let (n, rest) ← ofMajor 2 input
  takeBytes n rest

/-- The text with the given encoding, if it is one. -/
def ofUtf8 (b : Bytes) : Option String := String.fromUTF8? ⟨b.toArray⟩

def readText (input : Bytes) : Option (String × Bytes) := do
  let (n, rest) ← ofMajor 3 input
  let (b, rest) ← takeBytes n rest
  return (← ofUtf8 b, rest)

def readArray (input : Bytes) : Option (Option ℕ × Bytes) := lengthOf 4 input

def readMap (input : Bytes) : Option (Option ℕ × Bytes) := lengthOf 5 input

def readNull : Bytes → Option (Unit × Bytes)
  | 0xf6 :: rest => some ((), rest)
  | _ => none

def readBool : Bytes → Option (Bool × Bytes)
  | 0xf4 :: rest => some (false, rest)
  | 0xf5 :: rest => some (true, rest)
  | _ => none

/-! ### What is read -/

section Specs

variable {input rest : Bytes} {major n : ℕ}

theorem exists_head_eq_cons (hmajor : major < 8) (n : ℕ) :
    ∃ (b : UInt8) (tail : Bytes), head major n = b :: tail ∧ b.toNat / 32 = major ∧
      b.toNat % 32 < 28 := by
  have hb : ∀ info, info < 28 →
      (UInt8.ofNat (32 * major + info)).toNat / 32 = major ∧
        (UInt8.ofNat (32 * major + info)).toNat % 32 < 28 := by grind [UInt8.toNat_ofNat_of_lt']
  unfold head
  split_ifs
  · exact ⟨_, _, rfl, hb n (by omega)⟩
  · exact ⟨_, _, rfl, hb 24 (by decide)⟩
  · exact ⟨_, _, rfl, hb 25 (by decide)⟩
  · exact ⟨_, _, rfl, hb 26 (by decide)⟩
  · exact ⟨_, _, rfl, hb 27 (by decide)⟩

theorem datatype_head_append (hmajor : major < 8) (n : ℕ) (rest : Bytes) :
    ∃ b : UInt8, datatype (head major n ++ rest) = some (typeOf b) ∧ b.toNat / 32 = major ∧
      b.toNat % 32 < 28 := by
  obtain ⟨b, tail, hhead, hb⟩ := exists_head_eq_cons hmajor n
  exact ⟨b, by rw [hhead]; rfl, hb⟩

@[simp]
theorem datatype_uint (n : ℕ) (rest : Bytes) : datatype (head 0 n ++ rest) = some .unsigned := by
  obtain ⟨b, h, hmajor, hinfo⟩ := datatype_head_append (by decide : 0 < 8) n rest
  simp [h, typeOf, hmajor, ofLength, hinfo]

@[simp]
theorem datatype_negative (n : ℕ) (rest : Bytes) :
    datatype (head 1 n ++ rest) = some .negative := by
  obtain ⟨b, h, hmajor, hinfo⟩ := datatype_head_append (by decide : 1 < 8) n rest
  simp [h, typeOf, hmajor, ofLength, hinfo]

@[simp]
theorem datatype_bytes (n : ℕ) (rest : Bytes) : datatype (head 2 n ++ rest) = some .bytes := by
  obtain ⟨b, h, hmajor, hinfo⟩ := datatype_head_append (by decide : 2 < 8) n rest
  simp [h, typeOf, hmajor, ofLength, hinfo]

@[simp]
theorem datatype_text (n : ℕ) (rest : Bytes) : datatype (head 3 n ++ rest) = some .string := by
  obtain ⟨b, h, hmajor, hinfo⟩ := datatype_head_append (by decide : 3 < 8) n rest
  simp [h, typeOf, hmajor, ofLength, hinfo]

@[simp]
theorem datatype_array (n : ℕ) (rest : Bytes) : datatype (head 4 n ++ rest) = some .array := by
  obtain ⟨b, h, hmajor, hinfo⟩ := datatype_head_append (by decide : 4 < 8) n rest
  simp [h, typeOf, hmajor, ofLength, hinfo]

@[simp]
theorem datatype_map (n : ℕ) (rest : Bytes) : datatype (head 5 n ++ rest) = some .map := by
  obtain ⟨b, h, hmajor, hinfo⟩ := datatype_head_append (by decide : 5 < 8) n rest
  simp [h, typeOf, hmajor, ofLength, hinfo]

theorem ofMajor_eq_some_iff :
    ofMajor major input = some (n, rest) ↔ readHead input = some (major, n, rest) := by
  grind [ofMajor]

theorem ofMajor_and_length_iff (hmajor : major < 8) :
    ofMajor major input = some (n, rest) ∧ input.length = headLength n + rest.length ↔
      input = head major n ++ rest ∧ n < 2 ^ 64 := by
  rw [ofMajor_eq_some_iff, readHead_and_length_iff]
  simp [hmajor]

theorem lengthOf_and_length_iff (hmajor : major < 7) :
    lengthOf major input = some (some n, rest) ∧ input.length = headLength n + rest.length ↔
      input = head major n ++ rest ∧ n < 2 ^ 64 := by
  rw [← ofMajor_and_length_iff (by omega), and_congr_left_iff]
  intro hlen
  cases input with
  | nil => simp [lengthOf, ofMajor, readHead]
  | cons b input =>
    rw [lengthOf]
    by_cases hb : b.toNat = 32 * major + 31
    · -- An indefinite head has no argument.
      have hnone : ofMajor major (b :: input) ≠ some (n, rest) := by
        rw [ne_eq, ofMajor_eq_some_iff, readHead_cons_eq_some_iff]
        rintro ⟨-, harg⟩
        rw [show b.toNat % 32 = 31 by omega] at harg
        cases harg
      simp [hb, hnone]
    · grind [Option.map_eq_some_iff]

theorem readUInt_and_length_iff :
    readUInt input = some (n, rest) ∧ input.length = headLength n + rest.length ↔
      input = uint n ++ rest ∧ n < 2 ^ 64 :=
  ofMajor_and_length_iff (by decide)

theorem readInt_eq_some_iff {v : ℤ} :
    readInt input = some (v, rest) ↔
      match v with
      | .ofNat n => readHead input = some (0, n, rest) ∧ n < 2 ^ 63
      | .negSucc n => readHead input = some (1, n, rest) ∧ n < 2 ^ 63 := by
  unfold readInt
  rcases readHead input with _ | ⟨_ | _ | m, k, left⟩
  · cases v <;> simp
  · cases v <;> by_cases hk : k < 2 ^ 63 <;> simp <;> grind
  · cases v <;> by_cases hk : k < 2 ^ 63 <;> simp <;> grind
  · cases v <;> simp

theorem bounds_of_readInt {v : ℤ} (h : readInt input = some (v, rest)) :
    -2 ^ 63 ≤ v ∧ v < 2 ^ 63 := by
  rw [readInt_eq_some_iff] at h
  cases v with
  | ofNat n =>
    rw [Int.ofNat_eq_natCast]
    omega
  | negSucc n => omega

theorem readInt_and_length_iff {v : ℤ} :
    readInt input = some (v, rest) ∧ input.length = (int v).length + rest.length ↔
      input = int v ++ rest ∧ -2 ^ 63 ≤ v ∧ v < 2 ^ 63 := by
  rw [readInt_eq_some_iff]
  cases v with
  | ofNat n => grind [int, length_head, readHead_and_length_iff]
  | negSucc n => grind [int, length_head, readHead_and_length_iff]

theorem readBytes_and_length_iff {b : Bytes} :
    readBytes input = some (b, rest) ∧
        input.length = headLength b.length + b.length + rest.length ↔
      input = bytes b ++ rest ∧ b.length < 2 ^ 64 := by
  simp only [readBytes, Option.bind_eq_bind, Option.bind_eq_some_iff, Prod.exists]
  constructor
  · grind [takeBytes_eq_some_iff, ofMajor_and_length_iff, bytes]
  · rintro ⟨rfl, hn⟩
    refine ⟨⟨b.length, b ++ rest, ?_, takeBytes_eq_some_iff.2 ⟨rfl, rfl⟩⟩,
      by simp [bytes, add_assoc]⟩
    grind [bytes, ofMajor_and_length_iff]

theorem ofUtf8_eq_some_iff {b : Bytes} {s : String} : ofUtf8 b = some s ↔ utf8 s = b := by
  rw [ofUtf8, String.fromUTF8?]
  split
  next h =>
    rw [Option.some.injEq]
    constructor
    · rintro rfl
      rfl
    · rintro rfl
      rfl
  next h =>
    refine ⟨nofun, ?_⟩
    rintro rfl
    exact absurd s.isValidUTF8 h

theorem readText_and_length_iff {s : String} :
    readText input = some (s, rest) ∧
        input.length = headLength (utf8 s).length + (utf8 s).length + rest.length ↔
      input = text s ++ rest ∧ (utf8 s).length < 2 ^ 64 := by
  simp only [readText, Option.bind_eq_bind, Option.bind_eq_some_iff, Option.pure_def,
    Option.some.injEq, Prod.mk.injEq, Prod.exists]
  constructor
  · grind [takeBytes_eq_some_iff, ofUtf8_eq_some_iff, ofMajor_and_length_iff, text]
  · rintro ⟨rfl, hn⟩
    refine ⟨⟨(utf8 s).length, utf8 s ++ rest, ?_, utf8 s, rest, takeBytes_eq_some_iff.2 ⟨rfl, rfl⟩,
      s, ofUtf8_eq_some_iff.2 rfl, rfl, rfl⟩, by simp [text, add_assoc]⟩
    grind [text, ofMajor_and_length_iff]

end Specs

/-! ## Skipping -/

/-- A map with its entries as they are given. -/
def rawMap (entries : List (Bytes × Bytes)) : Bytes :=
  head 5 entries.length ++ entries.flatMap fun e => e.1 ++ e.2

/-- The encodings of items with definite lengths and heads in their shortest width. -/
inductive Item : Bytes → Prop
  | uint {n : ℕ} (h : n < 2 ^ 64) : Item (head 0 n)
  | negative {n : ℕ} (h : n < 2 ^ 64) : Item (head 1 n)
  | bytes {b : Bytes} (h : b.length < 2 ^ 64) : Item (bytes b)
  | text {s : String} (h : (utf8 s).length < 2 ^ 64) : Item (text s)
  | array {items : List Bytes} (h : items.length < 2 ^ 64) (hitems : ∀ b ∈ items, Item b) :
    Item (array items)
  | map {entries : List (Bytes × Bytes)} (h : entries.length < 2 ^ 64)
    (hkeys : ∀ e ∈ entries, Item e.1) (hvalues : ∀ e ∈ entries, Item e.2) : Item (rawMap entries)
  | bool (b : Bool) : Item (bool b)
  | null : Item null

/-- A number of items in a row. -/
def skipTimes (skip : Bytes → Option Bytes) : ℕ → Bytes → Option Bytes
  | 0, input => some input
  | n + 1, input => do skipTimes skip n (← skip input)

/-- Items up to a break, which is skipped too. -/
def skipToBreak (skip : Bytes → Option Bytes) : ℕ → Bytes → Option Bytes
  | 0, _ => none
  | fuel + 1, input =>
    if input.head? = some 0xff then some input.tail else do skipToBreak skip fuel (← skip input)

/-- The width of the argument of a simple value or a float. -/
def simpleWidth (info : ℕ) : ℕ := (argumentWidth info).getD 0

def skipFuel : ℕ → Bytes → Option Bytes
  | 0, _ => none
  | fuel + 1, input => do
    match ← datatype input with
    | .unsigned | .negative => return (← readHead input).2.2
    | .bytes => return (← readBytes input).2
    | .string => return (← readText input).2
    | .bytesIndef =>
      skipToBreak (fun input => do return (← readBytes input).2) (fuel + 1) input.tail
    | .stringIndef =>
      skipToBreak (fun input => do return (← readText input).2) (fuel + 1) input.tail
    | .array =>
      let (n, rest) ← ofMajor 4 input
      skipTimes (skipFuel fuel) n rest
    | .map =>
      let (n, rest) ← ofMajor 5 input
      skipTimes (skipFuel fuel) (2 * n) rest
    | .arrayIndef => skipToBreak (skipFuel fuel) (fuel + 1) input.tail
    | .mapIndef =>
      skipToBreak (fun input => do skipFuel fuel (← skipFuel fuel input)) (fuel + 1) input.tail
    | .tag => do skipFuel fuel (← readHead input).2.2
    | .simple | .float => do
      let b ← input.head?
      return (← takeBytes (simpleWidth (b.toNat % 32)) input.tail).2
    | .bool | .null | .undefined => some input.tail
    | .break | .unknown => none

/-- Skipping one item, whatever it is. -/
def skip (input : Bytes) : Option Bytes := skipFuel (input.length + 1) input

theorem skipTimes_flatten {skip : Bytes → Option Bytes} {items : List Bytes}
    (h : ∀ b ∈ items, ∀ rest, skip (b ++ rest) = some rest) (rest : Bytes) :
    skipTimes skip items.length (items.flatten ++ rest) = some rest := by
  induction items with
  | nil => rfl
  | cons b items ih => grind [skipTimes]

theorem rawMap_eq_flatten (entries : List (Bytes × Bytes)) :
    rawMap entries = head 5 entries.length ++ (entries.flatMap fun e => [e.1, e.2]).flatten := by
  simp [rawMap, List.flatMap_def, List.flatten_flatten, Function.comp_def]

theorem ofMajor_head {major n : ℕ} (hmajor : major < 8) (hn : n < 2 ^ 64) (rest : Bytes) :
    ofMajor major (head major n ++ rest) = some (n, rest) :=
  ((ofMajor_and_length_iff hmajor).2 ⟨rfl, hn⟩).1

/-- The parts of an item are skipped with one less of fuel. -/
theorem skipFuel_parts {fuel major n : ℕ} {items : List Bytes}
    (h : ∀ b ∈ items, b.length < fuel → ∀ rest, skipFuel fuel (b ++ rest) = some rest)
    (hfuel : (head major n ++ items.flatten).length < fuel + 1) (rest : Bytes) :
    skipTimes (skipFuel fuel) items.length (items.flatten ++ rest) = some rest := by
  refine skipTimes_flatten ?_ rest
  intro b hb
  refine h b hb ?_
  have hlen := List.Sublist.length_le (List.sublist_flatten_of_mem hb)
  grind [headLength_pos, length_head]

/-- An item is skipped exactly. -/
theorem Item.skipFuel_append {b : Bytes} (hb : Item b) :
    ∀ fuel, b.length < fuel → ∀ rest, skipFuel fuel (b ++ rest) = some rest := by
  induction hb with
  | uint hn =>
    rintro (_ | fuel) hfuel rest
    · omega
    · have hread := ofMajor_eq_some_iff.1 (ofMajor_head (by decide : 0 < 8) hn rest)
      simp [skipFuel, hread]
  | negative hn =>
    rintro (_ | fuel) hfuel rest
    · omega
    · have hread := ofMajor_eq_some_iff.1 (ofMajor_head (by decide : 1 < 8) hn rest)
      simp [skipFuel, hread]
  | @bytes b hn =>
    rintro (_ | fuel) hfuel rest
    · omega
    · have hread : readBytes (Cbor.bytes b ++ rest) = some (b, rest) :=
        (readBytes_and_length_iff.2 ⟨rfl, hn⟩).1
      have htype : datatype (Cbor.bytes b ++ rest) = some .bytes := by
        rw [Cbor.bytes, List.append_assoc, datatype_bytes]
      simp [skipFuel, htype, hread]
  | @text s hn =>
    rintro (_ | fuel) hfuel rest
    · omega
    · have hread : readText (Cbor.text s ++ rest) = some (s, rest) :=
        (readText_and_length_iff.2 ⟨rfl, hn⟩).1
      have htype : datatype (Cbor.text s ++ rest) = some .string := by
        rw [Cbor.text, List.append_assoc, datatype_text]
      simp [skipFuel, htype, hread]
  | @array items hn hitems ih =>
    rintro (_ | fuel) hfuel rest
    · omega
    · have hparts := skipFuel_parts (fun b hb => ih b hb fuel) hfuel rest
      rw [Cbor.array, List.append_assoc]
      simp [skipFuel, ofMajor_head (by decide : 4 < 8) hn, hparts]
  | @map entries hn hkeys hvalues ihkeys ihvalues =>
    rintro (_ | fuel) hfuel rest
    · omega
    · rw [rawMap_eq_flatten] at hfuel ⊢
      have hparts := skipFuel_parts ?_ hfuel rest
      · have hlen : (entries.flatMap fun e => [e.1, e.2]).length = 2 * entries.length := by
          simp [List.length_flatMap, mul_comm]
        rw [hlen] at hparts
        rw [List.append_assoc]
        simp [skipFuel, ofMajor_head (by decide : 5 < 8) hn, hparts]
      · intro b hb
        simp only [List.mem_flatMap, List.mem_cons, List.not_mem_nil, or_false] at hb
        obtain ⟨e, he, rfl | rfl⟩ := hb
        · exact ihkeys e he fuel
        · exact ihvalues e he fuel
  | bool b =>
    rintro (_ | fuel) hfuel rest
    · omega
    · cases b <;> rfl
  | null =>
    rintro (_ | fuel) hfuel rest
    · omega
    · rfl

theorem Item.skip_append {b : Bytes} (hb : Item b) (rest : Bytes) :
    skip (b ++ rest) = some rest :=
  hb.skipFuel_append _ (by rw [List.length_append]; omega) rest

/-- No item is an initial part of another one. -/
theorem Item.append_inj {b b' rest rest' : Bytes} (hb : Item b) (hb' : Item b')
    (h : b ++ rest = b' ++ rest') : b = b' ∧ rest = rest' := by
  grind [skip_append, List.append_cancel_right]

/-! ## Telling items apart -/

/-- None of the encodings is an initial part of another one. -/
def Delimited (p : Bytes → Prop) : Prop :=
  ∀ b b', p b → p b' → ∀ rest rest', b ++ rest = b' ++ rest' → b = b'

theorem delimited_item : Delimited Item := fun _ _ hb hb' _ _ h => (hb.append_inj hb' h).1

theorem text_injective {s s' : String} (hs : (utf8 s).length < 2 ^ 64)
    (hs' : (utf8 s').length < 2 ^ 64) (h : text s = text s') : s = s' := by
  have hread : readText (text s ++ []) = some (s, []) := (readText_and_length_iff.2 ⟨rfl, hs⟩).1
  have hread' : readText (text s' ++ []) = some (s', []) :=
    (readText_and_length_iff.2 ⟨rfl, hs'⟩).1
  grind

theorem bytes_injective {b b' : Bytes} (hb : b.length < 2 ^ 64) (hb' : b'.length < 2 ^ 64)
    (h : bytes b = bytes b') : b = b' := by
  have hread : readBytes (bytes b ++ []) = some (b, []) := (readBytes_and_length_iff.2 ⟨rfl, hb⟩).1
  have hread' : readBytes (bytes b' ++ []) = some (b', []) :=
    (readBytes_and_length_iff.2 ⟨rfl, hb'⟩).1
  grind

theorem head_injective {major major' n n' : ℕ} (hmajor : major < 8) (hmajor' : major' < 8)
    (hn : n < 2 ^ 64) (hn' : n' < 2 ^ 64) (h : head major n = head major' n') :
    major = major' ∧ n = n' := by
  have hread := ofMajor_eq_some_iff.1 (ofMajor_head hmajor hn [])
  grind [ofMajor_eq_some_iff, ofMajor_head]

theorem item_int {n : ℤ} (h : n.natAbs < 2 ^ 64) : Item (int n) := by
  cases n with
  | ofNat n => exact .uint h
  | negSucc n =>
    rw [Int.natAbs_negSucc] at h
    exact .negative (Nat.lt_of_succ_lt h)

theorem int_injective {n n' : ℤ} (hn : n.natAbs < 2 ^ 64) (hn' : n'.natAbs < 2 ^ 64)
    (h : int n = int n') : n = n' := by
  cases n with
  | ofNat n =>
    cases n' with
    | ofNat n' => exact congrArg Int.ofNat (head_injective (by decide) (by decide) hn hn' h).2
    | negSucc n' =>
      rw [Int.natAbs_negSucc] at hn'
      cases (head_injective (by decide) (by decide) hn (Nat.lt_of_succ_lt hn') h).1
  | negSucc n =>
    rw [Int.natAbs_negSucc] at hn
    cases n' with
    | ofNat n' => cases (head_injective (by decide) (by decide) (Nat.lt_of_succ_lt hn) hn' h).1
    | negSucc n' =>
      rw [Int.natAbs_negSucc] at hn'
      exact congrArg Int.negSucc (head_injective (by decide) (by decide) (Nat.lt_of_succ_lt hn)
        (Nat.lt_of_succ_lt hn') h).2

/-- Entries in a row are told apart, if their keys are, and the values under one key. -/
theorem flatMap_entries_inj {p : Bytes → Prop} {q : Bytes → Bytes → Prop} (hp : Delimited p)
    (hq : ∀ key, Delimited (q key)) {entries entries' : List (Bytes × Bytes)}
    (h : ∀ e ∈ entries, p e.1 ∧ q e.1 e.2) (h' : ∀ e ∈ entries', p e.1 ∧ q e.1 e.2)
    (hlen : entries.length = entries'.length)
    (heq : (entries.flatMap fun e => e.1 ++ e.2) = entries'.flatMap fun e => e.1 ++ e.2) :
    entries = entries' := by
  induction entries generalizing entries' with
  | nil => exact (List.length_eq_zero_iff.1 hlen.symm).symm
  | cons e entries ih =>
    cases entries' with
    | nil => simp at hlen
    | cons e' entries' =>
      obtain ⟨⟨hkey, hvalue⟩, h⟩ := List.forall_mem_cons.1 h
      obtain ⟨⟨hkey', hvalue'⟩, h'⟩ := List.forall_mem_cons.1 h'
      simp only [List.flatMap_cons, List.append_assoc] at heq
      have hfst := hp _ _ hkey hkey' _ _ heq
      rw [hfst] at heq hvalue
      replace heq := List.append_cancel_left heq
      have hsnd := hq _ _ _ hvalue hvalue' _ _ heq
      grind [List.append_cancel_left]

/-- A map tells its entries. -/
theorem perm_of_map_eq {p : Bytes → Prop} {q : Bytes → Bytes → Prop} (hp : Delimited p)
    (hq : ∀ key, Delimited (q key)) {entries entries' : List (Bytes × Bytes)}
    (h : ∀ e ∈ entries, p e.1 ∧ q e.1 e.2) (h' : ∀ e ∈ entries', p e.1 ∧ q e.1 e.2)
    (hlen : entries.length < 2 ^ 64) (hlen' : entries'.length < 2 ^ 64)
    (heq : map entries = map entries') : entries.Perm entries' := by
  have hread := ofMajor_head (by decide : 5 < 8) hlen
    ((entries.insertionSort fun a b => a.1 ≤ b.1).flatMap fun e => e.1 ++ e.2)
  have hread' := ofMajor_head (by decide : 5 < 8) hlen'
    ((entries'.insertionSort fun a b => a.1 ≤ b.1).flatMap fun e => e.1 ++ e.2)
  rw [map, map] at heq
  rw [heq, hread', Option.some.injEq, Prod.mk.injEq] at hread
  obtain ⟨hlength, hflat⟩ := hread
  have hsort := flatMap_entries_inj hp hq
    (fun e he => h e ((List.mem_insertionSort _).1 he))
    (fun e he => h' e ((List.mem_insertionSort _).1 he))
    (by rw [List.length_insertionSort, List.length_insertionSort, hlength]) hflat.symm
  grind [List.perm_insertionSort]

end WireMesh.Cbor
