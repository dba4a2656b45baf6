import WireMesh.Rust.Wire.Record

/-!
# The order of keys, length first and bytewise

Maps are written, and their keys accepted, in the order of `cde_order`: the
shorter encodings first. Deterministic encoding asks for the bytewise order of
the encodings.

* `key_order_bytewise`: on texts and integers the two are one, as long as no key
  is longer than one of a greater major type.
* `key_order_differs`: the integer 24 and the empty text are told apart.
-/

namespace WireMesh.Rust.Wire

open Cbor

/-! ## Heads in bytewise order -/

theorem append_lt_append_of_lt {a b : Bytes} (hlen : a.length = b.length) (h : a < b)
    (x y : Bytes) : a ++ x < b ++ y := by
  induction a generalizing b with
  | nil =>
    rw [List.eq_nil_of_length_eq_zero hlen.symm] at h
    exact absurd h (List.lt_irrefl [])
  | cons c a ih =>
    cases b with
    | nil => cases hlen
    | cons d b =>
      rw [List.cons_append, List.cons_append, List.cons_lt_cons_iff]
      exact (List.cons_lt_cons_iff.1 h).imp_right fun ⟨hcd, hab⟩ =>
        ⟨hcd, ih (Nat.succ.inj hlen) hab⟩

/-- The information in the first byte of a head, and the width of what follows it. -/
def headForm (n : ℕ) : ℕ × ℕ :=
  if n < 24 then (n, 0) else if n < 2 ^ 8 then (24, 1) else if n < 2 ^ 16 then (25, 2)
  else if n < 2 ^ 32 then (26, 4) else (27, 8)

theorem head_eq (major n : ℕ) :
    head major n = UInt8.ofNat (32 * major + (headForm n).1) :: bigEndian (headForm n).2 n := by
  unfold head headForm
  split_ifs <;> rfl

theorem headForm_lt (n : ℕ) : (headForm n).1 < 32 := by
  unfold headForm
  split_ifs <;> grind

/-- A smaller argument has a smaller first byte, or the same width. -/
theorem headForm_of_lt {n n' : ℕ} (h : n < n') (h' : n' < 2 ^ 64) :
    (headForm n).1 < (headForm n').1 ∨ headForm n = headForm n' ∧ n' < 256 ^ (headForm n').2 := by
  unfold headForm
  split_ifs <;> grind

theorem compare_eq_lt_iff {a b : Bytes} : compare a b = .lt ↔ a < b := by
  induction a generalizing b with
  | nil =>
    cases b with
    | nil => decide
    | cons d b => exact iff_of_true rfl (List.nil_lt_cons d b)
  | cons c a ih =>
    cases b with
    | nil =>
      have hgt : compare (c :: a) [] = .gt := rfl
      exact iff_of_false (by simp [hgt]) (List.not_lt_nil _)
    | cons d b =>
      have hcons : compare (c :: a) (d :: b) = (compare c d).then (compare a b) :=
        List.compareLex_cons_cons
      rw [hcons, List.cons_lt_cons_iff, Ordering.then_eq_lt, ih, Std.compare_eq_lt,
        Std.LawfulEqOrd.compare_eq_iff_eq]

theorem bigEndian_lt_bigEndian {k n n' : ℕ} (h : n < n') (h' : n' < 256 ^ k) :
    bigEndian k n < bigEndian k n' := by
  rw [← compare_eq_lt_iff, compare_eq_compare_ofBigEndian (by simp), ofBigEndian_bigEndian h',
    ofBigEndian_bigEndian (h.trans h'), Nat.compare_eq_lt]
  exact h

/-- The first byte of a head decides, or the numbers that follow. -/
theorem head_append_lt {major major' n n' : ℕ} (hmajor' : major' < 8) (hn' : n' < 2 ^ 64)
    (h : major < major' ∨ major = major' ∧ n < n') (x y : Bytes) :
    head major n ++ x < head major' n' ++ y := by
  have hform := headForm_lt n
  have hform' := headForm_lt n'
  have hbyte : ∀ {i j : ℕ}, i < j → j < 256 → UInt8.ofNat i < UInt8.ofNat j := fun hij hj => by
    rw [UInt8.lt_iff_toNat_lt, UInt8.toNat_ofNat_of_lt' (hij.trans hj),
      UInt8.toNat_ofNat_of_lt' hj]
    exact hij
  rw [head_eq, head_eq, List.cons_append, List.cons_append, List.cons_lt_cons_iff]
  rcases h with hlt | ⟨rfl, hlt⟩
  · exact .inl (hbyte (by omega) (by omega))
  · rcases headForm_of_lt hlt hn' with hinfo | ⟨hform, hfits⟩
    · exact .inl (hbyte (by omega) (by omega))
    · rw [hform]
      exact .inr ⟨rfl, append_lt_append_of_lt (by simp) (bigEndian_lt_bigEndian hlt hfits) x y⟩

/-! ## Keys -/

theorem cdeRank_lt_iff {a b : Bytes} :
    cdeRank a < cdeRank b ↔ a.length < b.length ∨ a.length = b.length ∧ a < b := by
  rw [← Nat.compare_eq_lt, ← cdeOrder_eq, cdeOrder, Ordering.then_eq_lt, Nat.compare_eq_lt,
    Nat.compare_eq_eq, compare_eq_lt_iff]

namespace CborValue

/-- The keys that maps have on the wire. -/
def IsKey : CborValue → Prop
  | int _ | uint _ | text _ => True
  | _ => False

def majorType : CborValue → ℕ
  | uint _ => 0
  | int v => if 0 ≤ v.toInt then 0 else 1
  | bytes _ => 2
  | text _ => 3
  | array _ => 4
  | map _ => 5
  | null | bool _ => 7

/-- A key is a head, after which a text has as many bytes as the head's argument. -/
theorem IsKey.exists_head {k : CborValue} (hk : k.IsKey) (hcanonical : k.Canonical) :
    ∃ n content, k.encode = head k.majorType n ++ content ∧ n < 2 ^ 64 ∧ k.majorType < 8 ∧
      content.length = if k.majorType = 3 then n else 0 := by
  cases hcanonical with
  | int v =>
    have hle := v.le_toInt
    have hlt := v.toInt_lt
    rw [encode, majorType]
    generalize v.toInt = i at *
    cases i with
    | ofNat n => exact ⟨n, [], by simp [Cbor.int], by grind, by simp, by simp⟩
    | negSucc n => exact ⟨n, [], by simp [Cbor.int], by omega, by simp, by simp⟩
  | uint v => exact ⟨v.toNat, [], by simp [encode, Cbor.uint, majorType], v.toNat_lt,
      by simp [majorType], rfl⟩
  | @text s h => exact ⟨_, utf8 s, by rw [encode, Cbor.text]; rfl, h, by simp [majorType], rfl⟩
  | _ => exact hk.elim

theorem IsKey.encode_lt_of_majorType {a b : CborValue} (ha : a.IsKey) (hb : b.IsKey)
    (hca : a.Canonical) (hcb : b.Canonical) (h : a.majorType < b.majorType) :
    a.encode < b.encode := by
  obtain ⟨m, x, hea, -⟩ := ha.exists_head hca
  obtain ⟨n, y, heb, hn, hmajor8, -⟩ := hb.exists_head hcb
  rw [hea, heb]
  exact head_append_lt hmajor8 hn (.inl h) x y

/-- Of two keys the shorter one is before the other one, unless it is of a greater type. -/
theorem IsKey.encode_lt {a b : CborValue} (ha : a.IsKey) (hb : b.IsKey) (hca : a.Canonical)
    (hcb : b.Canonical)
    (hmajor : b.majorType < a.majorType → b.encode.length ≤ a.encode.length)
    (hlen : a.encode.length < b.encode.length) : a.encode < b.encode := by
  obtain ⟨m, x, hea, hm, hmajor8, hx⟩ := ha.exists_head hca
  obtain ⟨n, y, heb, hn, hmajor8', hy⟩ := hb.exists_head hcb
  rw [hea, heb] at hlen hmajor ⊢
  simp only [List.length_append, length_head, hx, hy] at hlen hmajor
  refine head_append_lt hmajor8' hn ?_ x y
  rcases lt_trichotomy a.majorType b.majorType with hlt | heq | hgt
  · exact .inl hlt
  · refine .inr ⟨heq, ?_⟩
    rw [heq] at hlen
    grind [headLength]
  · exact absurd (hmajor hgt) (by omega)

/-- Where no key is longer than one of a greater major type, keys are in bytewise order. -/
theorem IsKey.cdeRank_lt_iff {a b : CborValue} (ha : a.IsKey) (hb : b.IsKey) (hca : a.Canonical)
    (hcb : b.Canonical)
    (hab : a.majorType < b.majorType → a.encode.length ≤ b.encode.length)
    (hba : b.majorType < a.majorType → b.encode.length ≤ a.encode.length) :
    cdeRank a.encode < cdeRank b.encode ↔ a.encode < b.encode := by
  rw [Wire.cdeRank_lt_iff]
  rcases lt_trichotomy a.encode.length b.encode.length with hlen | hlen | hlen
  · exact iff_of_true (.inl hlen) (ha.encode_lt hb hca hcb hba hlen)
  · simp [hlen]
  · exact iff_of_false (by omega) (List.lt_asymm (hb.encode_lt ha hcb hca hab hlen))

end CborValue

/-- Relations that agree on the members of a list sort it in one way. -/
theorem insertionSort_congr {A : Type} {r r' : A → A → Prop} [DecidableRel r] [DecidableRel r']
    {l : List A} (h : ∀ a ∈ l, ∀ b ∈ l, (r a b ↔ r' a b)) :
    l.insertionSort r = l.insertionSort r' := by
  have hinsert : ∀ {a : A} {sorted : List A}, a ∈ l → (∀ b ∈ sorted, b ∈ l) →
      sorted.orderedInsert r a = sorted.orderedInsert r' a := by
    intro a sorted ha hsub
    induction sorted with
    | nil => rfl
    | cons b sorted ih =>
      simp only [List.orderedInsert]
      grind
  induction l with
  | nil => rfl
  | cons a l ih =>
    rw [List.insertionSort_cons, List.insertionSort_cons, ih (by grind) (by grind)]
    exact hinsert (by simp) (by simp +contextual)

/-- A builder whose keys are in bytewise order writes them in it. -/
theorem CdeMapBuilder.write_eq_map {entries : List (Bytes × Bytes)}
    (h : ∀ e ∈ entries, ∀ e' ∈ entries, (cdeRank e.1 < cdeRank e'.1 ↔ e.1 < e'.1)) :
    CdeMapBuilder.write entries = Cbor.map entries := by
  have hsort : entries.insertionSort (fun a b => cdeOrder a.1 b.1 ≠ .gt) =
      entries.insertionSort fun a b => a.1 ≤ b.1 := by
    refine insertionSort_congr fun e he e' he' => ?_
    rw [cdeOrder_ne_gt_iff, ← not_lt, h e' he' e he]
    exact Iff.rfl
  rw [CdeMapBuilder.write, Cbor.map, rawMap, hsort, List.length_insertionSort]

/-- The order of texts and integers as keys is the bytewise one of their encodings, in which maps
    are written and accepted, if and only if none of them is longer than one of a greater major
    type. -/
theorem key_order_bytewise (keys : List CborValue) (hkeys : ∀ k ∈ keys, k.IsKey ∧ k.Canonical) :
    ((∀ a ∈ keys, ∀ b ∈ keys,
      cdeOrder a.encode b.encode = compareOfLessAndEq a.encode b.encode ∧
      (KeyOrder.push (some a.encode) b.encode = .ok (some b.encode) ↔ a.encode < b.encode)) ∧
    ∀ entries : List (Bytes × Bytes), (∀ e ∈ entries, ∃ k ∈ keys, e.1 = k.encode) →
      CdeMapBuilder.write entries = Cbor.map entries) ↔
    ∀ a ∈ keys, ∀ b ∈ keys, a.majorType < b.majorType →
      a.encode.length ≤ b.encode.length := by
  refine ⟨fun h a ha b hb hlt => ?_, fun hmajor => ?_⟩
  · -- The key of the smaller type is bytewise first, so it must be accepted first.
    have hpush := (h.1 a ha b hb).2.2
      ((hkeys a ha).1.encode_lt_of_majorType (hkeys b hb).1 (hkeys a ha).2 (hkeys b hb).2 hlt)
    have hrank : cdeRank a.encode < cdeRank b.encode := by
      simpa using (KeyOrder.push_eq_ok_iff.1 hpush)
    rw [cdeRank_lt_iff] at hrank
    omega
  have hrank : ∀ a ∈ keys, ∀ b ∈ keys,
      (cdeRank a.encode < cdeRank b.encode ↔ a.encode < b.encode) := fun a ha b hb =>
    (hkeys a ha).1.cdeRank_lt_iff (hkeys b hb).1 (hkeys a ha).2 (hkeys b hb).2 (hmajor a ha b hb)
      (hmajor b hb a ha)
  refine ⟨fun a ha b hb => ⟨?_, ?_⟩, fun entries hentries => ?_⟩
  · simp only [compareOfLessAndEq, ← hrank a ha b hb, ← cdeRank_injective.eq_iff]
    rw [cdeOrder_eq, Nat.compare_eq_ite_lt]
    grind
  · rw [KeyOrder.push_eq_ok_iff]
    simpa using hrank a ha b hb
  · refine CdeMapBuilder.write_eq_map fun e he e' he' => ?_
    obtain ⟨a, ha, hea⟩ := hentries e he
    obtain ⟨b, hb, heb⟩ := hentries e' he'
    rw [hea, heb]
    exact hrank a ha b hb

theorem key_order_bytewise_sample :
    let a := CborValue.int (-1)
    let b := CborValue.text "alg"
    cdeOrder a.encode b.encode = .lt ∧
      CdeMapBuilder.write [(b.encode, Cbor.null), (a.encode, Cbor.null)] =
        Cbor.map [(b.encode, Cbor.null), (a.encode, Cbor.null)] := by
  intro a b
  obtain ⟨horder, hwrite⟩ := key_order_bytewise [a, b]
    (by simpa [a, b, CborValue.IsKey] using ⟨.int _, .text (by decide)⟩) |>.2 (by decide)
  exact ⟨(horder a (by simp) b (by simp)).1.trans (by decide), hwrite _ (by simp)⟩

/-- An integer from 24 on is longer than the empty text, which length-first order puts before
    it: the map is written in an order that is not the bytewise one, and the bytewise one is
    refused. -/
theorem key_order_differs :
    let a := CborValue.uint 24
    let b := CborValue.text ""
    a.encode < b.encode ∧ cdeOrder a.encode b.encode = .gt ∧
      KeyOrder.push (some a.encode) b.encode = .error .unsortedMapKeys ∧
      CdeMapBuilder.write [(a.encode, Cbor.null), (b.encode, Cbor.null)] ≠
        Cbor.map [(a.encode, Cbor.null), (b.encode, Cbor.null)] := by
  decide

end WireMesh.Rust.Wire
