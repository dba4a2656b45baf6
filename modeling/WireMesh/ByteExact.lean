import WireMesh.Rust.Wire.Record

/-!
# Decoding is byte-exact

What the strict decoders of the Rust wire accept is what the encoders write.

* `cborValue_byte_exact`: the values of open maps are their own encodings, in
  both directions.
-/

namespace WireMesh.Rust.Wire

open Cbor Reader

/-! ## Values -/

/-- A value decoded from the whole of an input has that encoding; a value whose maps were
    built by insertion and removal is decoded from its encoding, with its non-negative integers
    unsigned; and in a decoded map the encoded keys increase strictly, at any depth. -/
theorem cborValue_byte_exact :
    (∀ (input : Bytes) (v : CborValue), CborValue.decodeStrict input = .ok (v, []) →
      v.encode = input) ∧
    (∀ v : CborValue, v.Built → CborValue.decodeStrict v.encode = .ok (v.normalize, [])) ∧
    ∀ (input : Bytes) (v : CborValue), CborValue.decodeStrict input = .ok (v, []) →
      ∀ entries, (CborValue.map entries).Inside v →
        (entries.map fun e => e.1.encode).Pairwise (fun a b => cdeOrder a b = .lt) ∧
        (entries.map fun e => e.1.encode).Nodup := by
  refine ⟨?_, ?_, ?_⟩
  · intro input v h
    obtain ⟨rfl, -⟩ := CborValue.decodeStrict_exact h
    rw [List.append_nil]
  · intro v hv
    have h := hv.canonical.decodeStrict_encode []
    rwa [List.append_nil] at h
  · intro input v h entries hinside
    obtain ⟨-, hv⟩ := CborValue.decodeStrict_exact h
    cases hv.inside hinside with
    | map _ hsorted _ _ =>
      refine ⟨List.pairwise_map.2 (hsorted.imp ?_), List.pairwise_map.2 (hsorted.imp ?_)⟩
      · intro a b hab
        rw [cdeOrder_eq]
        exact Nat.compare_eq_lt.2 hab
      · intro a b hab heq
        exact absurd (congrArg cdeRank heq) (Nat.ne_of_lt hab)

/-- A map from the integer 1 and from a text. -/
def CborValue.sample : CborValue :=
  .map [(.int 1, .int (-7)), (.text "a", .array [.null])]

theorem CborValue.sample_built : CborValue.sample.Built := by
  have hmap : Built (.map [(.text "a", .array [.null])]) :=
    .insert .new (.text (by decide)) (.array (by decide) (by simpa using .null)) rfl (by decide)
  exact .insert hmap (.int 1) (.int (-7)) rfl (by decide)

theorem cborValue_byte_exact_sample :
    CborValue.decodeStrict [0xa2, 0x01, 0x26, 0x61, 0x61, 0x81, 0xf6] =
      .ok (.map [(.uint 1, .int (-7)), (.text "a", .array [.null])], []) ∧
    (CborValue.map [(.uint 1, .int (-7)), (.text "a", .array [.null])]).encode =
      [0xa2, 0x01, 0x26, 0x61, 0x61, 0x81, 0xf6] ∧
    [[0x01], [0x61, 0x61]].Pairwise fun a b => cdeOrder a b = .lt := by
  have hdecode := cborValue_byte_exact.2.1 _ CborValue.sample_built
  exact ⟨hdecode, cborValue_byte_exact.1 _ _ hdecode,
    (cborValue_byte_exact.2.2 _ _ hdecode _ .refl).1⟩

end WireMesh.Rust.Wire
