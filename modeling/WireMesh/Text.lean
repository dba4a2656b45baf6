import Mathlib.Data.List.Infix
import Mathlib.Data.Nat.Digits.Defs
import Mathlib.Tactic.Linarith

/-!
# Texts of bytes and numbers, and segmented paths

Encodings used as keys and as names:

* `bytesToHex`: two lowercase hexadecimal digits a byte. Distinct byte strings
  have distinct texts (`bytesToHex_injective`), so a comparison of texts is a
  comparison of bytes.
* `toString`: the decimal text of a number (`toString_injective`).
* `Below`: a word is below another one of which it is a continuation from a
  separator on. The order is transitive (`Below.trans`), whichever words count
  as being already cut at a separator.
-/

namespace WireMesh

/-- A byte string. -/
abbrev Bytes := List UInt8

/-! ## Hexadecimal texts -/

/-- The two hexadecimal digits of a byte. -/
def hexDigits (b : UInt8) : List Char := [(b.toNat / 16).digitChar, (b.toNat % 16).digitChar]

/-- Lowercase, byte-exact hexadecimal text. -/
def bytesToHex (bytes : Bytes) : String := .ofList (bytes.flatMap hexDigits)

theorem digitChar_inj : ∀ m < 16, ∀ n < 16, Nat.digitChar m = Nat.digitChar n → m = n := by
  decide

theorem hexDigits_injective : Function.Injective hexDigits := by
  intro a b h
  have ha := a.toNat_lt
  have hb := b.toNat_lt
  obtain ⟨hdiv, hmod⟩ : (a.toNat / 16).digitChar = (b.toNat / 16).digitChar ∧
      (a.toNat % 16).digitChar = (b.toNat % 16).digitChar := by simpa [hexDigits] using h
  have hdiv := digitChar_inj _ (by omega) _ (by omega) hdiv
  have hmod := digitChar_inj _ (by omega) _ (by omega) hmod
  exact UInt8.toNat_inj.1 (by omega)

theorem bytesToHex_injective : Function.Injective bytesToHex := by
  intro a b h
  replace h : a.flatMap hexDigits = b.flatMap hexDigits := String.ofList_injective h
  induction a generalizing b with
  | nil =>
    cases b with
    | nil => rfl
    | cons y b => simp [hexDigits] at h
  | cons x a ih =>
    cases b with
    | nil => simp [hexDigits] at h
    | cons y b =>
      rw [List.flatMap_cons, List.flatMap_cons] at h
      obtain ⟨hxy, hab⟩ := List.append_inj h rfl
      rw [hexDigits_injective hxy, ih hab]

@[simp]
theorem bytesToHex_inj {a b : Bytes} : bytesToHex a = bytesToHex b ↔ a = b :=
  bytesToHex_injective.eq_iff

theorem bytesToHex_length {bytes : Bytes} :
    (bytesToHex bytes).toList.length = 2 * bytes.length := by
  rw [bytesToHex, String.toList_ofList, List.length_flatMap]
  simp [hexDigits, Nat.mul_comm]

/-! ## Decimal texts -/

theorem toString_toList (n : ℕ) : (toString n).toList = Nat.toDigits 10 n := by
  rw [Nat.toString_eq_repr, Nat.repr_eq_ofList_toDigits, String.toList_ofList]

theorem toString_injective {m n : ℕ} (h : (toString m).toList = (toString n).toList) : m = n := by
  grind [toString_toList, Nat.ofDigitChars_ten_toDigits]

/-! ## Segmented paths -/

section Below

variable {α : Type*} {sep : α} {cut : List α → Prop} {p m q : List α}

/-- The word `q` is `p`, or continues it from a separator on, be it that `p` is already
    `cut` or that its continuation starts with the separator. -/
def Below (sep : α) (cut : List α → Prop) (p q : List α) : Prop :=
  p = q ∨ p <+: q ∧ (cut p ∨ q[p.length]? = some sep)

theorem Below.refl : Below sep cut p p := .inl rfl

theorem Below.trans (hpm : Below sep cut p m) (hmq : Below sep cut m q) :
    Below sep cut p q := by
  rcases hpm with rfl | ⟨hpm, hp⟩
  · exact hmq
  · rcases hmq with rfl | ⟨hmq, -⟩
    · exact .inr ⟨hpm, hp⟩
    · refine .inr ⟨hpm.trans hmq, hp.imp_right fun hsep => ?_⟩
      -- The separator after `p` is inside `m`, which `q` continues.
      obtain ⟨t, rfl⟩ := hmq
      grind

theorem append_singleton_isPrefix_iff :
    p ++ [sep] <+: q ↔ p <+: q ∧ q[p.length]? = some sep := by
  constructor
  · rintro ⟨t, rfl⟩
    exact ⟨⟨sep :: t, by simp⟩, by simp⟩
  · rintro ⟨⟨t, rfl⟩, hsep⟩
    cases t with
    | nil => simp at hsep
    | cons a t =>
      obtain rfl : a = sep := by simpa using hsep
      exact ⟨t, by simp⟩

/-- A word that is not `cut` has below it what an uncut one has. -/
theorem below_congr {cut' : List α → Prop} (h : cut p ↔ cut' p) :
    Below sep cut p q ↔ Below sep cut' p q := by
  rw [Below, Below, h]

end Below

end WireMesh
