import Mathlib.Algebra.BigOperators.Ring.Finset
import Mathlib.Algebra.Group.MinimalAxioms
import Mathlib.Data.Nat.Bitwise
import WireMesh.CyclicField
import WireMesh.TypeScript.ErasureCoding

/-!
# The field of bytes

Bytes are a field with 256 elements: the sum is the exclusive or, and a product is found in the
tables of the powers of the generator 2 (`gfMul_eq`, `gfInv_eq`). What makes it a field is that the
multiplication by the generator is additive (`timesGenerator_xor`), and that every byte but zero is
one of its powers (`exists_power`).
-/

namespace WireMesh

open TypeScript.ErasureCoding

/-! ## Powers of the generator -/

/-- The next power of the generator is found by a shift and a reduction. -/
def gfPower (i : ℕ) : ℕ := timesGenerator^[i] 1

theorem gfPower_succ (i : ℕ) : gfPower (i + 1) = timesGenerator (gfPower i) :=
  Function.iterate_succ_apply' ..

theorem timesGenerator_eq (x : ℕ) :
    timesGenerator x = 2 * x ^^^ if x.testBit 7 then gfPoly else 0 := by
  have hbit : x <<< 1 &&& gfOverflowBit = (x.testBit 7).toNat * 2 ^ 8 := by
    rw [gfOverflowBit, show 0x100 = 2 ^ 8 from rfl, Nat.and_two_pow, Nat.testBit_shiftLeft]
    rfl
  grind [timesGenerator, Nat.shiftLeft_eq]

theorem timesGenerator_xor (x y : ℕ) :
    timesGenerator (x ^^^ y) = timesGenerator x ^^^ timesGenerator y := by
  have hdouble : 2 * (x ^^^ y) = 2 * x ^^^ 2 * y := by
    have hshift := Nat.shiftLeft_xor_distrib (a := x) (b := y) (i := 1)
    grind [Nat.shiftLeft_eq]
  have hcomm : ∀ a b c d : ℕ, (a ^^^ b) ^^^ (c ^^^ d) = (a ^^^ c) ^^^ (b ^^^ d) := by
    intro a b c d
    ac_rfl
  rw [timesGenerator_eq, timesGenerator_eq, timesGenerator_eq, hdouble, Nat.testBit_xor, hcomm]
  cases x.testBit 7 <;> cases y.testBit 7 <;> simp

theorem timesGenerator_lt {x : ℕ} (h : x < 256) : timesGenerator x < 256 := by
  revert x
  decide +kernel

theorem gfPower_lt (i : ℕ) : gfPower i < 256 := by
  induction i with
  | zero => decide
  | succ i ih =>
    rw [gfPower_succ]
    exact timesGenerator_lt ih

theorem gfPower_period : gfPower 255 = 1 := by decide +kernel

theorem exists_power : ∀ a < 256, a ≠ 0 → ∃ i < 255, gfPower i = a := by decide +kernel

/-! ## The tables -/

/-- The tables after the first rounds of the loop. -/
def tablesAfter (k : ℕ) : Tables :=
  (List.range k).foldl Tables.fill
    { exp := List.replicate (2 * gfMaxShards) 0
      log := List.replicate (gfMaxShards + 1) 0
      x := 1 }

theorem tablesAfter_succ (k : ℕ) : tablesAfter (k + 1) = (tablesAfter k).fill k := by
  simp [tablesAfter, List.range_succ]

theorem tablesAfter_x (k : ℕ) : (tablesAfter k).x = gfPower k := by
  induction k with
  | zero => rfl
  | succ k ih => rw [tablesAfter_succ, Tables.fill, ih, gfPower_succ]

theorem length_tablesAfter (k : ℕ) :
    (tablesAfter k).exp.length = 510 ∧ (tablesAfter k).log.length = 256 := by
  induction k with
  | zero => exact ⟨List.length_replicate, List.length_replicate⟩
  | succ k ih => simp [tablesAfter_succ, Tables.fill, ih]

theorem tablesAfter_exp {i k : ℕ} (hik : i < k) (hi : i < 510) :
    (tablesAfter k).exp[i]? = some (gfPower i) := by
  induction k with
  | zero => omega
  | succ k ih => grind [tablesAfter_succ, Tables.fill, tablesAfter_x, length_tablesAfter]

/-- A power of the generator is found again by its logarithm. -/
theorem tablesAfter_log {i k : ℕ} (hik : i < k) :
    ∃ p < k, gfPower p = gfPower i ∧ (tablesAfter k).log[gfPower i]? = some p := by
  induction k with
  | zero => omega
  | succ k ih =>
    rw [tablesAfter_succ, Tables.fill, List.getElem?_set, tablesAfter_x]
    split_ifs with heq hlt
    · exact ⟨k, by omega, heq, rfl⟩
    · exact absurd (gfPower_lt k) (by rwa [(length_tablesAfter k).2] at hlt)
    · -- The entry was made in an earlier round.
      grind

theorem gfPower_add_period (i : ℕ) : gfPower (255 + i) = gfPower i := by
  rw [gfPower, Nat.add_comm, Function.iterate_add_apply]
  exact congrArg _ gfPower_period

/-- The table of powers after the first rounds of the second loop. -/
def expAfter (m : ℕ) : List ℕ :=
  (List.range' gfMaxShards m).foldl
    (fun exp power => exp.set power (exp[power - gfMaxShards]?.getD 0)) tables.exp

theorem expAfter_succ (m : ℕ) :
    expAfter (m + 1) = (expAfter m).set (255 + m) ((expAfter m)[m]?.getD 0) := by
  simp [expAfter, List.range'_1_concat, gfMaxShards]

theorem length_expAfter (m : ℕ) : (expAfter m).length = 510 := by
  induction m with
  | zero => exact (length_tablesAfter 255).1
  | succ m ih => rw [expAfter_succ, List.length_set, ih]

theorem getElem?_expAfter {m : ℕ} (hm : m ≤ 255) {i : ℕ} (hi : i < 255 + m) :
    (expAfter m)[i]? = some (gfPower i) := by
  induction m generalizing i with
  | zero => exact tablesAfter_exp hi (by omega)
  | succ m ih =>
    have hbefore : (expAfter m)[m]? = some (gfPower m) := ih (by omega) (by omega)
    grind [expAfter_succ, length_expAfter, gfPower_add_period]

theorem getElem?_gfExp {i : ℕ} (hi : i < 510) : gfExp[i]? = some (gfPower i) :=
  getElem?_expAfter le_rfl (by omega : i < 255 + 255)

theorem exists_gfLog {a : ℕ} (ha : a < 256) (hne : a ≠ 0) :
    ∃ p < 255, gfPower p = a ∧ gfLog[a]? = some p := by
  obtain ⟨i, hi, rfl⟩ := exists_power a ha hne
  exact tablesAfter_log hi

/-! ## The field -/

/-- A byte as an element of the field. -/
@[ext]
structure GF where
  byte : UInt8
deriving DecidableEq

namespace GF

instance : Add GF := ⟨fun a b => ⟨a.byte ^^^ b.byte⟩⟩

instance : Zero GF := ⟨⟨0⟩⟩

instance : Neg GF := ⟨id⟩

instance : AddCommGroup GF where
  toAddGroup := .ofLeftAxioms (fun _ _ _ => GF.ext (UInt8.xor_assoc ..))
    (fun _ => GF.ext UInt8.zero_xor) fun _ => GF.ext UInt8.xor_self
  add_comm _ _ := GF.ext (UInt8.xor_comm ..)

theorem byte_add (a b : GF) : (a + b).byte = a.byte ^^^ b.byte := rfl

theorem byte_zero : (0 : GF).byte = 0 := rfl

theorem mk_eq_zero {a : UInt8} : (⟨a⟩ : GF) = 0 ↔ a = 0 := GF.mk.injEq a 0 ▸ Iff.rfl

theorem toNat_ne_zero {a : GF} (ha : a ≠ 0) : a.byte.toNat ≠ 0 := by
  intro hzero
  exact ha (GF.ext (UInt8.toNat_inj.1 hzero))

/-- The multiplication by the generator. -/
def shift : GF →+ GF where
  toFun a := ⟨.ofNat (timesGenerator a.byte.toNat)⟩
  map_zero' := rfl
  map_add' a b := by
    apply GF.ext
    simp only [byte_add, UInt8.toNat_xor, timesGenerator_xor, UInt8.ofNat_xor]

theorem shift_apply (a : GF) : shift a = ⟨.ofNat (timesGenerator a.byte.toNat)⟩ := rfl

theorem iterate_shift (i : ℕ) : shift^[i] ⟨1⟩ = ⟨.ofNat (gfPower i)⟩ := by
  induction i with
  | zero => rfl
  | succ i ih =>
    rw [Function.iterate_succ_apply', ih, gfPower_succ, shift_apply,
      UInt8.toNat_ofNat_of_lt' (gfPower_lt i)]

def log (a : GF) : ℕ := gfLog[a.byte.toNat]?.getD 0

theorem log_spec {a : GF} (ha : a ≠ 0) : gfPower a.log = a.byte.toNat ∧ a.log < 255 := by
  grind [exists_gfLog, UInt8.toNat_lt, toNat_ne_zero, log]

def generator : Generator GF where
  shift := shift
  one := ⟨1⟩
  log := log
  order := gfMaxShards
  order_pos := by decide
  one_ne_zero := by decide
  shift_log a ha := by
    rw [iterate_shift, (log_spec ha).1, UInt8.ofNat_toNat]
  shift_order := by
    rw [iterate_shift, gfMaxShards, gfPower_period]
    rfl
  log_le a ha := (log_spec ha).2.le

theorem generator_log : generator.log = log := by rw [generator]

theorem generator_order : generator.order = gfMaxShards := by rw [generator]

theorem power_eq (i : ℕ) : generator.power i = ⟨.ofNat (gfPower i)⟩ := iterate_shift i

instance : Field GF := generator.field

end GF

theorem gfMul_eq (a b : UInt8) : gfMul a b = ((⟨a⟩ : GF) * ⟨b⟩).byte := by
  change _ = (GF.generator.mul ⟨a⟩ ⟨b⟩).byte
  simp only [gfMul, Generator.mul, GF.mk_eq_zero]
  split_ifs with hzero
  · rfl
  · have hlog : ∀ {c : UInt8}, c ≠ 0 → GF.log ⟨c⟩ < 255 := fun hc =>
      (GF.log_spec fun h => hc (GF.mk_eq_zero.1 h)).2
    have hlt : GF.log ⟨a⟩ + GF.log ⟨b⟩ < 510 := by grind
    have hexp : gfExp[gfLog[a.toNat]?.getD 0 + gfLog[b.toNat]?.getD 0]? = _ := getElem?_gfExp hlt
    rw [hexp, GF.power_eq, Option.getD_some, GF.generator_log, GF.log, GF.log]

theorem gfInv_eq {a : UInt8} (ha : a ≠ 0) : gfInv a = ((⟨a⟩ : GF)⁻¹).byte := by
  change _ = (GF.generator.inv ⟨a⟩).byte
  have hlt : gfMaxShards - GF.log ⟨a⟩ < 510 := by
    rw [gfMaxShards]
    omega
  have hexp : gfExp[gfMaxShards - gfLog[a.toNat]?.getD 0]? = _ := getElem?_gfExp hlt
  rw [gfInv, hexp, Generator.inv, if_neg (mt GF.mk_eq_zero.1 ha), GF.power_eq,
    Option.getD_some, GF.generator_log, GF.generator_order, GF.log]

/-- The product with a power of the generator needs no table. -/
theorem gfMul_gfPower (i : ℕ) (b : UInt8) :
    gfMul (.ofNat (gfPower i)) b = (GF.shift^[i] ⟨b⟩).byte := by
  rw [gfMul_eq, ← GF.power_eq]
  exact congrArg GF.byte (GF.generator.power_mul i ⟨b⟩)

theorem gfInv_eq_of_gfMul {a b : UInt8} (h : gfMul a b = 1) : gfInv b = a := by
  have hb : b ≠ 0 := by
    rintro rfl
    simp [gfMul] at h
  rw [gfMul_eq] at h
  rw [gfInv_eq hb, ← eq_inv_of_mul_eq_one_left (congrArg GF.mk h)]

end WireMesh
