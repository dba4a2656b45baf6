import Mathlib.Data.Int.Notation
import Mathlib.Data.Nat.Notation
import Mathlib.Tactic.SplitIfs

/-!
# Numbers

The numbers of TypeScript, as far as the code tells them apart: integers, of any size, and the
others (fractions, infinities and what is not a number).
-/

namespace WireMesh.TypeScript

inductive JsNumber
  | integer (n : ℤ)
  | other
deriving DecidableEq

/-- `Number.MAX_SAFE_INTEGER` -/
def maxSafeInteger : ℤ := 9007199254740991

namespace JsNumber

/-- `Number.isSafeInteger` -/
def isSafeInteger : JsNumber → Bool
  | integer n => -maxSafeInteger ≤ n ∧ n ≤ maxSafeInteger
  | other => false

/-- `z.number().int().nonnegative()` -/
def parseNonnegative : JsNumber → Option ℕ
  | integer n => if (integer n).isSafeInteger = true ∧ 0 ≤ n then some n.toNat else none
  | other => none

theorem of_parseNonnegative {x : JsNumber} {k : ℕ} (h : x.parseNonnegative = some k) :
    ∃ n, x = integer n ∧ n ≤ maxSafeInteger ∧ 0 ≤ n ∧ n.toNat = k := by
  rcases x with n | _
  · rw [parseNonnegative] at h
    split_ifs at h with hn
    obtain ⟨hsafe, hn⟩ := hn
    exact ⟨n, rfl, (of_decide_eq_true hsafe).2, hn, Option.some.inj h⟩
  · cases h

theorem parseNonnegative_natCast {k : ℕ} (h : (k : ℤ) ≤ maxSafeInteger) :
    (integer k).parseNonnegative = some k := by grind [isSafeInteger, parseNonnegative]

end JsNumber

end WireMesh.TypeScript
