import Mathlib.Data.Bool.Basic
import Mathlib.Logic.Basic

/-!
# Strong Kleene logic

Truth values with an indeterminate one, `none`. A connective is determinate as
soon as its determinate operands decide it, and stays so when its other operands
become determinate (`Grows`).
-/

namespace WireMesh

/-- A truth value, or `none` when it is indeterminate. -/
abbrev Tri := Option Bool

namespace Tri

def not (a : Tri) : Tri := a.map (!·)

def and : Tri → Tri → Tri
  | some false, _ => some false
  | _, some false => some false
  | some true, some true => some true
  | _, _ => none

def or : Tri → Tri → Tri
  | some true, _ => some true
  | _, some true => some true
  | some false, some false => some false
  | _, _ => none

/-- The negation of a conjunction holds iff one of the two definitely does not. -/
theorem not_and_eq_true {a b : Tri} :
    not (and a b) = some true ↔ a = some false ∨ b = some false := by
  rcases a with _ | _ | _ <;> rcases b with _ | _ | _ <;> decide

/-- What is determinate before is so afterwards, with the same value. -/
def Grows (a b : Tri) : Prop := ∀ v, a = some v → b = some v

variable {a a' b b' : Tri}

theorem Grows.not (h : Grows a a') : Grows a.not a'.not := by
  cases a with
  | none => intro v hv; cases hv
  | some x => rw [h x rfl]; exact fun v hv => hv

theorem Grows.and (ha : Grows a a') (hb : Grows b b') : Grows (a.and b) (a'.and b') := by
  intro v hv
  rcases a with _ | _ | _ <;> rcases b with _ | _ | _ <;> grind [Tri.and, Grows]

theorem Grows.or (ha : Grows a a') (hb : Grows b b') : Grows (a.or b) (a'.or b') := by
  intro v hv
  rcases a with _ | _ | _ <;> rcases b with _ | _ | _ <;> grind [Tri.or, Grows]

end Tri

end WireMesh
