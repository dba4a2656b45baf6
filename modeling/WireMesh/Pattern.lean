import Mathlib.Computability.Language

/-!
# Languages of character classes

The languages that regular expressions over classes of characters stand for, and what it means to
be in them.

* `mem_kstar_one`, `mem_plus_one`: repetitions of a class.
* `mem_one_mul`, `mem_literal_mul`: a character or a text in front.
-/

namespace WireMesh.Pattern

open Computability

variable {p : Char → Bool} {L M : Language Char} {w : List Char}

/-- One character of a class. -/
def one (p : Char → Bool) : Language Char := { w | ∃ c, p c = true ∧ w = [c] }

/-- A text. -/
def literal (s : List Char) : Language Char := { w | w = s }

/-- One character of a class or more. -/
def plus (p : Char → Bool) : Language Char := one p * (one p)∗

theorem mem_one_mul : w ∈ one p * L ↔ ∃ c rest, p c = true ∧ rest ∈ L ∧ w = c :: rest := by
  rw [Language.mem_mul]
  constructor
  · rintro ⟨_, ⟨c, hc, rfl⟩, rest, hrest, rfl⟩
    exact ⟨c, rest, hc, hrest, rfl⟩
  · rintro ⟨c, rest, hc, hrest, rfl⟩
    exact ⟨[c], ⟨c, hc, rfl⟩, rest, hrest, rfl⟩

theorem mem_literal_mul {s : List Char} : w ∈ literal s * L ↔ ∃ rest ∈ L, w = s ++ rest := by
  rw [Language.mem_mul]
  constructor
  · rintro ⟨_, rfl, rest, hrest, rfl⟩
    exact ⟨rest, hrest, rfl⟩
  · rintro ⟨rest, hrest, rfl⟩
    exact ⟨s, rfl, rest, hrest, rfl⟩

theorem mem_mul_literal_mul {s : List Char} :
    w ∈ L * (literal s * M) ↔ ∃ a ∈ L, ∃ b ∈ M, w = a ++ (s ++ b) := by
  rw [Language.mem_mul]
  simp only [mem_literal_mul]
  constructor
  · rintro ⟨a, ha, _, ⟨b, hb, rfl⟩, rfl⟩
    exact ⟨a, ha, b, hb, rfl⟩
  · rintro ⟨a, ha, b, hb, rfl⟩
    exact ⟨a, ha, _, ⟨b, hb, rfl⟩, rfl⟩

theorem mem_kstar_one : w ∈ (one p)∗ ↔ ∀ c ∈ w, p c = true := by
  rw [Language.mem_kstar]
  constructor
  · rintro ⟨parts, rfl, hparts⟩ c hc
    obtain ⟨part, hpart, hc⟩ := List.mem_flatten.1 hc
    obtain ⟨d, hd, rfl⟩ := hparts part hpart
    rwa [List.mem_singleton.1 hc]
  · intro h
    refine ⟨w.map fun c => [c], (List.flatMap_singleton' w).symm, fun part hpart => ?_⟩
    obtain ⟨c, hc, rfl⟩ := List.mem_map.1 hpart
    exact ⟨c, h c hc, rfl⟩

theorem mem_plus_one : w ∈ plus p ↔ w ≠ [] ∧ ∀ c ∈ w, p c = true := by
  rw [plus, mem_one_mul]
  simp only [mem_kstar_one]
  constructor
  · rintro ⟨c, rest, hc, hrest, rfl⟩
    exact ⟨List.cons_ne_nil _ _, List.forall_mem_cons.2 ⟨hc, hrest⟩⟩
  · rintro ⟨hne, h⟩
    obtain ⟨c, rest, rfl⟩ := List.exists_cons_of_ne_nil hne
    exact ⟨c, rest, (List.forall_mem_cons.1 h).1, (List.forall_mem_cons.1 h).2, rfl⟩

end WireMesh.Pattern
