import WireMesh.Rust.Wire.Value
import WireMesh.Token

/-!
# Maps that are built entry by entry

A builder keeps the encoded entries in the order in which they are inserted, and sorts them by
their keys when the map is written. That order compares ranks of the keys
(`cdeOrder_ne_gt_iff`).
-/

namespace WireMesh.Rust.Wire

open Cbor

/-- The map of the entries of a builder, which are sorted by their encoded keys. -/
def CdeMapBuilder.write (entries : List (Bytes × Bytes)) : Bytes :=
  rawMap (entries.insertionSort fun a b => cdeOrder a.1 b.1 ≠ .gt)

theorem cdeOrder_ne_gt_iff {a b : Bytes} : cdeOrder a b ≠ .gt ↔ cdeRank a ≤ cdeRank b := by
  rw [cdeOrder_eq, ne_eq, Nat.compare_eq_gt, not_lt]

end WireMesh.Rust.Wire
