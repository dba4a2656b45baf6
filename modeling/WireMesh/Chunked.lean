import Mathlib.Data.List.ReduceOption
import Mathlib.Data.Nat.Notation

/-!
# Reading items from chunks

A reader takes items off the front of a buffer, one after the other, until it needs more, or fails.
Chunks are appended to what is left in the buffer as they come. Where what it finds at the front
does not depend on what follows, it does not matter how the input is split: all that is read from
chunks is read from their concatenation at once (`read_eq_drain`).

* `drain_append`: what is read from a buffer is read from any longer one, before anything else.
* `drain_flatMap`: an input that is made of items is read as them.
-/

namespace WireMesh.Chunked

/-- What is at the front of a buffer. An item may be one to skip. -/
inductive Step (B F E : Type)
  | more
  | fail (e : E)
  | item (x : Option F) (rest : List B)
deriving DecidableEq

/-- A reader, which does not look beyond what it takes. -/
structure Reader (B F E : Type) where
  step : List B → Step B F E
  step_nil : step [] = .more
  item_shorter : ∀ b x rest, step b = .item x rest → rest.length < b.length
  item_append : ∀ b x rest c, step b = .item x rest → step (b ++ c) = .item x (rest ++ c)
  fail_append : ∀ b e c, step b = .fail e → step (b ++ c) = .fail e

namespace Reader

variable {B F E : Type} (r : Reader B F E)

/-- The items in the buffer, and either what is left of it or a failure. -/
def drain (b : List B) : List F × Except E (List B) :=
  match _h : r.step b with
  | .more => ([], .ok b)
  | .fail e => ([], .error e)
  | .item x rest => (x.toList ++ (drain rest).1, (drain rest).2)
termination_by b.length
decreasing_by all_goals exact r.item_shorter _ _ _ ‹_›

/-- A chunk is appended to what is left. After a failure nothing is read any more. -/
def feed (state : List F × Except E (List B)) (chunk : List B) : List F × Except E (List B) :=
  match state with
  | (items, .error e) => (items, .error e)
  | (items, .ok buffered) =>
    (items ++ (r.drain (buffered ++ chunk)).1, (r.drain (buffered ++ chunk)).2)

def read (chunks : List (List B)) : List F × Except E (List B) := chunks.foldl r.feed ([], .ok [])

variable {r} {b rest c : List B} {x : Option F} {e : E}

theorem drain_of_more (h : r.step b = .more) : r.drain b = ([], .ok b) := by
  rw [drain]
  split <;> simp_all

theorem drain_of_fail (h : r.step b = .fail e) : r.drain b = ([], .error e) := by
  rw [drain]
  split <;> simp_all

theorem drain_of_item (h : r.step b = .item x rest) :
    r.drain b = (x.toList ++ (r.drain rest).1, (r.drain rest).2) := by
  rw [drain]
  split <;> simp_all

theorem drain_nil : r.drain [] = ([], .ok []) := drain_of_more r.step_nil

/-- A longer buffer is read like the chunk that makes it longer. -/
theorem drain_append (b c : List B) : r.drain (b ++ c) = r.feed (r.drain b) c := by
  -- By induction on the buffer, which an item makes shorter.
  induction hlength : b.length using Nat.strongRecOn generalizing b with
  | ind n ih =>
    subst hlength
    rcases hstep : r.step b with _ | e | ⟨x, rest⟩
    · simp [drain_of_more hstep, feed]
    · simp [drain_of_fail hstep, drain_of_fail (r.fail_append b e c hstep), feed]
    · have hrest := ih rest.length (r.item_shorter b x rest hstep) rest rfl
      rw [drain_of_item hstep, drain_of_item (r.item_append b x rest c hstep), hrest]
      rcases r.drain rest with ⟨items, _ | left⟩ <;> simp [feed]

theorem foldl_feed (b : List B) (chunks : List (List B)) :
    chunks.foldl r.feed (r.drain b) = r.drain (b ++ chunks.flatten) := by
  induction chunks generalizing b with
  | nil => simp
  | cons c chunks ih => grind [drain_append]

theorem read_eq_drain (chunks : List (List B)) : r.read chunks = r.drain chunks.flatten := by
  rw [read, ← drain_nil (r := r), foldl_feed, List.nil_append]

/-- Of a longer buffer, the same items are read first, and nothing else after a failure. -/
theorem drain_of_isPrefix {b' : List B} (h : b <+: b') :
    (r.drain b).1 <+: (r.drain b').1 ∧
      ∀ e, (r.drain b).2 = .error e → r.drain b' = r.drain b := by
  obtain ⟨c, rfl⟩ := h
  rw [drain_append]
  rcases r.drain b with ⟨items, e | left⟩
  · exact ⟨List.prefix_rfl, fun _ _ => rfl⟩
  · refine ⟨List.prefix_append _ _, fun e he => ?_⟩
    cases he

theorem drain_flatMap {items : List (Option F)} {write : Option F → List B}
    (h : ∀ x ∈ items, ∀ c, r.step (write x ++ c) = .item x c) :
    r.drain (items.flatMap write) = (items.reduceOption, .ok []) := by
  induction items with
  | nil => exact drain_nil
  | cons x items ih =>
    rw [List.flatMap_cons, drain_of_item (h x List.mem_cons_self _),
      ih fun x hx => h x (List.mem_cons_of_mem _ hx)]
    cases x <;> simp

end Reader

end WireMesh.Chunked
