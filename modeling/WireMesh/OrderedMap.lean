import Mathlib.Data.List.Nodup
import Mathlib.Data.List.Pairwise

/-!
# Maps and sets in the order of insertion

The maps and sets that iterate over their elements in the order in which they
were inserted.

* `OrderedMap`: a map. A value that is set again keeps its place.
* `LiveSet`: a set that may change while it is iterated over. Its elements are
  numbered as they are inserted, and an iteration goes on at a number, so that
  it reaches what is inserted meanwhile, and no longer what is removed.
-/

namespace WireMesh

/-! ## Maps -/

/-- A map, with its entries in the order in which their keys were inserted. -/
@[ext]
structure OrderedMap (K V : Type*) where
  entries : List (K × V)
  nodup : (entries.map Prod.fst).Nodup

namespace OrderedMap

variable {K V : Type*}

def empty : OrderedMap K V := ⟨[], List.nodup_nil⟩

def keys (m : OrderedMap K V) : List K := m.entries.map Prod.fst

def values (m : OrderedMap K V) : List V := m.entries.map Prod.snd

/-- The entries that satisfy a condition. -/
def filter (m : OrderedMap K V) (p : K × V → Bool) : OrderedMap K V where
  entries := m.entries.filter p
  nodup := m.nodup.sublist (List.filter_sublist.map _)

variable [DecidableEq K]

def get (m : OrderedMap K V) (k : K) : Option V := m.entries.lookup k

/-- The entries with a value set, in its place if there is one and at the end if not. -/
def setEntry (k : K) (v : V) : List (K × V) → List (K × V)
  | [] => [(k, v)]
  | e :: entries => if e.1 = k then (k, v) :: entries else e :: setEntry k v entries

theorem mem_setEntry {k : K} {v : V} {entries : List (K × V)} {e : K × V}
    (h : e ∈ setEntry k v entries) : e = (k, v) ∨ e ∈ entries := by
  induction entries with
  | nil => exact .inl (List.mem_singleton.1 h)
  | cons e' entries ih => grind [setEntry]

theorem nodup_setEntry (k : K) (v : V) {entries : List (K × V)}
    (h : (entries.map Prod.fst).Nodup) : ((setEntry k v entries).map Prod.fst).Nodup := by
  induction entries with
  | nil => simp [setEntry]
  | cons e entries ih =>
    rw [List.map_cons, List.nodup_cons] at h
    rw [setEntry]
    split_ifs with hk
    · rwa [List.map_cons, List.nodup_cons, ← hk]
    · rw [List.map_cons, List.nodup_cons]
      refine ⟨fun hmem => ?_, ih h.2⟩
      obtain ⟨e', he', hfst⟩ := List.mem_map.1 hmem
      rcases mem_setEntry he' with rfl | he'
      · exact hk hfst.symm
      · exact h.1 (hfst ▸ List.mem_map_of_mem he')

theorem length_le_length_setEntry (k : K) (v : V) (entries : List (K × V)) :
    entries.length ≤ (setEntry k v entries).length := by
  induction entries with
  | nil => exact Nat.zero_le _
  | cons e entries ih => grind [setEntry]

def set (m : OrderedMap K V) (k : K) (v : V) : OrderedMap K V :=
  ⟨setEntry k v m.entries, nodup_setEntry k v m.nodup⟩

def delete (m : OrderedMap K V) (k : K) : OrderedMap K V := m.filter fun e => e.1 ≠ k

variable {m : OrderedMap K V} {k k' : K} {v : V}

@[simp]
theorem get_empty : (empty : OrderedMap K V).get k = none := rfl

theorem mem_entries_iff : (k, v) ∈ m.entries ↔ m.get k = some v := by
  obtain ⟨entries, h⟩ := m
  change _ ↔ entries.lookup k = some v
  induction entries with
  | nil => simp
  | cons e entries ih => grind

theorem get_set (m : OrderedMap K V) (k k' : K) (v : V) :
    (m.set k v).get k' = if k' = k then some v else m.get k' := by
  change (setEntry k v m.entries).lookup k' = if k' = k then some v else m.entries.lookup k'
  induction m.entries with
  | nil => grind [setEntry]
  | cons e entries ih => grind [setEntry]

/-- Values that depend on their keys are set in a loop. -/
theorem get_foldl_set_apply (m : OrderedMap K V) (keys : List K) (f : K → V) (k : K) :
    (keys.foldl (fun m k => m.set k (f k)) m).get k =
      if k ∈ keys then some (f k) else m.get k := by
  induction keys generalizing m with
  | nil => simp
  | cons k' keys ih => grind [get_set]

theorem get_filter_eq_some {p : K × V → Bool} :
    (m.filter p).get k = some v ↔ m.get k = some v ∧ p (k, v) := by
  rw [← mem_entries_iff, ← mem_entries_iff, filter, List.mem_filter]

theorem get_delete_eq_some : (m.delete k).get k' = some v ↔ m.get k' = some v ∧ k' ≠ k := by
  rw [delete, get_filter_eq_some, decide_eq_true_eq]

theorem get_delete (m : OrderedMap K V) (k k' : K) :
    (m.delete k).get k' = if k' = k then none else m.get k' := by
  ext v
  rw [get_delete_eq_some]
  split_ifs with h <;> simp [h]

theorem mem_values_iff : v ∈ m.values ↔ ∃ k, m.get k = some v := by
  simp only [values, List.mem_map, Prod.exists, ← mem_entries_iff]
  grind

theorem mem_keys_iff : k ∈ m.keys ↔ ∃ v, m.get k = some v := by
  simp only [keys, List.mem_map, Prod.exists, ← mem_entries_iff]
  grind

theorem mem_keys_set : k' ∈ (m.set k v).keys ↔ k' = k ∨ k' ∈ m.keys := by
  rw [mem_keys_iff, mem_keys_iff, get_set]
  split_ifs with h <;> simp [h]

theorem entries_set_of_notMem (h : k ∉ m.keys) : (m.set k v).entries = m.entries ++ [(k, v)] := by
  change setEntry k v m.entries = _
  rw [keys] at h
  generalize m.entries = entries at h ⊢
  induction entries with
  | nil => rfl
  | cons e entries ih => grind [setEntry]

end OrderedMap

/-! ## Sets -/

/-- A set, each element with the number of its insertion. -/
structure LiveSet (α : Type*) where
  entries : List (ℕ × α)
  /-- How many insertions there have been. -/
  inserted : ℕ
  nodup : (entries.map Prod.snd).Nodup
  sorted : entries.Pairwise fun a b => a.1 < b.1
  lt_inserted : ∀ e ∈ entries, e.1 < inserted

namespace LiveSet

variable {α : Type*}

def empty : LiveSet α where
  entries := []
  inserted := 0
  nodup := List.nodup_nil
  sorted := .nil
  lt_inserted := by simp

def elements (s : LiveSet α) : List α := s.entries.map Prod.snd

instance : Membership α (LiveSet α) := ⟨fun s a => a ∈ s.elements⟩

theorem mem_def {s : LiveSet α} {a : α} : a ∈ s ↔ a ∈ s.elements := .rfl

/-- The numbers go on. -/
def clear (s : LiveSet α) : LiveSet α where
  entries := []
  inserted := s.inserted
  nodup := List.nodup_nil
  sorted := .nil
  lt_inserted := by simp

/-- The next element of an iteration, among those that satisfy a condition. -/
def next (s : LiveSet α) (position : ℕ) (p : α → Bool) : Option (ℕ × α) :=
  s.entries.find? fun e => position ≤ e.1 && p e.2

variable {s : LiveSet α} {a b : α}

@[simp]
theorem notMem_clear : a ∉ s.clear := List.not_mem_nil

variable [DecidableEq α]

instance : Decidable (a ∈ s) := inferInstanceAs (Decidable (a ∈ s.elements))

def delete (s : LiveSet α) (a : α) : LiveSet α where
  entries := s.entries.filter fun e => e.2 ≠ a
  inserted := s.inserted
  nodup := s.nodup.sublist (List.filter_sublist.map _)
  sorted := s.sorted.filter _
  lt_inserted e he := s.lt_inserted e (List.mem_of_mem_filter he)

/-- An element that is already there keeps its number. -/
def add (s : LiveSet α) (a : α) : LiveSet α :=
  if h : a ∈ s then s else
    { entries := s.entries ++ [(s.inserted, a)]
      inserted := s.inserted + 1
      nodup := by
        rw [List.map_append, List.map_singleton]
        exact List.nodup_append.2 ⟨s.nodup, List.nodup_singleton a, by
          rintro x hx y hy rfl
          obtain rfl : x = a := List.mem_singleton.1 hy
          exact h hx⟩
      sorted := by
        refine List.pairwise_append.2 ⟨s.sorted, List.pairwise_singleton _ _, ?_⟩
        rintro e he e' he'
        rw [List.mem_singleton] at he'
        exact he' ▸ s.lt_inserted e he
      lt_inserted := by
        rintro e he
        rcases List.mem_append.1 he with he | he
        · exact Nat.lt_succ_of_lt (s.lt_inserted e he)
        · grind }

@[simp]
theorem mem_delete : a ∈ s.delete b ↔ a ∈ s ∧ a ≠ b := by
  simp only [mem_def, elements, delete, List.mem_map, List.mem_filter, decide_eq_true_eq]
  grind

@[simp]
theorem mem_add : a ∈ s.add b ↔ a ∈ s ∨ a = b := by grind [add, mem_def, elements]

end LiveSet

end WireMesh
