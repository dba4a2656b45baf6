import Mathlib.Data.List.Perm.Basic
import Mathlib.Data.List.Sort
import Mathlib.Order.Compare
import Mathlib.Tactic.IntervalCases

/-!
# Binary search in sorted lists

The search that halves an interval without an early exit, as in the standard
library of Rust, and the sorted insertion and the removal that are done by it.

* `binarySearch_spec`: in a sorted list, the search finds an item with the
  given key, or the place where one belongs.
* `insertSorted_eq_some_iff`, `eraseSorted_eq_some_iff`: an insertion is of a new
  key and keeps the list sorted, and a removal is of an item that there is.
-/

namespace WireMesh

section Search

variable {α β : Type} [LinearOrder β]

/-- Sorted strictly by a key. -/
def SortedBy (key : α → β) (l : List α) : Prop := l.Pairwise fun a b => key a < key b

/-- The halving of the interval of the given size, from `base`. -/
def searchBase (key : α → β) (b : β) (l : List α) : ℕ → ℕ → ℕ → ℕ
  | 0, _, base => base
  | fuel + 1, size, base =>
    if size ≤ 1 then base
    else
      let half := size / 2
      let mid := base + half
      -- The middle is never out of range.
      searchBase key b l fuel (size - half) (if (l[mid]?).any (b < key ·) then base else mid)

/-- The index of an item with the given key, or the index where one belongs. -/
def binarySearch (key : α → β) (b : β) (l : List α) : Except ℕ ℕ :=
  let base := searchBase key b l l.length l.length 0
  match l[base]? with
  | none => .error 0
  | some a =>
    if key a = b then .ok base else if key a < b then .error (base + 1) else .error base

variable {key : α → β} {b : β} {l : List α}

theorem SortedBy.getElem_lt (hl : SortedBy key l) {i j : ℕ} (hi : i < l.length)
    (hj : j < l.length) (hij : i < j) : key l[i] < key l[j] :=
  List.pairwise_iff_getElem.1 hl i j hi hj hij

/-- The interval keeps the place of the key: before it there are only smaller ones, and after
    it only greater ones. -/
theorem searchBase_spec (hl : SortedBy key l) {fuel size base : ℕ} (hfuel : size ≤ fuel)
    (hsize : 0 < size) (hend : base + size ≤ l.length)
    (hbase : ∀ i (hi : i < l.length), i < base → key l[i] < b)
    (hbase' : 0 < base → ∀ hi : base < l.length, key l[base] ≤ b)
    (habove : ∀ i (hi : i < l.length), base + size ≤ i → b < key l[i]) :
    ∃ i, searchBase key b l fuel size base = i ∧ ∃ hi : i < l.length,
      (∀ j (hj : j < l.length), j < i → key l[j] < b) ∧ (0 < i → key l[i] ≤ b) ∧
        ∀ j (hj : j < l.length), i < j → b < key l[j] := by
  induction fuel generalizing size base with
  | zero => omega
  | succ fuel ih =>
    rw [searchBase]
    split_ifs with h1
    · exact ⟨base, rfl, by omega, hbase, fun h => hbase' h _, fun j hj h => habove j hj (by omega)⟩
    · have hmid : base + size / 2 < l.length := by omega
      simp only [List.getElem?_eq_getElem hmid, Option.any_some, decide_eq_true_eq]
      split_ifs with hlt
      · refine ih (by omega) (by omega) (by omega) hbase hbase' ?_
        intro i hi hle
        rcases (show base + size / 2 ≤ i by omega).eq_or_lt with rfl | h
        · exact hlt
        · exact hlt.trans (hl.getElem_lt hmid hi h)
      · refine ih (by omega) (by omega) (by omega) ?_ ?_ fun i hi hle => habove i hi (by omega)
        · grind [SortedBy.getElem_lt]
        · intro _ _
          exact not_lt.1 hlt

/-- What a search answers in a sorted list. -/
theorem binarySearch_spec (hl : SortedBy key l) :
    match binarySearch key b l with
    | .ok i => ∃ hi : i < l.length, key l[i] = b
    | .error i => (∀ a ∈ l.take i, key a < b) ∧ ∀ a ∈ l.drop i, b < key a := by
  cases l with
  | nil => simp [binarySearch, searchBase]
  | cons first tail =>
    have hpos : 0 < (first :: tail).length := Nat.succ_pos _
    obtain ⟨i, hsearch, hi, hbelow, hle, habove⟩ := searchBase_spec hl (b := b) le_rfl hpos
      (Nat.zero_add _).le (by omega) (by omega) (by omega)
    rw [binarySearch, hsearch]
    simp only [List.getElem?_eq_getElem hi]
    have htake : ∀ k, (∀ j (hj : j < (first :: tail).length), j < k → key (first :: tail)[j] < b) →
        ∀ a ∈ (first :: tail).take k, key a < b := by grind [List.mem_iff_getElem]
    have hdrop : ∀ k, (∀ j (hj : j < (first :: tail).length), k ≤ j → b < key (first :: tail)[j]) →
        ∀ a ∈ (first :: tail).drop k, b < key a := by grind [List.mem_iff_getElem]
    split_ifs with heq hlt
    · exact ⟨hi, heq⟩
    · grind
    · -- A greater item can only be the first one.
      grind

/-! ## Insertion and removal -/

/-- The list with an item in its place, unless its key is there already. -/
def insertSorted (key : α → β) (a : α) (l : List α) : Option (List α) :=
  match binarySearch key (key a) l with
  | .ok _ => none
  | .error i => some (l.take i ++ a :: l.drop i)

/-- The item with the given key, and the list without it. -/
def eraseSorted (key : α → β) (b : β) (l : List α) : Option (α × List α) :=
  match binarySearch key b l with
  | .ok i => (l[i]?).map fun a => (a, l.eraseIdx i)
  | .error _ => none

/-- Two sorted lists of the same items are the same. -/
theorem SortedBy.eq_of_perm {l' : List α} (hl : SortedBy key l) (hl' : SortedBy key l')
    (h : l.Perm l') : l = l' :=
  List.Perm.eq_of_pairwise (fun _ _ _ _ hab hba => absurd hab hba.asymm) hl hl' h

theorem SortedBy.nodup_map (hl : SortedBy key l) : (l.map key).Nodup :=
  List.pairwise_map.2 (hl.imp fun h => h.ne)

theorem SortedBy.sublist {l' : List α} (hl : SortedBy key l) (h : l'.Sublist l) :
    SortedBy key l' :=
  List.Pairwise.sublist h hl

theorem sortedBy_append {l' : List α} :
    SortedBy key (l ++ l') ↔
      SortedBy key l ∧ SortedBy key l' ∧ ∀ a ∈ l, ∀ a' ∈ l', key a < key a' :=
  List.pairwise_append

theorem insertSorted_eq_some_iff (hl : SortedBy key l) {a : α} {l' : List α} :
    insertSorted key a l = some l' ↔ SortedBy key l' ∧ l'.Perm (a :: l) := by
  have hspec := binarySearch_spec (b := key a) hl
  rw [insertSorted]
  cases hsearch : binarySearch key (key a) l with
  | ok i =>
    rw [hsearch] at hspec
    obtain ⟨hi, heq⟩ := hspec
    simp only [reduceCtorEq, false_iff, not_and]
    intro hl' hperm
    have hnodup : ((a :: l).map key).Nodup := (hperm.map key).nodup_iff.1 hl'.nodup_map
    grind
  | error i =>
    rw [hsearch] at hspec
    obtain ⟨hbelow, habove⟩ := hspec
    have hsorted : SortedBy key (l.take i ++ a :: l.drop i) := by
      rw [← List.take_append_drop i l, sortedBy_append] at hl
      obtain ⟨htake, hdrop, hlt⟩ := hl
      refine sortedBy_append.2 ⟨htake, List.pairwise_cons.2 ⟨habove, hdrop⟩, ?_⟩
      grind
    have hperm : (l.take i ++ a :: l.drop i).Perm (a :: l) := by
      nth_rewrite 3 [← List.take_append_drop i l]
      exact List.perm_middle
    rw [Option.some.injEq]
    constructor
    · rintro rfl
      exact ⟨hsorted, hperm⟩
    · rintro ⟨hl', hperm'⟩
      exact hsorted.eq_of_perm hl' (hperm.trans hperm'.symm)

/-- An item with the greatest key goes to the end. -/
theorem insertSorted_append (hl : SortedBy key l) {a : α} (h : ∀ x ∈ l, key x < key a) :
    insertSorted key a l = some (l ++ [a]) := by
  refine (insertSorted_eq_some_iff hl).2 ⟨?_, List.perm_append_singleton a l⟩
  exact sortedBy_append.2 ⟨hl, List.pairwise_singleton _ _, by simpa using h⟩

theorem eraseSorted_eq_some (hl : SortedBy key l) {a : α} {l' : List α}
    (h : eraseSorted key b l = some (a, l')) :
    key a = b ∧ l.Perm (a :: l') ∧ SortedBy key l' := by
  have hspec := binarySearch_spec (b := b) hl
  rw [eraseSorted] at h
  grind [List.getElem_cons_eraseIdx_perm, List.Perm.symm, SortedBy.sublist]

end Search

end WireMesh
