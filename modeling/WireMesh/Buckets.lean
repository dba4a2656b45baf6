import Mathlib.Data.List.AList
import Mathlib.Data.List.Nodup

/-!
# Buckets

A map from keys to lists, in which an absent key stands for the empty list, and
lists that keep the latest value of each owner:

* `bucket_modify`: a change of one bucket, seen at any key;
* `mem_admitLatest`: what a bucket holds after an admission;
* `LatestOf.concat`, `LatestOf.foldl`: admissions keep the latest value of each
  owner.
-/

namespace WireMesh

variable {κ α ω : Type} [DecidableEq κ]

/-- A map from keys to lists. -/
abbrev Buckets (κ α : Type) := AList fun _ : κ => List α

namespace Buckets

/-- The list of a key. -/
def bucket (m : Buckets κ α) (k : κ) : List α := (m.lookup k).getD []

/-- The map with the list of one key changed. -/
def modify (m : Buckets κ α) (k : κ) (f : List α → List α) : Buckets κ α :=
  m.insert k (f (m.bucket k))

@[simp]
theorem bucket_empty {k : κ} : (∅ : Buckets κ α).bucket k = [] := rfl

theorem bucket_modify {m : Buckets κ α} {k k' : κ} {f : List α → List α} :
    (m.modify k f).bucket k' = if k' = k then f (m.bucket k) else m.bucket k' := by
  grind [bucket, modify, AList.lookup_insert, AList.lookup_insert_ne]

/-- All the values in the map. -/
def values (m : Buckets κ α) : List α := m.entries.flatMap Sigma.snd

theorem mem_values_of_mem_bucket {m : Buckets κ α} {k : κ} {a : α} (h : a ∈ m.bucket k) :
    a ∈ m.values := by
  rw [bucket] at h
  cases hlookup : m.lookup k with
  | none => simp [hlookup] at h
  | some l =>
    rw [hlookup, Option.getD_some] at h
    exact List.mem_flatMap.2 ⟨⟨k, l⟩, AList.mem_lookup_iff.1 hlookup, h⟩

end Buckets

/-! ## The latest value of each owner -/

section Latest

variable (owner : α → ω) (stamp : α → ℕ)

/-- The bucket holds the latest value of each owner in the log. -/
@[grind cases]
structure LatestOf (log bucket : List α) : Prop where
  nodup : (bucket.map owner).Nodup
  mem_log : ∀ x ∈ bucket, x ∈ log
  covers : ∀ y ∈ log, ∃ x ∈ bucket, owner x = owner y ∧ stamp y ≤ stamp x

variable {owner stamp} {log bucket : List α} {a x : α}

theorem LatestOf.nil : LatestOf owner stamp [] [] :=
  ⟨List.nodup_nil, nofun, nofun⟩

theorem LatestOf.eq_of_owner (h : LatestOf owner stamp log bucket) {y : α}
    (hx : x ∈ bucket) (hy : y ∈ bucket) (howner : owner x = owner y) : x = y :=
  List.inj_on_of_nodup_map h.nodup hx hy howner

/-- Nothing in the log is later than what the bucket holds of the same owner. -/
theorem LatestOf.stamp_le (h : LatestOf owner stamp log bucket)
    (hx : x ∈ bucket) {y : α} (hy : y ∈ log) (howner : owner y = owner x) :
    stamp y ≤ stamp x := by grind [eq_of_owner]

variable [DecidableEq ω]

variable (owner stamp) in
/-- A value takes the place of the one of the same owner, unless that one is later. -/
def admitLatest : List α → α → List α
  | [], a => [a]
  | b :: bucket, a =>
    if owner b = owner a then
      if stamp b ≤ stamp a then a :: bucket else b :: bucket
    else b :: admitLatest bucket a

theorem owner_mem_admitLatest {o : ω} :
    o ∈ (admitLatest owner stamp bucket a).map owner ↔ o = owner a ∨ o ∈ bucket.map owner := by
  induction bucket with
  | nil => simp [admitLatest]
  | cons b bucket ih => grind [admitLatest]

theorem owner_mem_foldl_admitLatest {o : ω} {more : List α} :
    o ∈ (more.foldl (admitLatest owner stamp) bucket).map owner ↔
      o ∈ more.map owner ∨ o ∈ bucket.map owner := by
  induction more generalizing bucket with
  | nil => simp
  | cons a more ih => grind [owner_mem_admitLatest]

theorem nodup_admitLatest (h : (bucket.map owner).Nodup) :
    ((admitLatest owner stamp bucket a).map owner).Nodup := by
  induction bucket with
  | nil => simp [admitLatest]
  | cons b bucket ih => grind [admitLatest, owner_mem_admitLatest]

/-- After an admission a bucket holds what it held, unless replaced, and what is admitted,
    unless outdated. -/
theorem mem_admitLatest (h : (bucket.map owner).Nodup) :
    x ∈ admitLatest owner stamp bucket a ↔
      (x ∈ bucket ∧ (owner x = owner a → stamp a < stamp x)) ∨
        (x = a ∧ ∀ b ∈ bucket, owner b = owner a → stamp b ≤ stamp a) := by
  induction bucket with
  | nil => simp [admitLatest]
  | cons b bucket ih =>
    obtain ⟨hb, hbucket⟩ := List.nodup_cons.1 h
    rw [admitLatest]
    split_ifs with howner hstamp
    all_goals
      -- no other value has the owner of the one at the front
      grind

/-- What a bucket held stays, unless what is admitted takes its place. -/
theorem mem_admitLatest_or (h : (bucket.map owner).Nodup) (hx : x ∈ bucket) :
    (x ∈ admitLatest owner stamp bucket a ∧ (owner x = owner a → stamp a < stamp x)) ∨
      (a ∈ admitLatest owner stamp bucket a ∧ owner x = owner a ∧ stamp x ≤ stamp a) := by
  grind [mem_admitLatest, List.inj_on_of_nodup_map]

/-- An admission keeps the latest values. -/
theorem LatestOf.concat (h : LatestOf owner stamp log bucket) :
    LatestOf owner stamp (log ++ [a]) (admitLatest owner stamp bucket a) := by
  refine ⟨nodup_admitLatest h.nodup, fun x hx => ?_, fun y hy => ?_⟩
  · grind [mem_admitLatest]
  · rcases List.mem_append.1 hy with hy | hy
    · grind [mem_admitLatest_or]
    · grind [mem_admitLatest]

/-- A sequence of admissions keeps the latest values. -/
theorem LatestOf.foldl (h : LatestOf owner stamp log bucket) (more : List α) :
    LatestOf owner stamp (log ++ more) (more.foldl (admitLatest owner stamp) bucket) := by
  induction more generalizing log bucket with
  | nil => simpa using h
  | cons a more ih =>
    have hadmit := ih (h.concat (a := a))
    rwa [List.append_assoc] at hadmit

end Latest

end WireMesh
