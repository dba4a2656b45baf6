import Mathlib.Data.List.Basic
import WireMesh.OrderedMap
import WireMesh.Text

/-!
# The verdict cache

The memo of verdicts of `verdict-cache.ts`, for checks that are functions of bytes. A call
gets the verdict of a computation: one that it starts, or the one under its key that an
earlier call has started. The computations go on by themselves, and the least recently used
ones are no longer kept when their keys take too much room.

* `bytesKey_injective`: a key is that of one list of byte strings only.
* `VerdictCache.Sound`: every call gets the verdict of a computation on the same bytes.
-/

namespace WireMesh.TypeScript

/-! ## Keys -/

def entryOverheadBytes : ℕ := 16

/-- The number of characters of a key. -/
def bytesKeyLength (parts : List Bytes) : ℕ :=
  (parts.map fun part => (toString part.length).length + 1 + part.length).sum

/-- The character with the code of a byte. -/
def byteChar (b : UInt8) : Char := Char.ofNat b.toNat

/-- The length of each part, a colon, and a character for each byte of the part. -/
def bytesKey (parts : List Bytes) : String :=
  .ofList (parts.flatMap fun part => (toString part.length).toList ++ ':' :: part.map byteChar)

theorem byteChar_injective : Function.Injective byteChar := by
  intro a b h
  have htoNat (x : UInt8) : (byteChar x).toNat = x.toNat := by
    have hvalid : x.toNat.isValidChar := .inl (x.toNat_lt.trans (by decide))
    rw [byteChar, Char.ofNat, dif_pos hvalid]
    rfl
  rw [← UInt8.toNat_inj, ← htoNat, h, htoNat]

theorem colon_notMem_toString (n : ℕ) : ':' ∉ (toString n).toList := by
  rw [toString_toList]
  intro h
  exact absurd (Nat.isDigit_of_mem_toDigits (by decide) (by decide) h) (by decide)

theorem takeWhile_number (n : ℕ) (rest : List Char) :
    ((toString n).toList ++ ':' :: rest).takeWhile (· ≠ ':') = (toString n).toList := by
  have hdigits : ∀ c ∈ (toString n).toList, decide (c ≠ ':') = true := by
    grind [colon_notMem_toString]
  rw [List.takeWhile_append_of_pos hdigits]
  simp

theorem bytesKey_injective : Function.Injective bytesKey := by
  intro parts parts' h
  replace h := String.ofList_injective h
  induction parts generalizing parts' with
  | nil =>
    cases parts' with
    | nil => rfl
    | cons part' parts' => simp at h
  | cons part parts ih =>
    cases parts' with
    | nil => simp at h
    | cons part' parts' =>
      simp only [List.flatMap_cons, List.append_assoc, List.cons_append] at h
      -- The number before the first colon is the length of the first part.
      grind [takeWhile_number, List.append_inj, toString_injective, List.map_injective_iff,
        byteChar_injective]

/-! ## The cache -/

/-- How far a computation is: its verdict is there once it has run, and is given to those who
    wait for it once its key is no longer charged. -/
inductive Progress
  | running
  | decided (verdict : Bool)
  | settled (verdict : Bool)
deriving DecidableEq

/-- The computation of a verdict on `arg`. A kept one is charged for its key. -/
structure Computation (α : Type) where
  arg : α
  kept : Option (String × ℕ)
  progress : Progress := .running

structure CacheEntry where
  /-- The number of the computation. -/
  settled : ℕ
  cost : ℕ

structure VerdictCache (α : Type) where
  /-- The entries, the least recently used ones first. -/
  entries : OrderedMap String CacheEntry
  used : ℤ
  pending : ℤ
  /-- The computations that were started, in order. -/
  computations : List (Computation α)

namespace VerdictCache

variable {α : Type}

def empty : VerdictCache α where
  entries := .empty
  used := 0
  pending := 0
  computations := []

def forget (cache : VerdictCache α) (key : String) : VerdictCache α :=
  match cache.entries.get key with
  | none => cache
  | some entry =>
    { cache with entries := cache.entries.delete key, used := cache.used - entry.cost }

/-- The keys are forgotten one after the other, as long as there is not enough room. -/
def evict (budgetBytes : ℕ) : List String → VerdictCache α → VerdictCache α
  | [], cache => cache
  | oldest :: keys, cache =>
    if cache.used ≤ budgetBytes then cache else evict budgetBytes keys (cache.forget oldest)

def compute (cache : VerdictCache α) (arg : α) (kept : Option (String × ℕ)) : VerdictCache α :=
  { cache with computations := cache.computations ++ [{ arg, kept }] }

/-- A computation is started and kept under its key. -/
def keep (budgetBytes : ℕ) (cache : VerdictCache α) (key : String) (cost : ℕ) (arg : α) :
    VerdictCache α :=
  let entries := cache.entries.set key { settled := cache.computations.length, cost }
  evict budgetBytes entries.keys
    { cache.compute arg (some (key, cost)) with
      entries := entries
      used := cache.used + cost
      pending := cache.pending + cost }

/-- The cache after a call, and the number of the computation that it gets its verdict from. -/
def verdict (budgetBytes : ℕ) (cache : VerdictCache α) (parts : List Bytes) (arg : α) :
    VerdictCache α × ℕ :=
  let cost := bytesKeyLength parts + entryOverheadBytes
  if budgetBytes < cost then (cache.compute arg none, cache.computations.length)
  else if budgetBytes < cache.pending + cost then
    (cache.compute arg none, cache.computations.length)
  else
    let key := bytesKey parts
    match cache.entries.get key with
    | some held => ({ cache with entries := (cache.entries.delete key).set key held }, held.settled)
    | none => (cache.keep budgetBytes key cost arg, cache.computations.length)

/-- The computation with the given number gets further. -/
def put (cache : VerdictCache α) (n : ℕ) (c : Computation α) : VerdictCache α :=
  { cache with computations := cache.computations.set n c }

/-- The computation with the given number runs. What gives no verdict counts as a refusal, and
    is not kept. -/
def resolve (check : α → Option Bool) (cache : VerdictCache α) (n : ℕ) : VerdictCache α :=
  match cache.computations[n]? with
  | some ⟨arg, kept, .running⟩ =>
    let decided := cache.put n ⟨arg, kept, .decided ((check arg).getD false)⟩
    match check arg, kept with
    | none, some (key, _) => decided.forget key
    | _, _ => decided
  | _ => cache

/-- The verdict is given to those who wait for it. -/
def settle (cache : VerdictCache α) (n : ℕ) : VerdictCache α :=
  match cache.computations[n]? with
  | some ⟨arg, kept, .decided verdict⟩ =>
    { cache.put n ⟨arg, kept, .settled verdict⟩ with
      pending := cache.pending - (kept.elim 0 fun k => k.2) }
  | _ => cache

/-- The verdict of a computation, once it is given. -/
def answer (cache : VerdictCache α) (n : ℕ) : Option Bool :=
  cache.computations[n]?.bind fun c => match c.progress with
    | .settled verdict => some verdict
    | _ => none

/-! ## Whose verdict a call gets -/

/-- The verdict of the computation, once it has one, is that of the check. -/
def Agrees (check : α → Option Bool) (c : Computation α) : Prop :=
  ∀ v, c.progress = .decided v ∨ c.progress = .settled v → v = (check c.arg).getD false

/-- The verdicts are those of the check, and the computation of an entry is on bytes with the
    key of the entry. -/
@[grind cases]
structure Sound (parts : α → List Bytes) (check : α → Option Bool) (cache : VerdictCache α) :
    Prop where
  entry : ∀ key entry, cache.entries.get key = some entry →
    ∃ c : Computation α, cache.computations[entry.settled]? = some c ∧
      bytesKey (parts c.arg) = key
  verdict : ∀ c ∈ cache.computations, Agrees check c

/-- The computations of a cache are still there in the other one. -/
def Extends (cache cache' : VerdictCache α) : Prop :=
  ∀ (n : ℕ) (c : Computation α), cache.computations[n]? = some c →
    ∃ c' : Computation α, cache'.computations[n]? = some c' ∧ c'.arg = c.arg

theorem Extends.refl (cache : VerdictCache α) : Extends cache cache := fun _ c h => ⟨c, h, rfl⟩

theorem Extends.trans {cache cache' cache'' : VerdictCache α} (h : Extends cache cache')
    (h' : Extends cache' cache'') : Extends cache cache'' := by
  intro n c hc
  obtain ⟨c', hc', harg⟩ := h n c hc
  obtain ⟨c'', hc'', harg'⟩ := h' n c' hc'
  exact ⟨c'', hc'', harg'.trans harg⟩

variable {parts : α → List Bytes} {check : α → Option Bool} {cache : VerdictCache α}

theorem sound_empty : Sound parts check (empty : VerdictCache α) where
  entry key entry h := by simp [empty] at h
  verdict c h := by simp [empty] at h

/-- Fewer entries, and more computations that have not run, are as sound. -/
theorem Sound.of_extends (h : Sound parts check cache) {cache' : VerdictCache α}
    (hentries : ∀ key entry, cache'.entries.get key = some entry →
      cache.entries.get key = some entry ∨
        ∃ c : Computation α, cache'.computations[entry.settled]? = some c ∧
          bytesKey (parts c.arg) = key)
    (hextends : Extends cache cache') (hverdict : ∀ c ∈ cache'.computations, Agrees check c) :
    Sound parts check cache' where
  entry key entry hget := by
    rcases hentries key entry hget with hget | hc
    · obtain ⟨c, hc, hkey⟩ := h.entry key entry hget
      obtain ⟨c', hc', harg⟩ := hextends _ c hc
      exact ⟨c', hc', by rw [harg, hkey]⟩
    · exact hc
  verdict := hverdict

@[simp]
theorem forget_computations (key : String) :
    (cache.forget key).computations = cache.computations := by
  rw [forget]
  split <;> rfl

theorem get_of_get_forget {key key' : String} {entry : CacheEntry}
    (h : (cache.forget key).entries.get key' = some entry) :
    cache.entries.get key' = some entry := by grind [forget, OrderedMap.get_delete_eq_some]

theorem Sound.forget (h : Sound parts check cache) (key : String) :
    Sound parts check (cache.forget key) := by
  grind [of_extends, get_of_get_forget, Extends, forget_computations]

theorem Sound.evict (h : Sound parts check cache) (budgetBytes : ℕ) (keys : List String) :
    Sound parts check (evict budgetBytes keys cache) ∧
      (evict budgetBytes keys cache).computations = cache.computations := by
  induction keys generalizing cache with
  | nil => exact ⟨h, rfl⟩
  | cons key keys ih => grind [VerdictCache.evict, forget, forget_computations]

theorem extends_compute (arg : α) (kept : Option (String × ℕ)) :
    Extends cache (cache.compute arg kept) := by
  intro n c hc
  grind [compute]

theorem getElem?_compute_length (arg : α) (kept : Option (String × ℕ)) :
    (cache.compute arg kept).computations[cache.computations.length]? = some { arg, kept } := by
  simp [compute]

theorem agrees_compute (h : Sound parts check cache) (arg : α) (kept : Option (String × ℕ)) :
    ∀ c ∈ (cache.compute arg kept).computations, Agrees check c := by
  intro c hc
  rcases List.mem_append.1 hc with hc | hc
  · exact h.verdict c hc
  · obtain rfl := List.mem_singleton.1 hc
    simp [Agrees]

theorem Sound.compute (h : Sound parts check cache) (arg : α) (kept : Option (String × ℕ)) :
    Sound parts check (cache.compute arg kept) :=
  h.of_extends (fun _ _ hget => .inl hget) (extends_compute arg kept) (agrees_compute h arg kept)

theorem Sound.keep (h : Sound parts check cache) (budgetBytes cost : ℕ) (arg : α) :
    Sound parts check (cache.keep budgetBytes (bytesKey (parts arg)) cost arg) ∧
      (cache.keep budgetBytes (bytesKey (parts arg)) cost arg).computations =
        (cache.compute arg (some (bytesKey (parts arg), cost))).computations := by
  have hkept : Sound parts check
      { cache.compute arg (some (bytesKey (parts arg), cost)) with
        entries := cache.entries.set (bytesKey (parts arg)) ⟨cache.computations.length, cost⟩
        used := cache.used + cost
        pending := cache.pending + cost } := by
    refine h.of_extends ?_ (extends_compute arg _) (agrees_compute h arg _)
    intro key entry hentry
    rw [OrderedMap.get_set] at hentry
    split at hentry
    next hkey =>
      cases hentry
      exact .inr ⟨_, getElem?_compute_length arg _, hkey.symm⟩
    next => exact .inl hentry
  exact hkept.evict budgetBytes _

/-- A call gets the verdict of a computation on the same bytes. -/
theorem Sound.call (h : Sound parts check cache) (budgetBytes : ℕ) (arg : α) :
    let after := cache.verdict budgetBytes (parts arg) arg
    Sound parts check after.1 ∧ Extends cache after.1 ∧
      ∃ c : Computation α, after.1.computations[after.2]? = some c ∧ parts c.arg = parts arg := by
  have hdirect : Sound parts check (cache.compute arg none) ∧
      Extends cache (cache.compute arg none) ∧ ∃ c : Computation α,
        (cache.compute arg none).computations[cache.computations.length]? = some c ∧
          parts c.arg = parts arg :=
    ⟨h.compute arg none, extends_compute arg none, _, getElem?_compute_length arg none, rfl⟩
  rw [VerdictCache.verdict]
  split_ifs
  · exact hdirect
  · exact hdirect
  · dsimp only
    split
    next held hget =>
      refine ⟨h.of_extends ?_ (.refl _) h.verdict, .refl _, ?_⟩
      · grind [OrderedMap.get_set, OrderedMap.get_delete_eq_some]
      · grind [bytesKey_injective]
    · grind [keep, Extends, extends_compute, getElem?_compute_length]

/-- A computation that gets further is still there. -/
theorem extends_put {n : ℕ} {c : Computation α} (hc : cache.computations[n]? = some c)
    {c' : Computation α} (harg : c'.arg = c.arg) : Extends cache (cache.put n c') := by
  intro m c₀ hc₀
  grind [put]

theorem Sound.put (h : Sound parts check cache) {n : ℕ} {c : Computation α}
    (hc : cache.computations[n]? = some c) {c' : Computation α} (harg : c'.arg = c.arg)
    (hagrees : Agrees check c') : Sound parts check (cache.put n c') := by
  refine h.of_extends (fun _ _ hget => .inl hget) (extends_put hc harg) ?_
  intro c₀ hc₀
  rcases List.mem_or_eq_of_mem_set hc₀ with hc₀ | rfl
  · exact h.verdict c₀ hc₀
  · exact hagrees

theorem Sound.resolve (h : Sound parts check cache) (n : ℕ) :
    Sound parts check (cache.resolve check n) ∧ Extends cache (cache.resolve check n) := by
  rw [VerdictCache.resolve]
  grind [put, Agrees, Extends, extends_put, forget, forget_computations]

theorem Sound.settle (h : Sound parts check cache) (n : ℕ) :
    Sound parts check (cache.settle n) ∧ Extends cache (cache.settle n) := by
  rw [VerdictCache.settle]
  split
  next arg kept verdict hc =>
    have hverdict : verdict = (check arg).getD false :=
      h.verdict _ (List.mem_of_getElem? hc) verdict (.inl rfl)
    have hsound : Sound parts check (cache.put n ⟨arg, kept, .settled verdict⟩) :=
      h.put hc rfl (by simp [Agrees, hverdict])
    exact ⟨⟨hsound.entry, hsound.verdict⟩, extends_put hc rfl⟩
  next => exact ⟨h, .refl _⟩

/-- The verdict that is given is that of the check. -/
theorem Sound.answer (h : Sound parts check cache) {n : ℕ} {c : Computation α} {v : Bool}
    (hc : cache.computations[n]? = some c) (hanswer : cache.answer n = some v) :
    v = (check c.arg).getD false := by
  rw [VerdictCache.answer, hc, Option.bind_some] at hanswer
  split at hanswer
  next verdict hprogress =>
    cases hanswer
    exact h.verdict c (List.mem_of_getElem? hc) v (.inr hprogress)
  next => cases hanswer

end VerdictCache

end WireMesh.TypeScript
