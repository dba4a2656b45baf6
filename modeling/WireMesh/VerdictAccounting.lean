import WireMesh.Machine
import WireMesh.TypeScript.VerdictCache

/-!
# What the verdict cache charges

The calls of the cache, the verdicts that are reached and the computations that end come in any
order. Whatever it is, the cache charges the entries that it keeps and, apart from them, the
computations that have not ended; and the entries fit the budget.

* `Accounted`: the invariant, which each step keeps (`Accounted.next`).
* `verdict_cache_correct`: it holds in every run, and every verdict that is given is that of the
  check on the bytes of the call.
-/

namespace WireMesh

theorem OrderedMap.sum_delete {K V : Type*} [DecidableEq K] (f : V → ℤ) {m : OrderedMap K V} {k : K}
    {v : V} (h : m.get k = some v) :
    ((m.delete k).values.map f).sum = (m.values.map f).sum - f v := by
  have hmem := mem_entries_iff.2 h
  obtain ⟨entries, hnodup⟩ := m
  simp only [delete, filter, values] at hmem ⊢
  clear h
  induction entries with
  | nil => cases hmem
  | cons e entries ih =>
    rw [List.map_cons, List.nodup_cons] at hnodup
    rcases List.mem_cons.1 hmem with rfl | hmem
    · have hrest : entries.filter (fun e => decide (e.1 ≠ k)) = entries :=
        List.filter_eq_self.2 (by grind)
      rw [List.filter_cons_of_neg (by simp), hrest]
      simp
    · have hne : e.1 ≠ k := by grind
      have hsum := ih hnodup.2 hmem
      simp only [ne_eq, hne, not_false_eq_true, decide_true, List.filter_cons_of_pos, List.map_cons,
        List.sum_cons] at hsum ⊢
      omega

namespace TypeScript

theorem length_bytesKey (parts : List Bytes) : (bytesKey parts).length = bytesKeyLength parts := by
  rw [bytesKey, String.length_ofList, List.length_flatMap, bytesKeyLength]
  refine congrArg List.sum (List.map_congr_left fun part _ => ?_)
  simp only [List.length_append, List.length_cons, List.length_map, String.length_toList]
  omega

namespace VerdictCache

/-! ## Runs -/

inductive Event
  | verdict (parts : List Bytes)
  | resolve (computation : ℕ)
  | settle (computation : ℕ)

/-- The checks are functions of the bytes. -/
def next (budgetBytes : ℕ) (check : List Bytes → Option Bool) (cache : VerdictCache (List Bytes)) :
    Event → VerdictCache (List Bytes)
  | .verdict parts => (cache.verdict budgetBytes parts parts).1
  | .resolve n => cache.resolve check n
  | .settle n => cache.settle n

/-! ## Accounting -/

section Accounting

variable {α : Type} {budgetBytes : ℕ} {check : α → Option Bool} {cache : VerdictCache α}

/-- What the entries cost. -/
def entriesCost (cache : VerdictCache α) : ℤ := (cache.entries.values.map fun e => (e.cost : ℤ)).sum

/-- What a computation is charged for, until it ends. -/
def inFlight (c : Computation α) : ℤ :=
  match c.progress with
  | .settled _ => 0
  | _ => c.kept.elim 0 fun k => k.2

@[grind cases]
structure Accounted (budgetBytes : ℕ) (cache : VerdictCache α) : Prop where
  used_eq : cache.used = cache.entriesCost
  used_le : cache.used ≤ budgetBytes
  pending_eq : cache.pending = (cache.computations.map inFlight).sum

theorem accounted_empty : Accounted budgetBytes (empty : VerdictCache α) :=
  ⟨rfl, Int.natCast_nonneg _, rfl⟩

theorem used_forget (h : cache.used = cache.entriesCost) (key : String) :
    (cache.forget key).used = (cache.forget key).entriesCost ∧
      (cache.forget key).used ≤ cache.used := by
  rw [forget]
  split
  · exact ⟨h, le_rfl⟩
  · next entry hentry =>
    have hsum := OrderedMap.sum_delete (fun e : CacheEntry => (e.cost : ℤ)) hentry
    simp only [entriesCost] at h hsum ⊢
    omega

@[simp]
theorem forget_pending (key : String) : (cache.forget key).pending = cache.pending := by
  rw [forget]
  split <;> rfl

theorem Accounted.forget (h : Accounted budgetBytes cache) (key : String) :
    Accounted budgetBytes (cache.forget key) := by
  obtain ⟨hused, hle⟩ := used_forget h.used_eq key
  refine ⟨hused, hle.trans h.used_le, ?_⟩
  rw [forget_pending, forget_computations, h.pending_eq]

/-- Once all keys are forgotten nothing is charged for the entries, and before that it fits. -/
theorem used_evict (h : cache.used = cache.entriesCost) {keys : List String}
    (hkeys : ∀ key ∈ cache.entries.keys, key ∈ keys) :
    (evict budgetBytes keys cache).used = (evict budgetBytes keys cache).entriesCost ∧
      (evict budgetBytes keys cache).used ≤ budgetBytes ∧
      (evict budgetBytes keys cache).pending = cache.pending ∧
      (evict budgetBytes keys cache).computations = cache.computations := by
  induction keys generalizing cache with
  | nil =>
    have hnone : cache.entries.entries = [] := by
      refine List.eq_nil_iff_forall_not_mem.2 fun e he => ?_
      exact absurd (hkeys e.1 (List.mem_map_of_mem he)) List.not_mem_nil
    have hcost : cache.entriesCost = 0 := by simp [entriesCost, OrderedMap.values, hnone]
    exact ⟨h, by rw [evict, h, hcost]; exact Int.natCast_nonneg _, rfl, rfl⟩
  | cons key keys ih =>
    rw [evict]
    split_ifs with hfits
    · exact ⟨h, hfits, rfl, rfl⟩
    · have hforget := ih (used_forget h key).1 fun key' hkey' => by
        obtain ⟨entry, hentry⟩ := OrderedMap.mem_keys_iff.1 hkey'
        have hold := hkeys key' (OrderedMap.mem_keys_iff.2 ⟨entry, get_of_get_forget hentry⟩)
        refine (List.mem_cons.1 hold).resolve_left ?_
        rintro rfl
        grind [VerdictCache.forget, OrderedMap.get_delete]
      rwa [forget_pending, forget_computations] at hforget

theorem accounted_evict (hused : cache.used = cache.entriesCost)
    (hpending : cache.pending = (cache.computations.map inFlight).sum) :
    Accounted budgetBytes (evict budgetBytes cache.entries.keys cache) := by
  obtain ⟨hused, hle, hsame, hcomputations⟩ := @used_evict α budgetBytes cache hused _
    fun _ h => h
  exact ⟨hused, hle, by rw [hsame, hpending, hcomputations]⟩

theorem Accounted.keep (h : Accounted budgetBytes cache) {key : String}
    (hkey : cache.entries.get key = none) (cost : ℕ) (arg : α) :
    Accounted budgetBytes (cache.keep budgetBytes key cost arg) := by
  have hnew : key ∉ cache.entries.keys := by
    rw [OrderedMap.mem_keys_iff, hkey]
    simp
  rw [VerdictCache.keep]
  refine @accounted_evict α budgetBytes { cache.compute arg (some (key, cost)) with
    entries := cache.entries.set key ⟨cache.computations.length, cost⟩
    used := cache.used + cost
    pending := cache.pending + cost } ?_ ?_
  · simp [entriesCost, OrderedMap.values, OrderedMap.entries_set_of_notMem hnew, h.used_eq]
  · simp [compute, h.pending_eq, inFlight]

theorem Accounted.verdict (h : Accounted budgetBytes cache) (parts : List Bytes) (arg : α) :
    Accounted budgetBytes (cache.verdict budgetBytes parts arg).1 := by
  have hdirect : Accounted budgetBytes (cache.compute arg none) :=
    ⟨h.used_eq, h.used_le, by simp [compute, h.pending_eq, inFlight]⟩
  rw [VerdictCache.verdict]
  split_ifs
  · exact hdirect
  · exact hdirect
  · dsimp only
    split
    · next held hget =>
      refine ⟨?_, h.used_le, h.pending_eq⟩
      have hsum := OrderedMap.sum_delete (fun e : CacheEntry => (e.cost : ℤ)) hget
      have hnew : bytesKey parts ∉ (cache.entries.delete (bytesKey parts)).keys := by
        rw [OrderedMap.mem_keys_iff]
        simp [OrderedMap.get_delete]
      rw [OrderedMap.values] at hsum
      have hused := h.used_eq
      simp only [entriesCost, OrderedMap.values, OrderedMap.entries_set_of_notMem hnew,
        List.map_append, List.sum_append, List.map_cons, List.map_nil, List.sum_cons,
        List.sum_nil] at hsum hused ⊢
      omega
    · next hget => exact h.keep hget _ _

/-- The charge of one computation changes. -/
theorem sum_inFlight_put {n : ℕ} {c c' : Computation α} (hc : cache.computations[n]? = some c) :
    ((cache.put n c').computations.map inFlight).sum =
      (cache.computations.map inFlight).sum - inFlight c + inFlight c' := by
  have hsplit : ∀ (l : List (Computation α)) (n : ℕ), l[n]? = some c →
      ((l.set n c').map inFlight).sum = (l.map inFlight).sum - inFlight c + inFlight c' := by
    intro l
    induction l with
    | nil => simp
    | cons a l ih =>
      intro n hn
      cases n with
      | zero =>
        cases hn
        simp only [List.set_cons_zero, List.map_cons, List.sum_cons]
        omega
      | succ n =>
        have := ih n hn
        simp only [List.set_cons_succ, List.map_cons, List.sum_cons]
        omega
  exact hsplit _ _ hc

theorem Accounted.resolve (h : Accounted budgetBytes cache) (n : ℕ) :
    Accounted budgetBytes (cache.resolve check n) := by
  rw [VerdictCache.resolve]
  split
  · next arg kept hc =>
    have hput : Accounted budgetBytes (cache.put n ⟨arg, kept,
        .decided ((check arg).getD false)⟩) :=
      ⟨h.used_eq, h.used_le, by rw [sum_inFlight_put hc, ← h.pending_eq]; simp [inFlight, put]⟩
    dsimp only
    split
    · exact hput.forget _
    · exact hput
  · exact h

theorem Accounted.settle (h : Accounted budgetBytes cache) (n : ℕ) :
    Accounted budgetBytes (cache.settle n) := by
  rw [VerdictCache.settle]
  split
  · next arg kept verdict hc =>
    refine ⟨h.used_eq, h.used_le, ?_⟩
    have hsum := @sum_inFlight_put α cache n _ ⟨arg, kept, .settled verdict⟩ hc
    dsimp only at hsum ⊢
    rw [hsum, ← h.pending_eq]
    cases kept <;> simp [inFlight]
  · exact h

end Accounting

variable {budgetBytes : ℕ} {check : List Bytes → Option Bool}

theorem Accounted.next {cache : VerdictCache (List Bytes)} (h : Accounted budgetBytes cache)
    (e : Event) : Accounted budgetBytes (cache.next budgetBytes check e) := by
  cases e with
  | verdict parts => exact h.verdict parts parts
  | resolve n => exact h.resolve n
  | settle n => exact h.settle n

/-- No step changes whose verdicts there are, or whose computation has which number. -/
theorem Sound.next {cache : VerdictCache (List Bytes)} (h : Sound id check cache) (e : Event) :
    Sound id check (cache.next budgetBytes check e) ∧
      Extends cache (cache.next budgetBytes check e) := by
  cases e with
  | verdict parts => exact ⟨(h.call budgetBytes parts).1, (h.call budgetBytes parts).2.1⟩
  | resolve n => exact h.resolve n
  | settle n => exact h.settle n

theorem Sound.run {cache : VerdictCache (List Bytes)} (h : Sound id check cache)
    (events : List Event) :
    Sound id check (Machine.run (VerdictCache.next budgetBytes check) cache events) ∧
      Extends cache (Machine.run (VerdictCache.next budgetBytes check) cache events) := by
  refine Machine.run_invariant (P := fun cache' => Sound id check cache' ∧ Extends cache cache')
    ⟨h, .refl _⟩ ?_ events
  intro cache' e hcache'
  have hnext := @Sound.next budgetBytes check cache' hcache'.1 e
  exact ⟨hnext.1, hcache'.2.trans hnext.2⟩

end VerdictCache

open VerdictCache

/-- Keys are told apart, and are as long as was foreseen. In every run, what is charged is what is
    kept and what is in flight, the entries fit the budget, and the verdict of a call, whenever it
    comes, is the one of the check on the bytes of the call. -/
theorem verdict_cache_correct (budgetBytes : ℕ) (check : List Bytes → Option Bool)
    (events : List Event) :
    let cache := Machine.run (VerdictCache.next budgetBytes check) .empty events
    (Function.Injective bytesKey ∧ ∀ parts, (bytesKey parts).length = bytesKeyLength parts) ∧
      Accounted budgetBytes cache ∧
      ∀ (parts : List Bytes) (events' : List Event) (v : Bool),
        (Machine.run (VerdictCache.next budgetBytes check)
          (cache.verdict budgetBytes parts parts).1 events').answer
            (cache.verdict budgetBytes parts parts).2 = some v →
        v = (check parts).getD false := by
  intro cache
  refine ⟨⟨bytesKey_injective, length_bytesKey⟩, ?_, fun parts events' v hv => ?_⟩
  · exact Machine.run_invariant accounted_empty (fun _ e h => Accounted.next h e) events
  · have hsound : VerdictCache.Sound id check cache := (sound_empty.run events).1
    obtain ⟨hcall, -, c, hc, harg⟩ := hsound.call budgetBytes parts
    obtain ⟨hlater, hextends⟩ := @VerdictCache.Sound.run budgetBytes check _ hcall events'
    obtain ⟨c', hc', harg'⟩ := hextends _ c hc
    rw [hlater.answer hc' hv, harg']
    exact congrArg (fun parts => (check parts).getD false) harg

end TypeScript

end WireMesh
