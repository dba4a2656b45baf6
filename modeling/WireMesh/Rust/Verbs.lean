import WireMesh.Pattern
import WireMesh.Rust.Predicates

/-!
# The grammar of verbs

The three tiers of verbs as the regular languages that are documented for them, and what
`CapabilityVerb::validate` accepts.

* `validate_eq_ok_iff`: a verb is accepted iff it is split into parts of one tier.
* `verb_grammar`: which is the documented grammar, if and only if the action of a verb of the core
  tier begins with a letter (or the verb is one of the private-use tier too).
* `verb_outside_grammar`: an action that begins with a digit.
-/

namespace WireMesh.Rust

theorem splitOnce_eq_some_iff {sep : Char} {s before after : List Char} :
    splitOnce sep s = some (before, after) ↔ s = before ++ sep :: after ∧ sep ∉ before := by
  rw [splitOnce, List.span_eq_takeWhile_dropWhile]
  constructor
  · intro h
    split at h
    · cases h
    next before' sep' after' heq =>
      cases h
      obtain ⟨hbefore, hafter⟩ := Prod.mk.inj heq
      have hsep : sep' = sep := by
        have hhead := List.head?_dropWhile_not (· ≠ sep) s
        rw [hafter] at hhead
        simpa using hhead
      have hall : ∀ c ∈ before, decide (c ≠ sep) = true := by
        rw [← hbefore]
        exact List.all_eq_true.1 List.all_takeWhile
      refine ⟨?_, fun hmem => by simpa using hall sep hmem⟩
      rw [← hsep, ← hbefore, ← hafter, List.takeWhile_append_dropWhile]
  · rintro ⟨rfl, hsep⟩
    have hall : ∀ c ∈ before, decide (c ≠ sep) = true := by grind
    rw [List.takeWhile_append_of_pos hall, List.dropWhile_append_of_pos hall]
    simp

namespace CapabilityVerb

open Pattern Computability

/-! ## The tiers -/

/-- `[a-z0-9-]` -/
def isCoreChar (c : Char) : Bool := isAsciiLowercase c || isAsciiDigit c || c = '-'

/-- `[a-z0-9.-]` -/
def isRegistrantChar (c : Char) : Bool :=
  isAsciiLowercase c || isAsciiDigit c || c = '.' || c = '-'

/-- `[A-Za-z0-9_.-]` -/
def isLooseChar (c : Char) : Bool := isAsciiAlphanumeric c || c = '_' || c = '.' || c = '-'

/-- `[a-z][a-z0-9-]*` -/
def coreWord : Language Char := one isAsciiLowercase * (one isCoreChar)∗

/-- `[a-z][a-z0-9-]*:[a-z][a-z0-9-]*` -/
def coreTier : Language Char := coreWord * (literal [':'] * coreWord)

/-- `[a-z0-9.-]+/[A-Za-z0-9_.-]+:[A-Za-z0-9_.-]+` -/
def namespacedTier : Language Char :=
  plus isRegistrantChar * (literal ['/'] * (plus isLooseChar * (literal [':'] * plus isLooseChar)))

/-- `x-[A-Za-z0-9_.-]+:[A-Za-z0-9_.-]+` -/
def privateUseTier : Language Char :=
  literal ['x', '-'] * (plus isLooseChar * (literal [':'] * plus isLooseChar))

theorem looseOk_iff {a : List Char} : looseOk a = true ↔ a ∈ plus isLooseChar := by
  rw [mem_plus_one]
  simp [looseOk, isLooseChar]

theorem registrantOk_iff {a : List Char} : registrantOk a = true ↔ a ∈ plus isRegistrantChar := by
  rw [mem_plus_one]
  simp [registrantOk, isRegistrantChar]

theorem headCoreOk_iff {a : List Char} : headCoreOk a = true ↔ a ∈ coreWord := by
  simp only [coreWord, mem_one_mul, mem_kstar_one]
  cases a with
  | nil => simp [headCoreOk]
  | cons c rest => simp [headCoreOk, isCoreChar]

/-! ## What is accepted -/

/-- The parts of a verb are those of a tier. An action of the core tier may begin as it likes. -/
def Splits (head action : List Char) : Prop :=
  (headCoreOk head = true ∧ actionOk action = true) ∨
  (∃ registrant localName, head = registrant ++ '/' :: localName ∧ registrantOk registrant = true ∧
    looseOk localName = true ∧ looseOk action = true) ∨
  ∃ rest, head = 'x' :: '-' :: rest ∧ looseOk rest = true ∧ looseOk action = true

theorem notMem_of_class {p : Char → Bool} {c : Char} {a : List Char} (ha : ∀ d ∈ a, p d = true)
    (hc : p c = false) : c ∉ a := fun hmem => by simp [ha c hmem] at hc

theorem notMem_of_headCoreOk {head : List Char} (h : headCoreOk head = true) : ':' ∉ head := by
  obtain ⟨c, rest, hc, hrest, rfl⟩ := mem_one_mul.1 (headCoreOk_iff.1 h)
  have hnot := notMem_of_class (mem_kstar_one.1 hrest) (show isCoreChar ':' = false by decide)
  have hne : ':' ≠ c := by
    rintro rfl
    exact absurd hc (by decide)
  simp [hne, hnot]

theorem notMem_of_splits {head action : List Char} (h : Splits head action) : ':' ∉ head := by
  have hloose : ∀ {a}, looseOk a = true → ':' ∉ a := fun ha =>
    notMem_of_class (mem_plus_one.1 (looseOk_iff.1 ha)).2 (by decide)
  rcases h with ⟨hhead, -⟩ | ⟨registrant, localName, rfl, hregistrant, hlocal, -⟩ |
    ⟨rest, rfl, hrest, -⟩
  · exact notMem_of_headCoreOk hhead
  · have hnot := notMem_of_class (mem_plus_one.1 (registrantOk_iff.1 hregistrant)).2
      (show isRegistrantChar ':' = false by decide)
    simp [hnot, hloose hlocal]
  · simp [hloose hrest]

theorem validate_eq_ok_iff {verb : String} :
    validate verb = .ok () ↔
      ∃ head action, verb.toList = head ++ ':' :: action ∧ Splits head action := by
  rw [validate]
  constructor
  · intro h
    split at h
    · cases h
    next head action heq =>
      dsimp only at h
      split_ifs at h with hok
      refine ⟨head, action, (splitOnce_eq_some_iff.1 heq).1, ?_⟩
      rw [Bool.or_eq_true, Bool.or_eq_true] at hok
      rcases hok with (hcore | hnamespaced) | hprivate
      · exact .inl (Bool.and_eq_true_iff.1 hcore)
      · split at hnamespaced
        next registrant localName hslash =>
          rw [Bool.and_eq_true, Bool.and_eq_true] at hnamespaced
          exact .inr (.inl ⟨registrant, localName, (splitOnce_eq_some_iff.1 hslash).1,
            hnamespaced.1.1, hnamespaced.1.2, hnamespaced.2⟩)
        next => cases hnamespaced
      · split at hprivate
        next rest => exact .inr (.inr ⟨rest, rfl, Bool.and_eq_true_iff.1 hprivate⟩)
        next => cases hprivate
  · rintro ⟨head, action, hverb, hparts⟩
    rw [splitOnce_eq_some_iff.2 ⟨hverb, notMem_of_splits hparts⟩]
    refine if_pos ?_
    rcases hparts with ⟨hhead, haction⟩ |
      ⟨registrant, localName, rfl, hregistrant, hlocal, haction⟩ | ⟨rest, rfl, hrest, haction⟩
    · simp [hhead, haction]
    · have hslash := notMem_of_class (mem_plus_one.1 (registrantOk_iff.1 hregistrant)).2
        (show isRegistrantChar '/' = false by decide)
      simp [splitOnce_eq_some_iff.2 ⟨rfl, hslash⟩, hregistrant, hlocal, haction]
    · simp [hrest, haction]

/-- The parts of a verb in one of the three languages. -/
theorem mem_tiers_iff {verb : List Char} :
    verb ∈ coreTier + namespacedTier + privateUseTier ↔
      ∃ head action, verb = head ++ ':' :: action ∧
        ((headCoreOk head = true ∧ headCoreOk action = true) ∨
        (∃ registrant localName, head = registrant ++ '/' :: localName ∧
          registrantOk registrant = true ∧ looseOk localName = true ∧ looseOk action = true) ∨
        ∃ rest, head = 'x' :: '-' :: rest ∧ looseOk rest = true ∧ looseOk action = true) := by
  rw [Language.mem_add, Language.mem_add]
  simp only [coreTier, namespacedTier, privateUseTier, mem_mul_literal_mul, mem_literal_mul,
    headCoreOk_iff, registrantOk_iff, looseOk_iff]
  constructor
  · rintro ((⟨head, hhead, action, haction, rfl⟩ | ⟨registrant, hregistrant, _, ⟨localName, hlocal,
      action, haction, rfl⟩, rfl⟩) | ⟨_, ⟨rest, hrest, action, haction, rfl⟩, rfl⟩)
    · exact ⟨head, action, rfl, .inl ⟨hhead, haction⟩⟩
    · exact ⟨registrant ++ '/' :: localName, action, by simp,
        .inr (.inl ⟨registrant, localName, rfl, hregistrant, hlocal, haction⟩)⟩
    · exact ⟨'x' :: '-' :: rest, action, by simp, .inr (.inr ⟨rest, rfl, hrest, haction⟩)⟩
  · rintro ⟨head, action, rfl, ⟨hhead, haction⟩ | ⟨registrant, localName, rfl, hregistrant, hlocal,
      haction⟩ | ⟨rest, rfl, hrest, haction⟩⟩
    · exact .inl (.inl ⟨head, hhead, action, haction, rfl⟩)
    · exact .inl (.inr ⟨registrant, hregistrant, _, ⟨localName, hlocal, action, haction, rfl⟩,
        by simp⟩)
    · exact .inr ⟨_, ⟨rest, hrest, action, haction, rfl⟩, by simp⟩

theorem actionOk_of_headCoreOk {a : List Char} (h : headCoreOk a = true) : actionOk a = true := by
  cases a with
  | nil => cases h
  | cons c rest =>
    simp only [headCoreOk, Bool.and_eq_true] at h
    simpa [actionOk, h.1] using h.2

theorem headCoreOk_of_actionOk {a : List Char} (h : actionOk a = true)
    (hfirst : ∀ c ∈ a.head?, isAsciiLowercase c = true) : headCoreOk a = true := by
  cases a with
  | nil => cases h
  | cons c rest =>
    simp only [actionOk, List.isEmpty_cons, Bool.not_false, Bool.true_and, List.all_cons,
      Bool.and_eq_true] at h
    simpa [headCoreOk, hfirst c rfl] using h.2

theorem looseOk_of_isCoreChar {a : List Char} (hne : a ≠ []) (h : ∀ c ∈ a, isCoreChar c = true) :
    looseOk a = true := by
  refine looseOk_iff.2 (mem_plus_one.2 ⟨hne, fun c hc => ?_⟩)
  have hcore := h c hc
  simp only [isCoreChar, isLooseChar, isAsciiAlphanumeric, Bool.or_eq_true] at hcore ⊢
  tauto

/-- In the documented languages an action after a head of the core tier begins with a letter, or the
    head is one of the private-use tier too. -/
theorem tier_of_core {head action : List Char}
    (hmem : head ++ ':' :: action ∈ coreTier + namespacedTier + privateUseTier)
    (hhead : headCoreOk head = true) :
    headCoreOk action = true ∨ ∃ rest ≠ [], head = 'x' :: '-' :: rest := by
  obtain ⟨head', action', hverb, hparts⟩ := mem_tiers_iff.1 hmem
  have hcolon : ':' ∉ head' := notMem_of_splits
    (hparts.imp_left fun h => ⟨h.1, actionOk_of_headCoreOk h.2⟩ : Splits head' action')
  cases (splitOnce_eq_some_iff.2 ⟨rfl, notMem_of_headCoreOk hhead⟩).symm.trans
    (splitOnce_eq_some_iff.2 ⟨hverb, hcolon⟩)
  rcases hparts with ⟨-, h⟩ | ⟨registrant, localName, rfl, -⟩ | ⟨rest, h, hrest, -⟩
  · exact .inl h
  · -- No character of a head of the core tier is a slash.
    obtain ⟨c, rest, hc, hrest, heq⟩ := mem_one_mul.1 (headCoreOk_iff.1 hhead)
    have hslash : '/' ∈ c :: rest := heq ▸ by simp
    rcases List.mem_cons.1 hslash with rfl | hslash
    · exact absurd hc (by decide)
    · exact absurd (mem_kstar_one.1 hrest _ hslash) (by decide)
  · exact .inr ⟨rest, (mem_plus_one.1 (looseOk_iff.1 hrest)).1, h⟩

end CapabilityVerb

open CapabilityVerb

/-- A verb is accepted iff it is in one of the documented languages, if and only if an action of the
    core tier begins with a letter, or follows `x-` and something else. -/
theorem verb_grammar (verb : String) :
    (validate verb = .ok () ↔ verb.toList ∈ coreTier + namespacedTier + privateUseTier) ↔
      ∀ head action, verb.toList = head ++ ':' :: action → headCoreOk head = true →
        actionOk action = true →
        (∀ c ∈ action.head?, isAsciiLowercase c = true) ∨
          ∃ rest ≠ [], head = 'x' :: '-' :: rest := by
  rw [validate_eq_ok_iff]
  constructor
  · intro h head action hverb hhead haction
    have hmem := h.1 ⟨head, action, hverb, .inl ⟨hhead, haction⟩⟩
    rw [hverb] at hmem
    refine (tier_of_core hmem hhead).imp_left fun hword c hc => ?_
    obtain ⟨c', rest, hc', -, rfl⟩ := Pattern.mem_one_mul.1 (headCoreOk_iff.1 hword)
    cases hc
    exact hc'
  · intro h
    rw [mem_tiers_iff]
    constructor
    · rintro ⟨head, action, hverb, ⟨hhead, haction⟩ | hparts⟩
      · refine ⟨head, action, hverb, ?_⟩
        rcases h head action hverb hhead haction with hfirst | ⟨rest, hne, rfl⟩
        · exact .inl ⟨hhead, headCoreOk_of_actionOk haction hfirst⟩
        · -- Both parts are loose, so the verb is one of the private-use tier.
          simp only [headCoreOk, List.all_cons, Bool.and_eq_true, List.all_eq_true] at hhead
          simp only [actionOk, Bool.and_eq_true, List.all_eq_true, Bool.not_eq_true',
            List.isEmpty_eq_false_iff] at haction
          exact .inr (.inr ⟨rest, rfl, looseOk_of_isCoreChar hne hhead.2.2,
            looseOk_of_isCoreChar haction.1 haction.2⟩)
      · exact ⟨head, action, hverb, .inr hparts⟩
    · rintro ⟨head, action, hverb, ⟨hhead, haction⟩ | hparts⟩
      · exact ⟨head, action, hverb, .inl ⟨hhead, actionOk_of_headCoreOk haction⟩⟩
      · exact ⟨head, action, hverb, .inr hparts⟩

/-- A digit where a letter should be. -/
theorem verb_outside_grammar :
    validate "a:1" = .ok () ∧ "a:1".toList ∉ coreTier + namespacedTier + privateUseTier := by
  refine ⟨by decide, fun hmem => ?_⟩
  have hverb : ['a'] ++ ':' :: ['1'] ∈ coreTier + namespacedTier + privateUseTier := hmem
  rcases tier_of_core hverb (by decide) with h | ⟨rest, -, h⟩
  · exact absurd h (by decide)
  · exact absurd h (by simp)

end WireMesh.Rust
