import WireMesh.Machine
import WireMesh.StorageProgram

/-!
# Calls that share a storage

Requests to one storage, each of which is served by a program. A call may be begun at any time,
and its operations are done one at a time, in any order with those of the other calls.

* `get_start`, `get_resume`: at each event, one call is begun or goes on.
* `next_resume_eq_self`: a call that has returned does nothing any more.
* `Apart.start`, `Apart.resume`: calls that are begun when no other one is in conflict with them
  do not overlap with such a one.
-/

namespace WireMesh.StoragePool

variable {K V R A : Type}

/-- A request, and what is left to do for it. -/
structure Call (K V R A : Type) where
  request : R
  program : StorageProgram K V A

/-- What a call has returned. -/
def Call.result (call : Call K V R A) : Option A :=
  match call.program with
  | .ret a => some a
  | _ => none

structure State (K V R A : Type) where
  storage : AList fun _ : K => V
  calls : List (Call K V R A)

/-- The call with the given number has returned. -/
def State.Returned (s : State K V R A) (i : ℕ) (request : R) (a : A) : Prop :=
  s.calls[i]? = some ⟨request, .ret a⟩

inductive Event (R : Type)
  | start (request : R)
  | resume (call : ℕ)

variable [DecidableEq K] (body : R → StorageProgram K V A)

def next (s : State K V R A) : Event R → State K V R A
  | .start request => { s with calls := s.calls ++ [⟨request, body request⟩] }
  | .resume i => match s.calls[i]? with
    | none => s
    | some call =>
      { storage := (call.program.step s.storage).1
        calls := s.calls.set i { call with program := (call.program.step s.storage).2 } }

/-- No call has been begun. -/
def init : State K V R A := ⟨∅, []⟩

/-- A call is only begun when none of those that it may be in conflict with is in progress. -/
def Alone (conflicts : R → R → Prop) (s : State K V R A) : Event R → Prop
  | .start request => ∀ call ∈ s.calls, conflicts call.request request → call.result.isSome
  | .resume _ => True

instance (conflicts : R → R → Prop) [DecidableRel conflicts] (s : State K V R A) :
    ∀ e : Event R, Decidable (Alone conflicts s e)
  | .start request => inferInstanceAs
      (Decidable (∀ call ∈ s.calls, conflicts call.request request → call.result.isSome))
  | .resume _ => .isTrue trivial

/-! ## Calls -/

variable {body} {s : State K V R A} {i j : ℕ} {call : Call K V R A}

omit [DecidableEq K] in
theorem result_eq_some {a : A} : call.result = some a ↔ call.program = .ret a := by
  grind [Call.result]

omit [DecidableEq K] in
theorem returned_iff {request : R} {a : A} : s.Returned i request a ↔
    s.calls[i]?.map (fun call => (call.request, call.result)) = some (request, some a) := by
  rw [State.Returned]
  cases s.calls[i]? with
  | none => simp
  | some call => cases call with | mk request' program => simp [result_eq_some]

instance [DecidableEq R] [DecidableEq A] (request : R) (a : A) :
    Decidable (s.Returned i request a) :=
  decidable_of_iff _ returned_iff.symm

/-- The calls after a new one has been begun. -/
theorem get_start {request : R} (h : (next body s (.start request)).calls[i]? = some call) :
    s.calls[i]? = some call ∨ i = s.calls.length ∧ call = ⟨request, body request⟩ := by
  exact (Machine.getElem?_concat h).imp_right fun ⟨hi, hcall⟩ => ⟨hi, hcall.symm⟩

/-- A call goes on, if there is one that can. -/
theorem next_resume (hcall : s.calls[i]? = some call) :
    next body s (.resume i) =
      { storage := (call.program.step s.storage).1
        calls := s.calls.set i { call with program := (call.program.step s.storage).2 } } := by
  rw [next, hcall]

theorem next_resume_eq_self (h : ∀ call, s.calls[i]? = some call → call.result.isSome) :
    next body s (.resume i) = s := by
  cases hcall : s.calls[i]? with
  | none => rw [next, hcall]
  | some call =>
    obtain ⟨request, program⟩ := call
    obtain ⟨a, ha⟩ := Option.isSome_iff_exists.1 (h _ hcall)
    obtain rfl : program = .ret a := result_eq_some.1 ha
    obtain ⟨hi, hget⟩ := List.getElem?_eq_some_iff.1 hcall
    have hset : s.calls.set i ⟨request, .ret a⟩ = s.calls := by
      rw [← hget, List.set_getElem_self]
    rw [next_resume hcall]
    simp only [StorageProgram.step, hset]

theorem get_resume (hcall : s.calls[i]? = some call) {call' : Call K V R A}
    (h : (next body s (.resume i)).calls[j]? = some call') :
    j = i ∧ call' = { call with program := (call.program.step s.storage).2 } ∨
      j ≠ i ∧ s.calls[j]? = some call' := by grind [next_resume]

/-! ## Calls that do not overlap -/

/-- No two calls that are in progress are in conflict. -/
def Apart (conflicts : R → R → Prop) (s : State K V R A) : Prop :=
  ∀ (i j : ℕ) (call call' : Call K V R A), s.calls[i]? = some call → s.calls[j]? = some call' →
    call.result = none → call'.result = none → conflicts call.request call'.request → i = j

theorem Apart.start {conflicts : R → R → Prop} (hsymm : ∀ r r', conflicts r r' → conflicts r' r)
    {request : R} (h : Apart conflicts s) (halone : Alone conflicts s (.start request)) :
    Apart conflicts (next body s (.start request)) := by
  have hnew {i : ℕ} {call : Call K V R A} (hi : s.calls[i]? = some call)
      (hcall : call.result = none) (hconflict : conflicts call.request request) : False := by
    have hdone := halone call (List.mem_of_getElem? hi) hconflict
    simp [hcall] at hdone
  intro i j call call' hi hj hcall hcall' hconflict
  rcases get_start hi with hi | ⟨rfl, rfl⟩
  · rcases get_start hj with hj | ⟨rfl, rfl⟩
    · exact h i j call call' hi hj hcall hcall' hconflict
    · exact (hnew hi hcall hconflict).elim
  · rcases get_start hj with hj | ⟨rfl, rfl⟩
    · exact (hnew hj hcall' (hsymm _ _ hconflict)).elim
    · rfl

/-- A call that is in progress after an event was begun before. -/
theorem get_resume_busy {call' : Call K V R A}
    (h : (next body s (.resume i)).calls[j]? = some call') (hbusy : call'.result = none) :
    ∃ call, s.calls[j]? = some call ∧ call.request = call'.request ∧ call.result = none := by
  grind [next, Call.result, StorageProgram.step]

theorem Apart.resume {conflicts : R → R → Prop} (h : Apart conflicts s) (i : ℕ) :
    Apart conflicts (next body s (.resume i)) := by
  intro j k call call' hj hk hcall hcall' hconflict
  obtain ⟨old, hold, hrequest, hbusy⟩ := get_resume_busy hj hcall
  obtain ⟨old', hold', hrequest', hbusy'⟩ := get_resume_busy hk hcall'
  exact h j k old old' hold hold' hbusy hbusy' (by rwa [hrequest, hrequest'])

/-! ## Writers that do not overlap -/

section Writers

variable {writer : R → Prop} {I : (AList fun _ : K => V) → Prop}

/-- Both calls write. -/
def BothWrite (writer : R → Prop) (r r' : R) : Prop := writer r ∧ writer r'

instance [DecidablePred writer] : DecidableRel (BothWrite writer) :=
  fun r r' => inferInstanceAs (Decidable (writer r ∧ writer r'))

/-- The storage will satisfy the condition when the writer that is in progress has returned. -/
@[grind cases]
structure Settles (writer : R → Prop) (I : (AList fun _ : K => V) → Prop) (s : State K V R A) :
    Prop where
  apart : Apart (BothWrite writer) s
  readers : ∀ call ∈ s.calls, ¬writer call.request → call.program.Writes fun _ _ => False
  writers : ∀ call ∈ s.calls, writer call.request → call.result = none →
    I (call.program.exec s.storage).1
  idle : (∀ call ∈ s.calls, writer call.request → call.result.isSome) → I s.storage

theorem settles_init (h : I ∅) : Settles writer I (init : State K V R A) :=
  ⟨by simp [Apart, init], by simp [init], by simp [init], fun _ => h⟩

theorem Settles.start (hreaders : ∀ r, ¬writer r → (body r).Writes fun _ _ => False)
    (hatomic : ∀ r storage, I storage → I ((body r).exec storage).1)
    (h : Settles writer I s) {request : R} (halone : Alone (BothWrite writer) s (.start request)) :
    Settles writer I (next body s (.start request)) where
  apart := h.apart.start (fun _ _ hboth => ⟨hboth.2, hboth.1⟩) halone
  readers call hcall hreader := by
    rcases List.mem_append.1 hcall with hold | hnew
    · exact h.readers call hold hreader
    · grind
  writers call hcall hwriter hbusy := by
    rcases List.mem_append.1 hcall with hold | hnew
    · exact h.writers call hold hwriter hbusy
    · obtain rfl := List.mem_singleton.1 hnew
      exact hatomic request s.storage
        (h.idle fun other hother hwrites => halone other hother ⟨hwrites, hwriter⟩)
  idle hidle := h.idle fun call hcall => hidle call (List.mem_append_left _ hcall)

/-- A reader leaves the storage as it is. -/
theorem Settles.resume_reader (h : Settles writer I s) (hcall : s.calls[i]? = some call)
    (hreader : ¬writer call.request) : Settles writer I (next body s (.resume i)) := by
  have hprogram := (h.readers call (List.mem_of_getElem? hcall) hreader).step s.storage
  have hstorage : (next body s (.resume i)).storage = s.storage := by grind [next_resume]
  have hold {call' : Call K V R A} (hmem : call' ∈ (next body s (.resume i)).calls)
      (hwriter : writer call'.request) : call' ∈ s.calls := by
    obtain ⟨j, hj⟩ := List.mem_iff_getElem?.1 hmem
    rcases get_resume hcall hj with ⟨-, rfl⟩ | ⟨-, hj⟩
    · exact absurd hwriter hreader
    · exact List.mem_of_getElem? hj
  refine ⟨h.apart.resume i, fun call' hmem hreader' => ?_, fun call' hmem hwriter hbusy => ?_,
    fun hidle => ?_⟩
  · obtain ⟨j, hj⟩ := List.mem_iff_getElem?.1 hmem
    rcases get_resume hcall hj with ⟨-, rfl⟩ | ⟨-, hj⟩
    · exact hprogram.1
    · exact h.readers call' (List.mem_of_getElem? hj) hreader'
  · grind
  · rw [hstorage]
    refine h.idle fun call' hmem hwriter => hidle call' ?_ hwriter
    obtain ⟨j, hj⟩ := List.mem_iff_getElem?.1 hmem
    have hne : i ≠ j := by grind
    rw [next_resume hcall]
    exact List.mem_of_getElem? ((List.getElem?_set_ne hne).trans hj)

/-- A writer gets nearer to what it leaves. -/
theorem Settles.resume_writer (h : Settles writer I s) (hcall : s.calls[i]? = some call)
    (hwriter : writer call.request) (hbusy : call.result = none) :
    Settles writer I (next body s (.resume i)) := by
  have hstorage : (next body s (.resume i)).storage = (call.program.step s.storage).1 := by
    rw [next_resume hcall]
  have hsettles := h.writers call (List.mem_of_getElem? hcall) hwriter hbusy
  rw [← StorageProgram.exec_step] at hsettles
  refine ⟨h.apart.resume i, fun call' hmem hreader => ?_, fun call' hmem hwriter' hbusy' => ?_,
    fun hidle => ?_⟩
  · obtain ⟨j, hj⟩ := List.mem_iff_getElem?.1 hmem
    rcases get_resume hcall hj with ⟨-, rfl⟩ | ⟨-, hj⟩
    · exact absurd hwriter hreader
    · exact h.readers call' (List.mem_of_getElem? hj) hreader
  · rw [hstorage]
    obtain ⟨j, hj⟩ := List.mem_iff_getElem?.1 hmem
    rcases get_resume hcall hj with ⟨-, rfl⟩ | ⟨hne, hj⟩
    · exact hsettles
    · exact absurd (h.apart j i call' call hj hcall hbusy' hbusy ⟨hwriter', hwriter⟩) hne
  · have hi : i < s.calls.length := (List.getElem?_eq_some_iff.1 hcall).1
    have hdone := hidle { call with program := (call.program.step s.storage).2 }
      (by rw [next_resume hcall]; exact List.mem_set hi _) hwriter
    obtain ⟨a, ha⟩ := Option.isSome_iff_exists.1 hdone
    rw [result_eq_some] at ha
    rw [hstorage]
    rwa [show (call.program.step s.storage).2 = .ret a from ha] at hsettles

theorem Settles.resume (h : Settles writer I s) (i : ℕ) :
    Settles writer I (next body s (.resume i)) := by
  grind [Call.result, next_resume_eq_self, resume_writer, resume_reader]

/-- What a writer that nothing interrupts keeps holds whenever none is in progress, if no two
    overlap. -/
theorem settles_run (hreaders : ∀ r, ¬writer r → (body r).Writes fun _ _ => False)
    (hatomic : ∀ r storage, I storage → I ((body r).exec storage).1) (hinit : I ∅)
    {events : List (Event R)}
    (halone : Machine.Along (next body) (Alone (BothWrite writer)) init events) :
    Settles writer I (Machine.run (next body) init events) := by
  refine Machine.run_along (settles_init hinit) (fun s e h he => ?_) halone
  cases e with
  | start request => exact h.start hreaders hatomic he
  | resume i => exact h.resume i

end Writers

/-! ## Calls that are refused -/

section Refusals

variable {refused : A → Prop}

theorem harmless_next (hbody : ∀ r, (body r).Harmless refused)
    (h : ∀ call ∈ s.calls, call.program.Harmless refused) (e : Event R) :
    ∀ call ∈ (next body s e).calls, call.program.Harmless refused := by
  cases e with
  | start request =>
    intro call hmem
    rcases List.mem_append.1 hmem with hold | hnew
    · exact h call hold
    · grind
  | resume i => grind [next, StorageProgram.Harmless.step]

/-- What a call may still return. -/
def MayReturn (s : State K V R A) (i : ℕ) (Q : A → Prop) : Prop :=
  ∃ call, s.calls[i]? = some call ∧ call.program.Returns Q

theorem MayReturn.next {Q : A → Prop} (h : MayReturn s i Q) (e : Event R) :
    MayReturn (next body s e) i Q := by
  obtain ⟨call, hcall, hreturns⟩ := h
  have hi : i < s.calls.length := (List.getElem?_eq_some_iff.1 hcall).1
  cases e with
  | start request => exact ⟨call, (List.getElem?_append_left hi).trans hcall, hreturns⟩
  | resume j =>
    by_cases hji : j = i
    · subst hji
      rw [next_resume hcall]
      exact ⟨_, List.getElem?_set_self hi, hreturns.step s.storage⟩
    · cases hother : s.calls[j]? with
      | none =>
        rw [StoragePool.next, hother]
        exact ⟨call, hcall, hreturns⟩
      | some other =>
        rw [next_resume hother]
        exact ⟨call, (List.getElem?_set_ne hji).trans hcall, hreturns⟩

/-- A call that is refused in the end does not write. -/
theorem storage_eq_of_refused (hbody : ∀ r, (body r).Harmless refused)
    {before after : List (Event R)} {request : R} {a : A}
    (h : (Machine.run (next body) init (before ++ .resume i :: after)).Returned i request a)
    (ha : refused a) :
    (Machine.run (next body) init (before ++ [.resume i])).storage =
      (Machine.run (next body) init before).storage := by
  have hharmless : ∀ call ∈ (Machine.run (next body) init before).calls,
      call.program.Harmless refused :=
    Machine.run_invariant
      (P := fun s : State K V R A => ∀ call ∈ s.calls, call.program.Harmless refused)
      (by simp [init]) (fun s e hs => harmless_next hbody hs e) before
  rw [Machine.run_append] at h ⊢
  generalize Machine.run (next body) init before = s at *
  change (next body s (.resume i)).storage = s.storage
  have h : (Machine.run (next body) (next body s (.resume i)) after).Returned i request a := h
  cases hcall : s.calls[i]? with
  | none => rw [next, hcall]
  | some call =>
    rcases ((hharmless call (List.mem_of_getElem? hcall)).step s.storage).2 with hsame | hreturns
    · rw [next_resume hcall]
      exact hsame
    · have hi : i < s.calls.length := (List.getElem?_eq_some_iff.1 hcall).1
      have hmay : MayReturn (next body s (.resume i)) i fun a => ¬refused a := by
        rw [next_resume hcall]
        exact ⟨_, List.getElem?_set_self hi, hreturns⟩
      obtain ⟨call', hcall', hreturns'⟩ := Machine.run_invariant
        (P := fun s => MayReturn s i fun a => ¬refused a) hmay (fun s e hs => hs.next e) after
      obtain rfl := Option.some.inj (h.symm.trans hcall')
      exact absurd ha hreturns'

end Refusals

end WireMesh.StoragePool
