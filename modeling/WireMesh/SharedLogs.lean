import WireMesh.StoragePool
import WireMesh.TypeScript.Logs

/-!
# Calls that share the logs

Calls of `appendOwnEntry` and `handleDataEntries` on one storage, whose operations interleave. Two
calls that append to one log may both read the same head, and then write their entries under the
same number (`append_lost`).

Calls on one log that do not overlap do not lose anything, whatever the calls on other logs do
meanwhile (`no_entry_lost`). Each call writes its entries behind the end of the log, where nobody
looks for them, until it writes the head (`Stage`).
-/

namespace WireMesh.TypeScript.SharedLogs

open Machine StorageProgram StoragePool

/-! ## The calls -/

inductive Request
  | append (own : DeviceId) (entry : Bytes)
  | entries (frame : DataEntriesFrame)
deriving DecidableEq

inductive Answer
  | appended (seq : ℕ)
  | ok
  | gap
deriving DecidableEq

namespace Request

/-- The log that is written to. -/
def peer : Request → DeviceId
  | append own _ => own
  | entries frame => frame.peer

def added : Request → List Bytes
  | append _ entry => [entry]
  | entries frame => frame.entries

/-- The entries go on where a log of the given length ends. -/
def Fits (head : ℕ) : Request → Prop
  | append _ _ => True
  | entries frame => frame.fromSeq = head

/-- The answer when the entries have been written after a log of the given length. -/
def answer (head : ℕ) : Request → Answer
  | append _ _ => .appended (head + 1)
  | entries _ => .ok

end Request

def body : Request → StorageM Answer
  | .append own entry => do
    let appended ← appendOwnEntry own entry
    return .appended appended.1
  | .entries frame => do
    if ← handleDataEntries frame then return .ok
    return .gap

/-- Calls on the same log. -/
def SameLog (r r' : Request) : Prop := r.peer = r'.peer

instance : DecidableRel SameLog := fun r r' => inferInstanceAs (Decidable (r.peer = r'.peer))

abbrev State := StoragePool.State String Bytes Request Answer

/-! ## How far a call is -/

/-- What is left when `done` of the entries have been written after a log of length `head`. -/
def finish (r : Request) (head done : ℕ) (rest : List Bytes) : StorageM Answer := do
  storeEntries r.peer (head + done + 1) rest
  writeHeadSeq r.peer (head + r.added.length)
  return r.answer head

variable {storage storage' : KeyValueStorage} {r : Request} {head done : ℕ} {rest : List Bytes}

theorem body_step_fits (h : r.Fits (headOf storage r.peer)) :
    (body r).step storage = (storage, finish r (headOf storage r.peer) 0 r.added) := by
  cases r with
  | append own entry => rfl
  | entries frame =>
    have hfrom : frame.fromSeq = headOf storage frame.peer := h
    simp only [body, handleDataEntries, bind_assoc]
    rw [step_headSeqFor, if_neg (not_not.2 hfrom), hfrom]
    simp only [bind_assoc, pure_bind]
    rfl

theorem body_step_gap (h : ¬r.Fits (headOf storage r.peer)) :
    (body r).step storage = (storage, .ret .gap) := by
  cases r with
  | append own entry => exact absurd trivial h
  | entries frame =>
    have hfrom : frame.fromSeq ≠ headOf storage frame.peer := h
    simp only [body, handleDataEntries, bind_assoc]
    rw [step_headSeqFor, if_pos hfrom]
    rfl

theorem finish_step_cons (entry : Bytes) :
    (finish r head done (entry :: rest)).step storage =
      (storage.insert (entryKey r.peer (head + done + 1)) entry, finish r head (done + 1) rest) :=
  rfl

theorem finish_step_nil :
    (finish r head done []).step storage =
      (storage.insert (headKey r.peer) (encodeCount (head + r.added.length)),
        .ret (r.answer head)) :=
  rfl

/-- The entries of the logs, with the calls that have written them. -/
abbrev Written := DeviceId → List (ℕ × Bytes)

def Written.log (w : Written) (peer : DeviceId) : List Bytes := (w peer).map Prod.snd

/-- How far the call with the given number is. -/
inductive Stage (storage : KeyValueStorage) (w : Written) (i : ℕ) (r : Request) :
    StorageM Answer → Prop
  | waiting : Stage storage w i r (body r)
  | storing {added rest : List Bytes} (hfits : r.Fits (w.log r.peer).length)
    (hadded : r.added = added ++ rest) (hstored : Stored storage r.peer (w.log r.peer) added) :
    Stage storage w i r (finish r (w.log r.peer).length added.length rest)
  | written {head : ℕ} (hfits : r.Fits head) (hwritten : ∀ k entry, r.added[k]? = some entry →
      (w r.peer)[head + k]? = some (i, entry)) :
    Stage storage w i r (.ret (r.answer head))
  | refused : Stage storage w i r (.ret .gap)

variable {w w' : Written} {i : ℕ} {program : StorageM Answer}

/-- A call does not notice what is done to other logs. -/
theorem Stage.elsewhere (h : Stage storage w i r program) {peer : DeviceId} (hne : r.peer ≠ peer)
    (hsame : SameElsewhere peer storage storage') (hw : w' r.peer = w r.peer) :
    Stage storage' w' i r program := by
  have hlog : w'.log r.peer = w.log r.peer := congrArg (List.map Prod.snd) hw
  cases h with
  | waiting => exact .waiting
  | storing hfits hadded hstored =>
    rw [← hlog] at hfits hstored ⊢
    exact .storing hfits hadded (hstored.elsewhere hne hsame)
  | written hfits hwritten => exact .written hfits (by rwa [hw])
  | refused => exact .refused

/-- What a call has returned does not depend on what is done later. -/
theorem Stage.returned {a : Answer} (h : Stage storage w i r (.ret a))
    (hw : w r.peer <+: w' r.peer) :
    Stage storage' w' i r (.ret a) := by
  generalize hprogram : StorageProgram.ret a = program at h
  cases h with
  | waiting => cases r <;> cases hprogram
  | @storing added rest => cases rest <;> cases hprogram
  | written hfits hwritten =>
    cases hprogram
    refine .written hfits fun k entry hentry => ?_
    have hold := hwritten k entry hentry
    obtain ⟨later, hlater⟩ := hw
    rw [← hlater, List.getElem?_append_left (List.getElem?_eq_some_iff.1 hold).1, hold]
  | refused =>
    cases hprogram
    exact .refused

/-- An operation of a call leaves the other logs alone, and what is in its own. -/
theorem Stage.step (h : Stage storage w i r program)
    (hholds : Holds storage r.peer (w.log r.peer)) :
    ∃ w' : Written, (∀ peer ≠ r.peer, w' peer = w peer) ∧ w r.peer <+: w' r.peer ∧
      Holds (program.step storage).1 r.peer (w'.log r.peer) ∧
      SameElsewhere r.peer storage (program.step storage).1 ∧
      Stage (program.step storage).1 w' i r (program.step storage).2 := by
  cases h with
  | waiting =>
    refine ⟨w, fun _ _ => rfl, List.prefix_rfl, ?_⟩
    by_cases hfits : r.Fits (headOf storage r.peer)
    · rw [body_step_fits hfits]
      rw [hholds.head] at hfits ⊢
      exact ⟨hholds, fun _ _ => rfl, .storing hfits (List.nil_append _).symm hholds.stored⟩
    · rw [body_step_gap hfits]
      exact ⟨hholds, fun _ _ => rfl, .refused⟩
  | @storing added rest hfits hadded hstored =>
    cases rest with
    | cons entry rest =>
      rw [finish_step_cons]
      have hnext := hstored.insert_entry entry
      refine ⟨w, fun _ _ => rfl, List.prefix_rfl, hnext.holds,
        sameElsewhere_insert (.inr ⟨_, rfl⟩) entry, ?_⟩
      have hstage : Stage
          (storage.insert (entryKey r.peer ((w.log r.peer).length + added.length + 1)) entry) w i r
          (finish r (w.log r.peer).length (added ++ [entry]).length rest) :=
        .storing hfits (by simpa using hadded) hnext
      rwa [List.length_append, List.length_singleton] at hstage
    | nil =>
      -- The entries become a part of the log.
      rw [List.append_nil] at hadded
      subst hadded
      rw [finish_step_nil]
      let w' : Written := Function.update w r.peer (w r.peer ++ r.added.map (Prod.mk i))
      have hw' : w' r.peer = w r.peer ++ r.added.map (Prod.mk i) := Function.update_self ..
      have hlog : w'.log r.peer = w.log r.peer ++ r.added := by
        simp [Written.log, hw', Function.comp_def]
      refine ⟨w', fun peer hpeer => Function.update_of_ne hpeer _ _, ?_, ?_,
        sameElsewhere_insert (.inl rfl) _, .written hfits fun k entry hentry => ?_⟩
      · rw [hw']
        exact List.prefix_append _ _
      · rw [hlog]
        exact hstored.insert_head
      · grind [Written.log]
  | written hfits hwritten =>
    exact ⟨w, fun _ _ => rfl, List.prefix_rfl, hholds, fun _ _ => rfl, .written hfits hwritten⟩
  | refused => exact ⟨w, fun _ _ => rfl, List.prefix_rfl, hholds, fun _ _ => rfl, .refused⟩

/-! ## Calls that do not overlap -/

/-- The storage holds what the calls have written, and no two calls on one log are in progress. -/
@[grind cases]
structure Good (s : State) (w : Written) : Prop where
  holds : ∀ peer, Holds s.storage peer (w.log peer)
  stages : ∀ (i : ℕ) call, s.calls[i]? = some call →
    Stage s.storage w i call.request call.program
  apart : Apart SameLog s

variable {s : State}

theorem good_start (h : Good s w) {r : Request} (halone : Alone SameLog s (.start r)) :
    Good (next body s (.start r)) w where
  holds := h.holds
  stages i call hcall := by
    rcases get_start hcall with hold | ⟨rfl, rfl⟩
    · exact h.stages i call hold
    · exact .waiting
  apart := h.apart.start (fun _ _ => Eq.symm) halone

theorem good_resume (h : Good s w) (i : ℕ) :
    ∃ w' : Written, (∀ peer, w peer <+: w' peer) ∧ Good (next body s (.resume i)) w' := by
  by_cases hdone : ∀ call, s.calls[i]? = some call → call.result.isSome
  · grind [next_resume_eq_self]
  push Not at hdone
  obtain ⟨call, hcall, hbusy⟩ := hdone
  obtain ⟨w', hother, hgrows, hholds, hsame, hstage⟩ :=
    (h.stages i call hcall).step (h.holds call.request.peer)
  have hextends (peer : DeviceId) : w peer <+: w' peer := by
    by_cases hpeer : peer = call.request.peer
    · rwa [hpeer]
    · rw [hother peer hpeer]
  refine ⟨w', hextends, fun peer => ?_, fun j c hj => ?_, h.apart.resume i⟩
  · rw [next_resume hcall]
    by_cases hpeer : peer = call.request.peer
    · rwa [hpeer]
    · rw [Written.log, hother peer hpeer]
      exact (h.holds peer).elsewhere hpeer hsame
  · have hstorage : (next body s (.resume i)).storage = (call.program.step s.storage).1 := by
      rw [next_resume hcall]
    rw [hstorage]
    rcases get_resume hcall hj with ⟨rfl, rfl⟩ | ⟨hne, hj⟩
    · exact hstage
    · by_cases hpeer : c.request.peer = call.request.peer
      -- The other calls on the log have returned.
      · have hreturned : c.result.isSome := by
          by_contra hnone
          exact hne
            (h.apart j i c call hj hcall (by simpa using hnone) (by simpa using hbusy) hpeer)
        grind [Option.isSome_iff_exists, result_eq_some, Stage.returned]
      · exact (h.stages j c hj).elsewhere hpeer hsame (hother _ hpeer)

theorem good_next (h : Good s w) {e : Event Request} (halone : Alone SameLog s e) :
    ∃ w' : Written, (∀ peer, w peer <+: w' peer) ∧ Good (next body s e) w' := by
  cases e with
  | start r => exact ⟨w, fun _ => List.prefix_rfl, good_start h halone⟩
  | resume i => exact good_resume h i

theorem good_init : Good (init : State) fun _ => [] :=
  ⟨holds_empty, by simp [init], by simp [Apart, init]⟩

/-- The logs only grow. -/
theorem good_run (h : Good s w) {events : List (Event Request)}
    (halone : Along (next body) (Alone SameLog) s events) :
    ∃ w' : Written, (∀ peer, w peer <+: w' peer) ∧ Good (run (next body) s events) w' :=
  run_along (P := fun s' => ∃ w' : Written, (∀ peer, w peer <+: w' peer) ∧ Good s' w')
    ⟨w, fun _ => List.prefix_rfl, h⟩
    (fun _ _ ⟨_, hgrows, hgood⟩ he =>
      let ⟨w'', hgrows', hgood'⟩ := good_next hgood he
      ⟨w'', fun peer => (hgrows peer).trans (hgrows' peer), hgood'⟩)
    halone

/-- The entry can be read under the number. -/
def Readable (storage : KeyValueStorage) (peer : DeviceId) (seq : ℕ) (entry : Bytes) : Prop :=
  seq ≤ headOf storage peer ∧ storage.lookup (entryKey peer seq) = some entry

theorem Good.readable (h : Good s w) {peer : DeviceId} {k : ℕ} {entry : Bytes}
    (hentry : (w peer)[k]? = some (i, entry)) : Readable s.storage peer (k + 1) entry := by
  have hlog : (w.log peer)[k]? = some entry := by
    rw [Written.log, List.getElem?_map, hentry]
    rfl
  have hk := (List.getElem?_eq_some_iff.1 hlog).1
  refine ⟨?_, ?_⟩
  · rw [(h.holds peer).head]
    exact hk
  · rw [(h.holds peer).entry k hk, hlog]

theorem Stage.of_appended {own : DeviceId} {entry : Bytes} {seq : ℕ}
    (h : Stage storage w i (.append own entry) (.ret (.appended seq))) :
    ∃ head, seq = head + 1 ∧ (w own)[head]? = some (i, entry) := by
  generalize hprogram : StorageProgram.ret (Answer.appended seq) = program at h
  cases h with
  | waiting => cases hprogram
  | @storing added rest => cases rest <;> cases hprogram
  | @written head _ hwritten =>
    cases hprogram
    exact ⟨head, rfl, hwritten 0 entry rfl⟩
  | refused => cases hprogram

theorem Stage.of_ok {frame : DataEntriesFrame} (h : Stage storage w i (.entries frame) (.ret .ok))
    {seq : ℕ} {entry : Bytes} (hcarries : frame.Carries seq entry) :
    ∃ head, seq = head + 1 ∧ (w frame.peer)[head]? = some (i, entry) := by
  obtain ⟨k, rfl, hentry⟩ := hcarries
  generalize hprogram : StorageProgram.ret Answer.ok = program at h
  cases h with
  | waiting => cases hprogram
  | @storing added rest => cases rest <;> cases hprogram
  | @written head hfits hwritten =>
    refine ⟨frame.fromSeq + k, by omega, ?_⟩
    rw [show frame.fromSeq = head from hfits]
    exact hwritten k entry hentry
  | refused => cases hprogram

/-- If no two calls on one log overlap: the calls of `appendOwnEntry` that have returned have
    different numbers, whatever was appended or taken can be read from then on, and no head ever
    decreases. -/
theorem no_entry_lost (events later : List (Event Request))
    (halone : Along (next body) (Alone SameLog) init (events ++ later)) :
    let s := run (next body) init events
    let s' := run (next body) init (events ++ later)
    (∀ i j own entry entry' seq, s.Returned i (.append own entry) (.appended seq) →
      s.Returned j (.append own entry') (.appended seq) → i = j) ∧
    (∀ i own entry seq, s.Returned i (.append own entry) (.appended seq) →
      Readable s'.storage own seq entry) ∧
    (∀ i frame, s.Returned i (.entries frame) .ok → ∀ seq entry, frame.Carries seq entry →
      Readable s'.storage frame.peer seq entry) ∧
    ∀ peer, headOf s.storage peer ≤ headOf s'.storage peer := by
  intro s s'
  obtain ⟨hbefore, hafter⟩ := along_append.1 halone
  obtain ⟨w, -, hgood⟩ := good_run good_init hbefore
  obtain ⟨w', hgrows, hgood'⟩ := good_run hgood hafter
  rw [← run_append] at hgood'
  have hkept {peer : DeviceId} {k i : ℕ} {entry : Bytes} (h : (w peer)[k]? = some (i, entry)) :
      Readable s'.storage peer (k + 1) entry := by
    obtain ⟨added, hadded⟩ := hgrows peer
    refine hgood'.readable (i := i) ?_
    rw [← hadded, List.getElem?_append_left (List.getElem?_eq_some_iff.1 h).1, h]
  refine ⟨?_, ?_, ?_, ?_⟩
  · intro i j own entry entry' seq hi hj
    obtain ⟨head, rfl, hhead⟩ := (hgood.stages i _ hi).of_appended
    obtain ⟨head', heq, hhead'⟩ := (hgood.stages j _ hj).of_appended
    obtain rfl : head = head' := by omega
    exact congrArg Prod.fst (Option.some.inj (hhead.symm.trans hhead'))
  · intro i own entry seq hi
    obtain ⟨head, rfl, hhead⟩ := (hgood.stages i _ hi).of_appended
    exact hkept hhead
  · intro i frame hi seq entry hcarries
    obtain ⟨head, rfl, hhead⟩ := (hgood.stages i _ hi).of_ok hcarries
    exact hkept hhead
  · intro peer
    rw [(hgood.holds peer).head, (hgood'.holds peer).head, Written.log, Written.log,
      List.length_map, List.length_map]
    exact (hgrows peer).length_le

def sampleOwner : DeviceId := .pad [1]

/-- An entry is appended while entries of another log are taken, and then another one. -/
def sampleCalls : List (Event Request) :=
  [.start (.append sampleOwner [1]),
    .start (.entries { peer := .pad [2], fromSeq := 0, entries := [[7]] }),
    .resume 0, .resume 1, .resume 0, .resume 1, .resume 0, .resume 1]

theorem no_entry_lost_sample :
    Readable (run (next body) init (sampleCalls ++ [.start (.append sampleOwner [2]),
      .resume 2, .resume 2])).storage sampleOwner 1 [1] :=
  (no_entry_lost sampleCalls _ (by decide +kernel)).2.1 0 sampleOwner [1] 1 (by decide +kernel)

/-- Two entries are appended at the same time, and both get the number 1. -/
def sampleOverlap : List (Event Request) :=
  [.start (.append sampleOwner [1]), .start (.append sampleOwner [2]), .resume 0, .resume 1,
    .resume 0, .resume 1, .resume 0, .resume 1]

theorem append_lost :
    let s := run (next body) init sampleOverlap
    s.Returned 0 (.append sampleOwner [1]) (.appended 1) ∧
      s.Returned 1 (.append sampleOwner [2]) (.appended 1) ∧
      ¬Readable s.storage sampleOwner 1 [1] := by
  refine ⟨by decide +kernel, by decide +kernel, fun h => ?_⟩
  exact absurd h.2 (by decide +kernel)

end WireMesh.TypeScript.SharedLogs
