import WireMesh.Machine
import WireMesh.TypeScript.MeshSession

/-!
# The requests of a session

What every operation of a session keeps of its requests, whatever their order: a request that waits
has its own number and has not timed out (`Change.valid`), and its promise is resolved by nothing
but a response with its number, from where it was sent (`Change.of_answered`).
-/

namespace WireMesh.TypeScript.MeshSession

variable {O : Type}

namespace Call

variable {x : Call O} {answer : Except String O} {sent : Except String Unit} {o : O}

theorem answer_setAnswer : (x.setAnswer answer).answer = (x.answer <|> some answer) := rfl

/-- A call resolves with the outcome of its promise. -/
def Sound (x : Call O) : Prop := ∀ o, x.result = some (.resolved o) → x.answer = some (.ok o)

theorem exchange_eq_resolved (h : x.exchange = some (.resolved o)) : x.answer = some (.ok o) := by
  unfold exchange at h
  split at h <;> simp_all

theorem exchange_ne_timedOut : x.exchange ≠ some .timedOut := by
  unfold exchange
  split <;> simp

theorem sound_settle (h : x.Sound) : x.settle.Sound := by
  intro o ho
  rcases hx : x.result with _ | result
  · exact exchange_eq_resolved (by rwa [settle, hx] at ho)
  · exact h o (by rw [settle, hx] at ho; rwa [hx])

theorem sound_setAnswer (h : x.Sound) : (x.setAnswer answer).Sound :=
  sound_settle fun o ho => by rw [h o ho]; rfl

theorem sound_setSent (h : x.Sound) : (x.setSent sent).Sound := sound_settle (fun o ho => h o ho)

theorem sound_setResult {result : Result O} (h : ∀ o, result ≠ .resolved o) :
    (x.setResult result).Sound :=
  fun o ho => absurd (Option.some.inj ho) (h o)

theorem setSent_result_ne_timedOut (h : x.result ≠ some .timedOut) :
    (x.setSent sent).result ≠ some .timedOut := by
  intro ht
  rcases hx : x.result with _ | result
  · exact exchange_ne_timedOut (by rwa [setSent, settle, hx] at ht)
  · exact h (by rw [setSent, settle, hx] at ht; rwa [hx])

end Call

namespace Requests

variable {r r' : Requests O} {op : Op O} {id c : ℕ} {p : PendingManageRequest} {x : Call O}

/-! ## What an operation changes -/

/-- The requests without one that no longer waits, and its call updated. -/
def drop (r : Requests O) (id c : ℕ) (f : Call O → Call O) : Requests O :=
  { r with pending := r.pending.delete id, calls := r.calls.modify c f }

inductive Change (r : Requests O) : Op O → Requests O → Prop
  | same (op : Op O) : r.Change op r
  | begun {target : Option DeviceId} {hasTimeout : Bool} {link : Option ℕ} {connected : Bool}
      {result : Option (Result O)} (h : ∀ o, result ≠ some (.resolved o)) :
      r.Change (.sendManageRequest target hasTimeout link connected)
        { r with calls := r.calls ++ [{ target, hasTimeout, link, result }] }
  | direct {hasTimeout : Bool} {link : Option ℕ} :
      r.Change (.sendManageRequest none hasTimeout link true)
        (register { r with calls := r.calls ++ [{ target := none, hasTimeout, link }] }
          r.calls.length none)
  | paired {c : ℕ} {x : Call O} (hx : r.calls[c]? = some x) (hid : x.requestId = none)
      (ht : x.result = none) : r.Change (.paired c (.ok ())) (r.register c x.target)
  | unpaired {c : ℕ} {x : Call O} {reason : String} (hx : r.calls[c]? = some x)
      (hid : x.requestId = none) :
      r.Change (.paired c (.error reason))
        { r with calls := r.calls.modify c (Call.setResult (.rejected reason)) }
  | sent {c : ℕ} :
      r.Change (.transmitted c (.ok ()))
        { r with calls := r.calls.modify c (Call.setSent (.ok ())) }
  | unsent {c id : ℕ} {x : Call O} {reason : String} (hx : r.calls[c]? = some x)
      (hid : x.requestId = some id) :
      r.Change (.transmitted c (.error reason)) (r.drop id c (Call.setSent (.error reason)))
  | timedOut {c id : ℕ} {x : Call O} (hx : r.calls[c]? = some x) (hid : x.requestId = some id) :
      r.Change (.timeout c) (r.drop id c (Call.setResult .timedOut))
  | answered {id : ℕ} {o : O} {p : PendingManageRequest} (hp : r.pending.get id = some p) :
      r.Change (.applyManageResponse id o p.expectedFrom)
        (r.drop id p.call (Call.setAnswer (.ok o)))
  | rejected {reason : String} :
      r.Change (.rejectPendingManageRequests reason) (r.rejectPendingManageRequests reason)

theorem change_perform (r : Requests O) (op : Op O) : r.Change op (r.perform op) := by
  cases op with
  | sendManageRequest target hasTimeout link connected =>
    rw [perform, sendManageRequest.eq_def]
    dsimp only
    split
    · exact .begun (by simp)
    · rename_i hconnected
      rw [Bool.not_eq_false] at hconnected
      subst hconnected
      split
      · exact .direct
      · exact .begun (by simp)
  | paired c result =>
    rw [perform, paired]
    split
    next hx =>
      split
      · exact .unpaired hx rfl
      · exact .paired hx rfl rfl
    next => exact .same _
  | transmitted c result =>
    rw [perform, transmitted]
    split
    next hx =>
      split
      · exact .unsent hx rfl
      · exact .sent
    next => exact .same _
  | timeout c =>
    rw [perform, timeout]
    split
    next hx =>
      split
      · exact .same _
      · exact .timedOut hx rfl
    next => exact .same _
  | applyManageResponse requestId outcome sender =>
    rw [perform, applyManageResponse]
    split
    next => exact .same _
    next hp =>
      split
      next hs =>
        subst hs
        exact .answered hp
      next => exact .same _
  | rejectPendingManageRequests reason => exact .rejected

/-! ## The connections of the calls -/

def links (r : Requests O) : List (Option ℕ) := r.calls.map Call.link

theorem map_link_modify (calls : List (Call O)) (c : ℕ) {f : Call O → Call O}
    (hf : ∀ x, (f x).link = x.link) : (calls.modify c f).map Call.link = calls.map Call.link :=
  Machine.map_modify_of_forall Call.link f hf calls c

theorem map_link_reject (reason : String) (pending : List PendingManageRequest)
    (calls : List (Call O)) :
    (pending.foldl (fun calls p => calls.modify p.call (Call.setAnswer (.error reason)))
      calls).map Call.link = calls.map Call.link := by
  induction pending generalizing calls with
  | nil => rfl
  | cons p pending ih =>
    rw [List.foldl_cons, ih]
    exact map_link_modify calls p.call fun _ => rfl

/-- A call keeps the connection that it began on. -/
theorem Change.links_prefix (h : r.Change op r') : r.links <+: r'.links := by
  have keeps (calls : List (Call O)) (c : ℕ) {f : Call O → Call O} (hf : ∀ x, (f x).link = x.link) :
      calls.map Call.link <+: (calls.modify c f).map Call.link := by
    rw [map_link_modify calls c hf]
  cases h with
  | same => exact List.prefix_rfl
  | begun => exact (List.prefix_append _ _).map _
  | direct => exact ((List.prefix_append _ _).map _).trans (keeps _ _ fun _ => rfl)
  | rejected =>
    rw [links, links, rejectPendingManageRequests, map_link_reject]
  | paired | unpaired | sent | unsent | timedOut | answered => exact keeps _ _ fun _ => rfl

/-- A request that waits did so before, has just been called, or has just been paired. -/
theorem Change.pending (h : r.Change op r') (hp : r'.pending.get id = some p) :
    r.pending.get id = some p ∨
      (∃ hasTimeout link, op = .sendManageRequest none hasTimeout link true ∧
        r'.links[p.call]? = some link) ∨
      op = .paired p.call (.ok ()) := by
  have dropped {id' c : ℕ} {f : Call O → Call O} (hp : (r.drop id' c f).pending.get id = some p) :
      r.pending.get id = some p :=
    (OrderedMap.get_delete_eq_some.1 hp).1
  cases h with
  | same | begun | unpaired | sent => exact .inl hp
  | @direct hasTimeout link => grind [register, OrderedMap.get_set, links]
  | paired => grind [register, OrderedMap.get_set]
  | unsent | timedOut | answered => exact .inl (dropped hp)
  | rejected => cases hp

/-! ## Validity -/

/-- A request that waits for a response. -/
@[grind cases]
structure Waits (r : Requests O) (id : ℕ) (p : PendingManageRequest) (x : Call O) : Prop where
  call : r.calls[p.call]? = some x
  requestId : x.requestId = some id
  target : x.target = p.expectedFrom
  result : x.result ≠ some .timedOut

@[grind cases]
structure Valid (r : Requests O) : Prop where
  lt : ∀ id p, r.pending.get id = some p → id < r.nextRequestId
  waits : ∀ id p, r.pending.get id = some p → ∃ x, r.Waits id p x
  sound : ∀ x ∈ r.calls, x.Sound

theorem valid_empty : (empty : Requests O).Valid where
  lt _ _ h := by cases h
  waits _ _ h := by cases h
  sound _ h := by cases h

theorem sound_modify {calls : List (Call O)} (h : ∀ x ∈ calls, x.Sound) (c : ℕ)
    {f : Call O → Call O} (hf : ∀ x, x.Sound → (f x).Sound) : ∀ x ∈ calls.modify c f, x.Sound := by
  grind [List.mem_iff_getElem?]

theorem sound_append {calls : List (Call O)} (h : ∀ x ∈ calls, x.Sound)
    (hx : ∀ o, x.result ≠ some (.resolved o)) : ∀ y ∈ calls ++ [x], y.Sound := by
  intro y hy
  rcases List.mem_append.1 hy with hy | hy
  · exact h y hy
  · cases List.mem_singleton.1 hy
    intro o ho
    exact absurd ho (hx o)

theorem Valid.append (h : r.Valid) (hx : ∀ o, x.result ≠ some (.resolved o)) :
    Valid { r with calls := r.calls ++ [x] } where
  lt := h.lt
  waits id p hp := by
    obtain ⟨y, hy⟩ := h.waits id p hp
    have hlt := (List.getElem?_eq_some_iff.1 hy.call).1
    exact ⟨y, { hy with call := by rw [List.getElem?_append_left hlt, hy.call] }⟩
  sound := sound_append h.sound hx

/-- Calls that do not wait may be updated. -/
theorem Valid.modify (h : r.Valid) {f : Call O → Call O} (hf : ∀ x, x.Sound → (f x).Sound)
    (hc : ∀ id p, r.pending.get id = some p → p.call ≠ c) :
    Valid { r with calls := r.calls.modify c f } where
  lt := h.lt
  waits id p hp := by
    obtain ⟨y, hy⟩ := h.waits id p hp
    refine ⟨y, { hy with call := ?_ }⟩
    rw [List.getElem?_modify_ne _ _ (hc id p hp).symm, hy.call]
  sound := sound_modify h.sound c hf

theorem Valid.delete (h : r.Valid) (id : ℕ) :
    Valid { r with pending := r.pending.delete id } where
  lt id' p hp := h.lt id' p (OrderedMap.get_delete_eq_some.1 hp).1
  waits id' p hp := by
    obtain ⟨y, hy⟩ := h.waits id' p (OrderedMap.get_delete_eq_some.1 hp).1
    exact ⟨y, { hy with }⟩
  sound := h.sound

theorem Valid.drop (h : r.Valid) (hx : r.calls[c]? = some x) (hid : x.requestId = some id)
    {f : Call O → Call O} (hf : ∀ x, x.Sound → (f x).Sound) : (r.drop id c f).Valid := by
  refine Valid.modify (h.delete id) hf ?_
  grind [OrderedMap.get_delete_eq_some]

theorem Valid.register (h : r.Valid) (hx : r.calls[c]? = some x) (hid : x.requestId = none)
    (hresult : x.result = none) : (r.register c x.target).Valid where
  lt id p hp := by grind [Requests.register, OrderedMap.get_set]
  waits id p hp := by
    rw [Requests.register, OrderedMap.get_set] at hp
    split at hp
    next heq =>
      cases hp
      refine ⟨{ x with requestId := some id }, ?_, rfl, rfl, by simp [hresult]⟩
      simp [Requests.register, hx, heq]
    next =>
      obtain ⟨y, hy⟩ := h.waits id p hp
      have hne : c ≠ p.call := by grind
      refine ⟨y, { hy with call := ?_ }⟩
      rw [Requests.register, List.getElem?_modify_ne _ _ hne, hy.call]
  sound := sound_modify h.sound c fun y hy => hy

/-- A call whose request is being sent may wait for the response. -/
theorem Valid.sent (h : r.Valid) (c : ℕ) (sent : Except String Unit) :
    Valid { r with calls := r.calls.modify c (Call.setSent sent) } where
  lt := h.lt
  waits id p hp := by
    obtain ⟨y, hy⟩ := h.waits id p hp
    by_cases hc : c = p.call
    · subst hc
      refine ⟨y.setSent sent, by simp [hy.call], hy.requestId, hy.target, ?_⟩
      exact Call.setSent_result_ne_timedOut hy.result
    · refine ⟨y, { hy with call := ?_ }⟩
      rw [List.getElem?_modify_ne _ _ hc, hy.call]
  sound := sound_modify h.sound c fun _ => Call.sound_setSent

theorem sound_reject (reason : String) (pending : List PendingManageRequest)
    {calls : List (Call O)} (h : ∀ x ∈ calls, x.Sound) :
    ∀ x ∈ pending.foldl (fun calls p => calls.modify p.call (Call.setAnswer (.error reason))) calls,
      x.Sound := by
  induction pending generalizing calls with
  | nil => exact h
  | cons p pending ih => exact ih (sound_modify h p.call fun _ => Call.sound_setAnswer)

theorem Change.valid (hc : r.Change op r') (h : r.Valid) : r'.Valid := by
  cases hc with
  | same => exact h
  | begun hresult => exact h.append hresult
  | @direct hasTimeout link =>
    have hx : (r.calls ++ [⟨none, hasTimeout, link, none, none, none, none⟩])[r.calls.length]? =
        some ⟨none, hasTimeout, link, none, none, none, none⟩ := List.getElem?_concat_length
    exact Valid.register (h.append (by simp)) hx rfl rfl
  | paired hx hid hresult => exact h.register hx hid hresult
  | unpaired hx hid => grind [Valid.modify, Call.sound_setResult]
  | sent => exact h.sent _ _
  | unsent hx hid => exact h.drop hx hid fun _ => Call.sound_setSent
  | timedOut hx hid => exact h.drop hx hid fun _ _ => Call.sound_setResult (by simp)
  | answered hp => grind [Valid.drop, Call.sound_setAnswer]
  | rejected =>
    constructor
    · intro id p hp
      cases hp
    · intro id p hp
      cases hp
    · exact sound_reject _ _ h.sound

/-! ## Responses -/

/-- The promise of a call has been resolved. -/
def Answered (calls : List (Call O)) (c : ℕ) (o : O) : Prop :=
  ∃ x, calls[c]? = some x ∧ x.answer = some (.ok o)

theorem Answered.of_modify {calls : List (Call O)} {i : ℕ} {o : O} {f : Call O → Call O}
    (h : Answered (calls.modify i f) c o)
    (hf : ∀ x, (f x).answer = some (.ok o) → x.answer = some (.ok o)) : Answered calls c o := by
  obtain ⟨x, hx, ho⟩ := h
  rw [List.getElem?_modify] at hx
  obtain ⟨y, hy, rfl⟩ := Option.map_eq_some_iff.1 hx
  refine ⟨y, hy, ?_⟩
  split_ifs at ho
  · exact hf y ho
  · exact ho

theorem Answered.of_append {calls : List (Call O)} {o : O} (h : Answered (calls ++ [x]) c o)
    (hx : x.answer = none) : Answered calls c o := by
  obtain ⟨y, hy, ho⟩ := h
  rcases Machine.getElem?_concat hy with hy | ⟨-, rfl⟩
  · exact ⟨y, hy, ho⟩
  · rw [hx] at ho
    cases ho

theorem Answered.of_reject {reason : String} {pending : List PendingManageRequest}
    {calls : List (Call O)} {o : O}
    (h : Answered (pending.foldl (fun calls p =>
      calls.modify p.call (Call.setAnswer (.error reason))) calls) c o) : Answered calls c o := by
  induction pending generalizing calls with
  | nil => exact h
  | cons p pending ih =>
    refine (ih h).of_modify fun x hx => ?_
    rw [Call.answer_setAnswer] at hx
    -- A promise that is rejected has not been resolved.
    cases hanswer : x.answer with
    | none =>
      rw [hanswer] at hx
      cases hx
    | some answer => rwa [hanswer] at hx

theorem Answered.of_setAnswer {calls : List (Call O)} {i : ℕ} {o o' : O}
    (h : Answered (calls.modify i (Call.setAnswer (.ok o'))) c o) :
    Answered calls c o ∨ i = c ∧ o' = o := by
  obtain ⟨x, hx, ho⟩ := h
  rw [List.getElem?_modify] at hx
  obtain ⟨y, hy, rfl⟩ := Option.map_eq_some_iff.1 hx
  split_ifs at ho with hi
  · rw [Call.answer_setAnswer] at ho
    cases hanswer : y.answer with
    | none => grind
    | some answer =>
      rw [hanswer] at ho
      exact .inl ⟨y, hy, hanswer.trans ho⟩
  · exact .inl ⟨y, hy, ho⟩

/-- A promise is resolved by nothing but a response with the number of the request, from where that
    was sent. -/
theorem Change.of_answered {o : O} (hc : r.Change op r') (h : Answered r'.calls c o) :
    Answered r.calls c o ∨
      ∃ id p, op = .applyManageResponse id o p.expectedFrom ∧ r.pending.get id = some p ∧
        p.call = c := by
  cases hc with
  | same => exact .inl h
  | begun => exact .inl (h.of_append rfl)
  | direct => exact .inl ((h.of_modify fun _ hx => hx).of_append rfl)
  | paired | unpaired | sent | unsent | timedOut => exact .inl (h.of_modify fun _ hx => hx)
  | @answered id o' p hp =>
    rcases h.of_setAnswer with h | ⟨hcall, rfl⟩
    · exact .inl h
    · exact .inr ⟨id, p, rfl, hp, hcall⟩
  | rejected => exact .inl h.of_reject

end Requests

end WireMesh.TypeScript.MeshSession
