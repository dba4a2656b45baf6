import WireMesh.Machine

/-!
# Queues

The queues that the events of a session are read from, by any number of
consumers. A call of `next` takes the oldest value of the backlog, or waits, and
a value that is pushed goes to the call that has waited longest.

* `queue_is_fifo`: the calls of `next` get the values in order, each value once.
-/

namespace WireMesh.TypeScript

/-- A queue. The calls of `next` are numbered; a value may be `undefined`. -/
structure AsyncQueue (T : Type) where
  waiters : List ℕ
  backlog : List (Option T)
  /-- The number of calls of `next`. -/
  calls : ℕ
  /-- The values that calls have been resolved with, in the order they were. -/
  resolved : List (Option T × ℕ)

namespace AsyncQueue

variable {T : Type}

def createAsyncQueue : AsyncQueue T := ⟨[], [], 0, []⟩

def push (q : AsyncQueue T) (value : Option T) : AsyncQueue T :=
  match q.waiters with
  | waiter :: waiters => { q with waiters, resolved := q.resolved ++ [(value, waiter)] }
  | [] => { q with backlog := q.backlog ++ [value] }

/-- The backlog counts as empty when `undefined` is taken from it. -/
def next (q : AsyncQueue T) : AsyncQueue T :=
  let shifted := { q with backlog := q.backlog.tail, calls := q.calls + 1 }
  match q.backlog.head?.join with
  | some value => { shifted with resolved := q.resolved ++ [(some value, q.calls)] }
  | none => { shifted with waiters := q.waiters ++ [q.calls] }

inductive Event (T : Type)
  | push (value : Option T)
  | next

def step (q : AsyncQueue T) : Event T → AsyncQueue T
  | .push value => q.push value
  | .next => q.next

/-- The value that is pushed, if one is. -/
def Event.pushed : Event T → Option (Option T)
  | .push value => some value
  | .next => none

/-- The state of a queue that has been given these values, and asked for so many. -/
def fifo (values : List (Option T)) (calls : ℕ) : AsyncQueue T where
  waiters := List.range' values.length (calls - values.length)
  backlog := values.drop calls
  calls := calls
  resolved := values.zipIdx.take calls

theorem push_fifo (values : List (Option T)) (calls : ℕ) (value : Option T) :
    (fifo values calls).push value = fifo (values ++ [value]) calls := by
  by_cases hwait : values.length < calls
  · obtain ⟨n, rfl⟩ := Nat.exists_eq_add_of_lt hwait
    simp [push, fifo, List.range'_succ, List.zipIdx_append, List.take_of_length_le,
      Nat.add_assoc, Nat.add_sub_add_left, List.drop_eq_nil_of_le]
  · have hle : calls ≤ values.length := Nat.le_of_not_lt hwait
    simp [push, fifo, List.zipIdx_append, Nat.sub_eq_zero_of_le hle, List.drop_append_of_le_length,
      List.take_append_of_le_length, hle, Nat.le_succ_of_le hle]

theorem next_fifo {values : List (Option T)} (hdefined : none ∉ values) (calls : ℕ) :
    (fifo values calls).next = fifo values (calls + 1) := by
  have htake : values.zipIdx.take (calls + 1) = values.zipIdx.take calls ++
      (values[calls]?.map fun value => (value, calls)).toList := by
    rw [List.take_add_one, List.getElem?_zipIdx, Nat.zero_add]
  rw [next, fifo, fifo, htake]
  dsimp only
  rw [List.head?_drop, List.tail_drop]
  cases hget : values[calls]? with
  | none =>
    have hle : values.length ≤ calls := List.getElem?_eq_none_iff.1 hget
    simp [Nat.succ_sub hle, List.range'_concat, Nat.add_sub_cancel' hle]
  | some value =>
    cases value with
    | none => exact absurd (List.mem_of_getElem? hget) hdefined
    | some value =>
      have hlt : calls < values.length := (List.getElem?_eq_some_iff.1 hget).1
      simp [Nat.sub_eq_zero_of_le (Nat.le_of_lt hlt), Nat.sub_eq_zero_of_le hlt]

/-- The calls of `next` get the values that are pushed, if none is `undefined`: in order, and each
    value once. The later calls wait, or else the later values. -/
theorem queue_is_fifo (events : List (Event T)) (hdefined : none ∉ events.filterMap Event.pushed) :
    Machine.run step createAsyncQueue events =
      fifo (events.filterMap Event.pushed) (events.countP (·.pushed.isNone)) := by
  induction events using List.reverseRecOn with
  | nil => rfl
  | append_singleton events e ih =>
    rw [List.filterMap_append, List.mem_append, not_or] at hdefined
    rw [Machine.run_append, ih hdefined.1, List.filterMap_append, List.countP_append]
    cases e with
    | push value => exact push_fifo _ _ value
    | next =>
      change (fifo _ _).next = fifo (_ ++ []) (_ + 1)
      rw [List.append_nil]
      exact next_fifo hdefined.1 _

theorem queue_is_fifo_sample :
    (Machine.run step createAsyncQueue [.next, .push (some 7), .push (some 8), .next,
      .push (some 9)]).resolved = [(some 7, 0), (some 8, 1)] := by
  rw [queue_is_fifo _ (by decide)]
  rfl

end AsyncQueue

end WireMesh.TypeScript
