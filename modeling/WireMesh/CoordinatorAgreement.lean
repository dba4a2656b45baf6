import Mathlib.Data.List.Lex
import Mathlib.Data.Prod.Lex
import Mathlib.Order.Nat
import WireMesh.Machine
import WireMesh.TypeScript.CoordinatorElection

/-!
# The coordinator of those who have seen the same claims

Claims are ordered by their terms, and among equal terms the lower device-id comes out on top. This
is a total order up to the hints of capacity (`rank`), and an election keeps the greatest claim that
it has seen: it does not matter in which order the claims come, or how often. The own claims are
among them. They are made at the next term, and so they are greater than all before.

* `keeps_next`, `keeps_run`: the incumbent is the greatest of the claims so far.
* `coordinator_election_join`: so two devices that have seen the same claims have one coordinator.
* `incumbent_superseded`: an incumbent below the last term but one can be superseded.
-/

namespace WireMesh.TypeScript

/-! ## The order of claims -/

/-- The lower device-id in the order of its bytes. -/
theorem compareDeviceIds_neg_iff {a b : Bytes} :
    compareDeviceIds a b < 0 ↔ a.map UInt8.toNat < b.map UInt8.toNat := by
  induction a generalizing b with
  | nil =>
    cases b with
    | nil => simp [compareDeviceIds]
    | cons y b => grind [compareDeviceIds, List.nil_lt_cons]
  | cons x a ih =>
    cases b with
    | nil => grind [compareDeviceIds, List.not_lt_nil]
    | cons y b =>
      grind [List.cons_lt_cons_iff, compareDeviceIds, UInt8.toNat_inj, UInt8.lt_iff_toNat_lt]

theorem compareDeviceIds_swap (a b : Bytes) : compareDeviceIds a b = -compareDeviceIds b a := by
  induction a generalizing b with
  | nil => cases b <;> simp [compareDeviceIds]
  | cons x a ih =>
    cases b with
    | nil => simp [compareDeviceIds]
    | cons y b => grind [compareDeviceIds]

namespace CoordinatorClaim

/-- What claims agree on, whatever their hints. -/
def key (c : CoordinatorClaim) : ℤ × Bytes := (c.term, c.coordinator)

def rank (c : CoordinatorClaim) : ℤ ×ₗ (List ℕ)ᵒᵈ :=
  toLex (c.term, OrderDual.toDual (c.coordinator.map UInt8.toNat))

theorem key_eq_of_rank_eq {c c' : CoordinatorClaim} (h : c.rank = c'.rank) : c.key = c'.key := by
  obtain ⟨hterm, hcoordinator⟩ := Prod.mk.inj (toLex.injective h)
  exact Prod.ext hterm (List.map_injective_iff.2 (fun _ _ => UInt8.toNat_inj.1) hcoordinator)

theorem rank_eq_of_key_eq {c c' : CoordinatorClaim} (h : c.key = c'.key) : c.rank = c'.rank := by
  obtain ⟨hterm, hcoordinator⟩ := Prod.mk.inj h
  rw [rank, rank, hterm, hcoordinator]

/-- The comparison of the source. -/
theorem rank_lt_rank {c c' : CoordinatorClaim} : c.rank < c'.rank ↔
    c.term < c'.term ∨ c'.term = c.term ∧ compareDeviceIds c'.coordinator c.coordinator < 0 := by
  rw [rank, rank, Prod.Lex.toLex_lt_toLex, compareDeviceIds_neg_iff, OrderDual.toDual_lt_toDual,
    eq_comm]

theorem rank_le_rank {c c' : CoordinatorClaim} : c.rank ≤ c'.rank ↔
    c.term < c'.term ∨ c.term = c'.term ∧ compareDeviceIds c'.coordinator c.coordinator ≤ 0 := by
  rw [← not_lt, rank_lt_rank, compareDeviceIds_swap]
  omega

theorem claim_frame (c : CoordinatorClaim) : c.frame.claim = some c := by
  rw [CoordinatorFrame.claim, frame]
  exact dif_pos c.supersedable

end CoordinatorClaim

open CoordinatorClaim

/-! ## What an election keeps -/

namespace CoordinatorElection

/-- The incumbent is one of the claims, and the greatest of them. -/
@[grind cases]
structure Keeps (s : CoordinatorElection) (claims : List CoordinatorClaim) : Prop where
  mem : ∀ c ∈ s.incumbent, c ∈ claims
  greatest : ∀ c ∈ claims, ∃ incumbent ∈ s.incumbent, c.rank ≤ incumbent.rank

theorem keeps_new (ownDevice : Bytes) : Keeps (new ownDevice) [] where
  mem _ h := by cases h
  greatest _ h := by cases h

variable {s : CoordinatorElection} {claims : List CoordinatorClaim}

theorem evaluate_of_claim {frame : CoordinatorFrame} {incoming : CoordinatorClaim}
    (h : frame.claim = some incoming) :
    (s.evaluate frame).1.incumbent = some incoming ∧
        (∀ previous ∈ s.incumbent, previous.rank < incoming.rank) ∨
      (s.evaluate frame).1 = s ∧ ∃ previous ∈ s.incumbent, incoming.rank ≤ previous.rank := by
  rw [evaluate, h]
  dsimp only
  split
  · next hnone => exact .inl ⟨rfl, by simp [hnone]⟩
  · next previous hprevious =>
    rw [hprevious]
    split_ifs with hlt
    · grind [rank_lt_rank]
    · exact .inr ⟨rfl, previous, rfl, not_lt.1 fun h => hlt (rank_lt_rank.1 h)⟩

theorem evaluate_of_no_claim {frame : CoordinatorFrame} (h : frame.claim = none) :
    (s.evaluate frame).1 = s := by
  rw [evaluate, h]

/-- An own claim is like one that is received, and always accepted. -/
theorem claim_cases (capacityHint : Option JsNumber) :
    (∃ c, (s.claim capacityHint).1.incumbent = some c ∧ s.claimed (.claim capacityHint) = some c ∧
      ∀ previous ∈ s.incumbent, previous.rank < c.rank) ∨
    (s.claim capacityHint).1 = s ∧ s.claimed (.claim capacityHint) = none := by
  rw [claimed, claim]
  split_ifs with hterm
  · refine .inl ⟨_, rfl, claim_frame _, fun previous h => rank_lt_rank.2 (.inl ?_)⟩
    simp [Option.mem_def.1 h]
  · exact .inr ⟨rfl, rfl⟩

theorem Keeps.accept {s' : CoordinatorElection} (h : Keeps s claims) {c : CoordinatorClaim}
    (hincumbent : s'.incumbent = some c)
    (hgreater : ∀ previous ∈ s.incumbent, previous.rank < c.rank) : Keeps s' (claims ++ [c]) where
  mem c' hc' := by grind
  greatest c' hc' := by grind

theorem keeps_next (h : Keeps s claims) (e : Event) :
    Keeps (s.next e) (claims ++ (s.claimed e).toList) := by
  cases e with
  | claim capacityHint => grind [claim_cases, Keeps.accept, next]
  | evaluate frame =>
    constructor <;> grind [next, claimed, CoordinatorFrame.claim, evaluate_of_no_claim,
      evaluate_of_claim]

theorem keeps_run (h : Keeps s claims) (events : List Event) :
    Keeps (Machine.run next s events) (claims ++ s.seen events) := by
  induction events generalizing s claims with
  | nil => simpa [seen] using h
  | cons e events ih => grind [Machine.run_cons, seen, keeps_next]

theorem Keeps.incumbent_eq_none_iff (h : Keeps s claims) : s.incumbent = none ↔ claims = [] := by
  constructor
  · intro hnone
    refine List.eq_nil_iff_forall_not_mem.2 fun c hc => ?_
    grind
  · rintro rfl
    exact Option.eq_none_iff_forall_not_mem.2 fun c hc => by simpa using h.mem c hc

/-- The greatest claim of one set, with any hints, is not greater than that of the other. -/
theorem Keeps.rank_le {s' : CoordinatorElection} {claims' : List CoordinatorClaim}
    (h : Keeps s claims) (h' : Keeps s' claims')
    (hsame : ∀ k, k ∈ claims.map key → k ∈ claims'.map key) {c c' : CoordinatorClaim}
    (hc : s.incumbent = some c) (hc' : s'.incumbent = some c') : c.rank ≤ c'.rank := by
  obtain ⟨c'', hmem, hkey⟩ := List.mem_map.1 (hsame c.key (List.mem_map_of_mem (h.mem c hc)))
  grind [rank_eq_of_key_eq]

theorem Keeps.agree {s' : CoordinatorElection} {claims' : List CoordinatorClaim}
    (h : Keeps s claims) (h' : Keeps s' claims')
    (hsame : ∀ k, k ∈ claims.map key ↔ k ∈ claims'.map key) :
    s.incumbent.map key = s'.incumbent.map key := by
  rcases hc : s.incumbent with _ | c
  · obtain rfl := h.incumbent_eq_none_iff.1 hc
    have hnil : claims' = [] := by
      rw [← List.map_eq_nil_iff (f := key)]
      exact List.eq_nil_iff_forall_not_mem.2 fun k hk => by simpa using (hsame k).2 hk
    rw [h'.incumbent_eq_none_iff.2 hnil]
  · obtain ⟨c'', hmem, -⟩ := List.mem_map.1 ((hsame c.key).1 (List.mem_map_of_mem (h.mem c hc)))
    obtain ⟨c', hc', -⟩ := h'.greatest c'' hmem
    rw [Option.mem_def.1 hc', Option.map_some, Option.map_some]
    exact congrArg some (key_eq_of_rank_eq (le_antisymm
      (h.rank_le h' (fun k => (hsame k).1) hc hc') (h'.rank_le h (fun k => (hsame k).2) hc' hc)))

end CoordinatorElection

open CoordinatorElection

/-- After any events, the incumbent is the greatest of all claims that have been received or made:
    no other one has a higher term, or the same term and a lower device-id. Devices that have seen
    the same claims, in any order, agree on the coordinator and its term. -/
theorem coordinator_election_join (ownDevice : Bytes) (events : List Event) :
    let s := Machine.run next (new ownDevice) events
    let claims := (new ownDevice).seen events
    (s.incumbent = none ↔ claims = []) ∧
    (∀ c ∈ s.incumbent, c ∈ claims ∧ ∀ c' ∈ claims, c'.term < c.term ∨
      c'.term = c.term ∧ compareDeviceIds c.coordinator c'.coordinator ≤ 0) ∧
    ∀ (ownDevice' : Bytes) (events' : List Event),
      (∀ k, k ∈ claims.map key ↔ k ∈ ((new ownDevice').seen events').map key) →
      s.incumbent.map key = (Machine.run next (new ownDevice') events').incumbent.map key := by
  intro s claims
  have h : Keeps s claims := keeps_run (keeps_new ownDevice) events
  refine ⟨h.incumbent_eq_none_iff, fun c hc => ⟨h.mem c hc, fun c' hc' => ?_⟩,
    fun ownDevice' events' hsame => h.agree (keeps_run (keeps_new ownDevice') events') hsame⟩
  obtain ⟨incumbent, hincumbent, hle⟩ := h.greatest c' hc'
  obtain rfl := Option.some.inj (hincumbent.symm.trans hc)
  exact rank_le_rank.1 hle

namespace CoordinatorElection

/-- A claim of a device at a term. -/
def received (term : ℤ) (device : UInt8) : Event :=
  .evaluate { term := .integer term, coordinator := [device], capacityHint := none }

end CoordinatorElection

/-- Two devices make a claim each, and hear of that of the other and of two more, in other orders.
    One of them also receives a claim without a term. -/
theorem coordinator_election_join_sample :
    let events : List Event := [.claim none, received 0 2, received 3 5, received 3 4]
    let events' : List Event := [.claim (some .other), received 3 4,
      .evaluate { term := .other, coordinator := [0], capacityHint := none }, received 0 1,
      received 3 5, received 3 4]
    (Machine.run next (new [1]) events).incumbent.map key = some (3, [4]) ∧
      (Machine.run next (new [2]) events').incumbent.map key = some (3, [4]) := by
  intro events events'
  have hseen : ((new [1]).seen events).map key = [(0, [1]), (0, [2]), (3, [5]), (3, [4])] := by
    decide
  have hseen' : ((new [2]).seen events').map key =
      [(0, [2]), (3, [4]), (0, [1]), (3, [5]), (3, [4])] := by
    decide
  have h := (coordinator_election_join [1] events).2.2 [2] events' fun k => by
    rw [hseen, hseen']
    simp only [List.mem_cons, List.not_mem_nil]
    tauto
  rw [← h]
  decide

/-! ## Succession -/

/-- Below the last term but one, whoever holds the incumbent can make a claim that every device
    with the same incumbent accepts. -/
theorem incumbent_superseded {ownDevice : Bytes} {events : List Event} {c : CoordinatorClaim}
    (hc : (Machine.run next (new ownDevice) events).incumbent = some c)
    (hterm : c.term + 1 < maxSafeInteger) (capacityHint : Option JsNumber) :
    ∃ (successor : CoordinatorClaim) (frame : CoordinatorFrame),
      (Machine.run next (new ownDevice) events).claim capacityHint =
        ({ ownDevice := (Machine.run next (new ownDevice) events).ownDevice
           incumbent := some successor }, .ok frame) ∧
      c.term < successor.term ∧
      successor.coordinator = (Machine.run next (new ownDevice) events).ownDevice ∧
      ∀ other : CoordinatorElection, other.incumbent = some c →
        other.evaluate frame =
          ({ other with incumbent := some successor }, .accepted successor) := by
  have hbound := c.supersedable
  have hnext : isSupersedableTerm (.integer (c.term + 1)) = true := by
    simp only [isSupersedableTerm, JsNumber.isSafeInteger, Bool.and_eq_true, decide_eq_true_eq]
      at hbound ⊢
    omega
  let s := Machine.run next (new ownDevice) events
  let successor : CoordinatorClaim := ⟨c.term + 1, s.ownDevice, capacityHint, hnext⟩
  refine ⟨successor, successor.frame, ?_, by simp [successor], rfl, fun other hother => ?_⟩
  · rw [claim, hc]
    exact dif_pos hnext
  · rw [evaluate]
    simp [successor, CoordinatorClaim.frame, CoordinatorFrame.claim, hnext, hother]

theorem incumbent_superseded_sample :
    ∃ (successor : CoordinatorClaim) (frame : CoordinatorFrame),
      (Machine.run next (new [1]) [received 3 5]).claim none =
        ({ ownDevice := [1], incumbent := some successor }, .ok frame) ∧
      (3 : ℤ) < successor.term := by
  obtain ⟨successor, frame, hclaim, hterm, -⟩ := incumbent_superseded
    (show (Machine.run next (new [1]) [received 3 5]).incumbent = some ⟨3, [5], none, rfl⟩ from rfl)
    (by decide) none
  exact ⟨successor, frame, hclaim, hterm⟩

/-- A claim at the last term that is accepted leaves no term for another one: `claim` throws. -/
theorem incumbent_permanent :
    let s := Machine.run next (new [1]) [received (maxSafeInteger - 1) 5]
    s.incumbent.map key = some (maxSafeInteger - 1, [5]) ∧
      ∀ capacityHint, s.claim capacityHint =
        (s, .error ("the incumbent's term 9007199254740990 leaves no term a claim can be " ++
          "raised to")) := by
  intro s
  exact ⟨by decide, fun capacityHint => rfl⟩

end WireMesh.TypeScript
