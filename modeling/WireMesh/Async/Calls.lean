import Mathlib.Data.Fintype.Order
import Mathlib.Data.Set.Finite.Basic
import Mathlib.Logic.Relation
import Mathlib.Order.WellFounded
import WireMesh.Async.Basic

/-!
# When a recursion ends

What a recursive computation comes to ask, and when it ends.

* `Async.Calls body q q'`: settling `q` comes to ask `q'`.
* `terminates_iff_acc`: the recursion ends on `q` iff `q` is accessible for it.
* `terminates_iff_acyclic`: when only finitely many questions come up, it ends
  iff none of them comes up again below itself.
-/

namespace WireMesh

namespace Async

variable {Q R E A B : Type} {ans ans' : Q → Except E R → Prop} {body : Q → Async Q R E R}

/-! ## Questions -/

/-- The computation comes to ask the question, the ones before it being answered by `ans`. -/
inductive Asks (ans : Q → Except E R → Prop) : Async Q R E A → Q → Prop
  | here {q : Q} {k : R → Async Q R E A} : Asks ans (call q k) q
  | later {q q' : Q} {k : R → Async Q R E A} {r : R} :
      ans q (.ok r) → Asks ans (k r) q' → Asks ans (call q k) q'

/-- Settling `q` comes to ask `q'`. -/
def Calls (body : Q → Async Q R E R) (q q' : Q) : Prop := Asks (Returns body) (body q) q'

theorem Asks.mono {p : Async Q R E A} {q : Q} (h : Asks ans p q)
    (hans : ∀ q y, ans q y → ans' q y) : Asks ans' p q := by
  induction h with
  | here => exact .here
  | later hq _ ih => exact .later (hans _ _ hq) ih

@[simp]
theorem asks_pure {a : A} {q : Q} : ¬Asks ans (pure a : Async Q R E A) q := nofun

@[simp]
theorem asks_ask {q q' : Q} : Asks ans (ask q) q' ↔ q' = q := by
  constructor
  · intro h
    cases h with
    | here => rfl
    | later _ h => cases h
  · rintro rfl
    exact .here

/-- A sequence of computations asks what its first one asks, and what it goes on to ask. -/
theorem asks_bind {p : Async Q R E A} {f : A → Async Q R E B} {q : Q} :
    Asks ans (p >>= f) q ↔ Asks ans p q ∨ ∃ a, Settles ans p (.ok a) ∧ Asks ans (f a) q := by
  change Asks ans (p.bind f) q ↔ _
  constructor
  · intro h
    induction p with
    | ret a => exact .inr ⟨a, .ret, h⟩
    | throw e => cases h
    | call q₀ k ih =>
      cases h with
      | here => exact .inl .here
      | later hq hr =>
        rcases ih _ hr with hp | ⟨a, hp, hf⟩
        · exact .inl (.later hq hp)
        · exact .inr ⟨a, .answer hq hp, hf⟩
  · rintro (hp | ⟨a, hp, hf⟩)
    · induction hp with
      | here => exact .here
      | later hq _ ih => exact .later hq ih
    · induction p with
      | ret a' => cases hp; exact hf
      | throw e => cases hp
      | call q₀ k ih =>
        cases hp with
        | answer hq hr => exact .later hq (ih _ hr)

@[simp]
theorem asks_ofExcept {x : Except E A} {q : Q} : ¬Asks ans (ofExcept x : Async Q R E A) q := by
  cases x <;> exact nofun

/-- A search asks what its test asks on an item, the test having failed on those before. -/
theorem asks_findM? {T : Type} {l : List T} {p : T → Async Q R E Bool} {q : Q} :
    Asks ans (l.findM? p) q ↔ ∃ before t after, l = before ++ t :: after ∧
      (∀ s ∈ before, Settles ans (p s) (.ok false)) ∧ Asks ans (p t) q := by
  induction l with
  | nil => simp [List.findM?]
  | cons t l ih =>
    rw [List.findM?, asks_bind]
    constructor
    · rintro (h | ⟨b, hb, h⟩)
      · exact ⟨[], t, l, rfl, by simp, h⟩
      · cases b with
        | true => simp at h
        | false => grind
    · rintro ⟨before, s, after, hl, hbefore, hs⟩
      cases before with
      | nil =>
        cases hl
        exact .inl hs
      | cons t' before => grind

section Refusing

variable {ε : Type} {q : Q}

@[simp]
theorem asks_run_pure {a : A} : ¬Asks ans (pure a : ExceptT ε (Async Q R E) A).run q := nofun

@[simp]
theorem asks_run_refuse {e : ε} : ¬Asks ans (refuse e : ExceptT ε (Async Q R E) A).run q := nofun

@[simp]
theorem asks_run_ensure {c : Prop} [Decidable c] {e : ε} :
    ¬Asks ans (ensure c e : ExceptT ε (Async Q R E) Unit).run q := by
  rw [ensure]
  split
  · exact asks_run_pure
  · exact asks_run_refuse

@[simp]
theorem asks_run_orRefuse {x : Option A} {e : ε} :
    ¬Asks ans (orRefuse x e : ExceptT ε (Async Q R E) A).run q := by
  cases x <;> exact nofun

@[simp]
theorem asks_run_orRefuseWith {δ : Type} {x : Except δ A} {f : δ → ε} :
    ¬Asks ans (orRefuseWith x f : ExceptT ε (Async Q R E) A).run q := by
  cases x <;> exact nofun

@[simp]
theorem asks_run_await {p : Async Q R E A} :
    Asks ans (await p : ExceptT ε (Async Q R E) A).run q ↔ Asks ans p q := by
  change Asks ans (Except.ok <$> p) q ↔ _
  rw [map_eq_pure_bind, asks_bind]
  simp

@[simp]
theorem asks_run_adapt {ε' : Type} {f : ε → ε'} {p : ExceptT ε (Async Q R E) A} :
    Asks ans (p.adapt f).run q ↔ Asks ans p.run q := by
  change Asks ans (Except.mapError f <$> p.run) q ↔ _
  rw [map_eq_pure_bind, asks_bind]
  simp

@[simp]
theorem asks_run_bind {p : ExceptT ε (Async Q R E) A} {f : A → ExceptT ε (Async Q R E) B} :
    Asks ans (p >>= f).run q ↔
      Asks ans p.run q ∨ ∃ a, Accepts ans p a ∧ Asks ans (f a).run q := by
  change Asks ans (p.run >>= ExceptT.bindCont f) q ↔ _
  rw [asks_bind]
  refine or_congr_right ⟨?_, fun ⟨a, hp, hf⟩ => ⟨.ok a, hp, hf⟩⟩
  rintro ⟨x, hp, hf⟩
  cases x with
  | ok a => exact ⟨a, hp, hf⟩
  | error e => cases hf

end Refusing

/-- A computation settles when all the questions it comes to ask are answered. -/
theorem exists_settles {p : Async Q R E A} (h : ∀ q, Asks ans p q → ∃ x, ans q x) :
    ∃ x, Settles ans p x := by
  induction p with
  | ret a => exact ⟨_, .ret⟩
  | throw e => exact ⟨_, .throw⟩
  | call q k ih =>
    obtain ⟨x | r, hx⟩ := h q .here
    · exact ⟨_, .reject hx⟩
    · obtain ⟨y, hy⟩ := ih r fun q' hq' => h q' (.later hx hq')
      exact ⟨y, .answer hx hy⟩

/-- A settled computation has its questions answered. -/
theorem Settles.answered {p : Async Q R E A} {x : Except E A} {q : Q} (h : Settles ans p x)
    (hq : Asks ans' p q) (hans : ∀ q a b, ans q a → ans' q b → a = b) : ∃ y, ans q y := by
  induction hq with
  | here =>
    cases h with
    | answer hq _ => exact ⟨_, hq⟩
    | reject hq => exact ⟨_, hq⟩
  | later hq' _ ih =>
    cases h with
    | answer hq hr =>
      cases hans _ _ _ hq hq'
      exact ih hr
    | reject hq => cases hans _ _ _ hq hq'

/-- The recursion ends on `q` iff there is no infinite descent of calls from it. -/
theorem terminates_iff_acc {q : Q} :
    Terminates body q ↔ Acc (fun q' q => Calls body q q') q := by
  constructor
  · rintro ⟨x, n, hn⟩
    induction n generalizing q x with
    | zero => cases hn
    | succ n ih =>
      -- What the body asks is already answered one unfolding deeper.
      refine ⟨q, fun q' hq' => ?_⟩
      obtain ⟨y, hy⟩ := (eval_eq_some_iff.1 hn).answered hq'
        fun _ _ _ ha hb => Returns.unique ⟨n, ha⟩ hb
      exact ih y hy
  · intro h
    induction h with
    | intro q _ ih =>
      obtain ⟨x, hx⟩ := exists_settles (p := body q) ih
      exact ⟨x, returns_iff.2 hx⟩

theorem not_transGen_self_of_acc {r : Q → Q → Prop} {q : Q} (h : Acc (fun q' q => r q q') q) :
    ¬Relation.TransGen r q q := by
  induction h with
  | intro q _ ih =>
    intro hq
    -- The first step of the cycle is below `q`, and on the same cycle.
    grind [Relation.TransGen.head'_iff]

theorem acc_of_reflTransGen {r : Q → Q → Prop} {q q' : Q} (h : Acc (fun q' q => r q q') q)
    (hq : Relation.ReflTransGen r q q') : Acc (fun q' q => r q q') q' := by
  induction hq with
  | refl => exact h
  | tail _ hr ih => exact ih.inv hr

/-- Over finitely many points, a point has no infinite descent iff no point below it
    is below itself. -/
theorem acc_iff_acyclic {r : Q → Q → Prop} {q : Q}
    (hfin : {q' | Relation.ReflTransGen r q q'}.Finite) :
    Acc (fun q' q => r q q') q ↔
      ∀ q', Relation.ReflTransGen r q q' → ¬Relation.TransGen r q' q' := by
  refine ⟨fun h q' hq' => not_transGen_self_of_acc (acc_of_reflTransGen h hq'), fun h => ?_⟩
  let S := {q' // Relation.ReflTransGen r q q'}
  let below : S → S → Prop := fun a b => Relation.TransGen r b.1 a.1
  have : Finite S := hfin
  have : IsTrans S below := ⟨fun _ _ _ hab hbc => hbc.trans hab⟩
  have : Std.Irrefl below := ⟨fun a => h a.1 a.2⟩
  have hwf : WellFounded below := Finite.wellFounded_of_trans_of_irrefl below
  have hacc : ∀ a : S, Acc (fun q' q => r q q') a.1 := fun a =>
    hwf.induction (C := fun a => Acc (fun q' q => r q q') a.1) a fun a ih =>
      ⟨a.1, fun q' hr => ih ⟨q', a.2.tail hr⟩ (.single hr)⟩
  exact hacc ⟨q, .refl⟩

/-- Finitely many points are below one when every step leads to one of finitely many. -/
theorem finite_reflTransGen {r : Q → Q → Prop} {q : Q} {targets : List Q}
    (h : ∀ q q', r q q' → q' ∈ targets) : {q' | Relation.ReflTransGen r q q'}.Finite := by
  refine (q :: targets).finite_toSet.subset fun q' hq' => ?_
  grind

/-- Fewer steps make fewer cycles. -/
theorem acyclic_mono {r s : Q → Q → Prop} (hrs : ∀ q q', r q q' → s q q') {q : Q}
    (h : ∀ q', Relation.ReflTransGen s q q' → ¬Relation.TransGen s q' q') :
    ∀ q', Relation.ReflTransGen r q q' → ¬Relation.TransGen r q' q' :=
  fun q' hq' hcycle =>
    h q' (Relation.ReflTransGen.mono hrs _ _ hq') (Relation.TransGen.mono hrs _ _ hcycle)

/-- Steps that all lead to one point, from which there is none, make no cycle. -/
theorem acyclic_of_last {r : Q → Q → Prop} {l : Q} (h : ∀ q q', r q q' → q' = l)
    (hlast : ∀ q', ¬r l q') (q : Q) : ¬Relation.TransGen r q q := by grind

/-- When finitely many questions come up, the recursion ends iff none of them
    comes up again below itself. -/
theorem terminates_iff_acyclic {q : Q}
    (hfin : {q' | Relation.ReflTransGen (Calls body) q q'}.Finite) :
    Terminates body q ↔ ∀ q', Relation.ReflTransGen (Calls body) q q' →
      ¬Relation.TransGen (Calls body) q' q' :=
  terminates_iff_acc.trans (acc_iff_acyclic hfin)

/-- A recursion that comes to a question below itself does not end. -/
theorem not_terminates_of_cycle {q q' : Q} (hq : Relation.ReflTransGen (Calls body) q q')
    (hcycle : Relation.TransGen (Calls body) q' q') : ¬Terminates body q := fun h =>
  not_transGen_self_of_acc (acc_of_reflTransGen (terminates_iff_acc.1 h) hq) hcycle

end Async

end WireMesh
