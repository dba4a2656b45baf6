import Mathlib.Data.List.Induction

/-!
# Machines

A machine takes a step at every event. A run is a list of events, and what is proved of
one step is carried to every run by the rules here.

* `run_invariant`: what every step keeps.
* `run_history`: what every step keeps of the state together with the events so far.
* `run_along`: what the steps keep that an assumption about the events allows.
* `run_simulates`: what the steps of two machines keep of their states.
-/

namespace WireMesh.Machine

variable {S E : Type*} (step : S → E → S) {s : S} {e : E} {events : List E}

/-- The state after the events. -/
def run (s : S) (events : List E) : S := events.foldl step s

@[simp]
theorem run_nil : run step s [] = s := rfl

@[simp]
theorem run_append (later : List E) :
    run step s (events ++ later) = run step (run step s events) later := List.foldl_append

@[simp]
theorem run_cons : run step s (e :: events) = run step (step s e) events := rfl

/-- Every event of the run is allowed in the state it happens in. -/
def Along (P : S → E → Prop) (s : S) (events : List E) : Prop :=
  ∀ before e after, events = before ++ e :: after → P (run step s before) e

variable {step}

theorem along_nil {P : S → E → Prop} : Along step P s [] := by
  intro before e after h
  simp at h

theorem along_cons {P : S → E → Prop} :
    Along step P s (e :: events) ↔ P s e ∧ Along step P (step s e) events := by
  constructor
  · refine fun h => ⟨h [] e events rfl, ?_⟩
    rintro before e' after rfl
    exact h (e :: before) e' after rfl
  · rintro ⟨he, h⟩ before e' after heq
    cases before with
    | nil =>
      obtain ⟨rfl, -⟩ := List.cons.inj heq
      exact he
    | cons e'' before =>
      obtain ⟨rfl, rfl⟩ := List.cons.inj heq
      exact h before e' after rfl

theorem along_append {P : S → E → Prop} {later : List E} :
    Along step P s (events ++ later) ↔
      Along step P s events ∧ Along step P (run step s events) later := by
  induction events generalizing s with
  | nil => simp [along_nil]
  | cons e events ih => simp [along_cons, ih, and_assoc]

/-- Events that are allowed in any state. -/
theorem along_of_forall {P : S → E → Prop} (h : ∀ e ∈ events, ∀ t, P t e) :
    Along step P s events := by
  rintro before e after rfl
  exact h e (by simp) _

instance decidableAlong {P : S → E → Prop} [∀ s e, Decidable (P s e)] :
    ∀ (s : S) (events : List E), Decidable (Along step P s events)
  | _, [] => .isTrue along_nil
  | s, e :: events =>
    have : Decidable (Along step P (step s e) events) := decidableAlong (step s e) events
    decidable_of_iff _ along_cons.symm

theorem Along.concat {P : S → E → Prop} (h : Along step P s (events ++ [e])) :
    Along step P s events ∧ P (run step s events) e := by
  refine ⟨?_, h events e [] rfl⟩
  rintro before e' after rfl
  exact h before e' (after ++ [e]) (by simp)

theorem run_history {P : List E → S → Prop} (hinit : P [] s)
    (hstep : ∀ events t e, P events t → P (events ++ [e]) (step t e)) (events : List E) :
    P events (run step s events) := by
  induction events using List.reverseRecOn with
  | nil => exact hinit
  | append_singleton events e ih =>
    rw [run_append]
    exact hstep events _ e ih

theorem run_invariant {P : S → Prop} (hinit : P s) (hstep : ∀ t e, P t → P (step t e))
    (events : List E) : P (run step s events) :=
  run_history (P := fun _ => P) hinit (fun _ => hstep) events

theorem run_along {P : S → Prop} {A : S → E → Prop} (hinit : P s)
    (hstep : ∀ t e, P t → A t e → P (step t e)) (h : Along step A s events) :
    P (run step s events) := by
  induction events using List.reverseRecOn with
  | nil => exact hinit
  | append_singleton events e ih =>
    obtain ⟨hbefore, he⟩ := h.concat
    rw [run_append]
    exact hstep _ _ (ih hbefore) he

theorem run_simulates {T : Type*} {step' : T → E → T} {t : T} {R : S → T → Prop} (hinit : R s t)
    (hstep : ∀ s t e, R s t → R (step s e) (step' t e)) (events : List E) :
    R (run step s events) (run step' t events) := by
  induction events generalizing s t with
  | nil => exact hinit
  | cons e events ih => exact ih (hstep s t e hinit)

/-- Whatever is in a list that has grown was there, or is new. -/
theorem getElem?_concat {α : Type*} {l : List α} {a b : α} {i : ℕ}
    (h : (l ++ [a])[i]? = some b) : l[i]? = some b ∨ i = l.length ∧ a = b := by grind

/-- What a change of an element keeps. -/
theorem map_modify_of_forall {α β : Type*} (g : α → β) (f : α → α) (h : ∀ x, g (f x) = g x)
    (l : List α) (i : ℕ) : (l.modify i f).map g = l.map g := by
  apply List.ext_getElem?
  grind

end WireMesh.Machine
