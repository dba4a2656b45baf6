import Mathlib.Data.Fintype.Option
import WireMesh.Rust.Predicates

/-!
# What the conditions mean (Rust)

The strong Kleene value of a predicate tree, in which a comparison of values
that cannot be compared is indeterminate, and the trees for which `predicates.rs`
computes it.

* `conditions_kleene`: trees that no comparison of incomparable values decides
  have their Kleene value, and conditions are accepted iff each is definitely true.
* `not_mismatch_holds`: the negation of a comparison between a number and a
  boolean is indeterminate, and holds for the evaluator.
-/

namespace WireMesh

namespace Tri

variable {a a' b b' : Tri}

/-! When a conjunction or disjunction is indeterminate before its operands grow, and determinate
afterwards. -/

theorem and_decided_false (ha : a.Grows a') (hb : b.Grows b') :
    ((a = none ∧ a' = some false) ∧ b ≠ some false ∨
        a ≠ some false ∧ b = none ∧ b' = some false) ↔
      a.and b = none ∧ a'.and b' = some false := by
  revert a a' b b'
  unfold Grows
  decide

theorem and_decided_true (ha : a.Grows a') (hb : b.Grows b') :
    ((a = none ∧ a' = some true) ∧ (b = none ∧ b' = some true ∨ b = some true) ∨
        a = some true ∧ b = none ∧ b' = some true) ↔
      a.and b = none ∧ a'.and b' = some true := by
  revert a a' b b'
  unfold Grows
  decide

theorem or_decided_true (ha : a.Grows a') (hb : b.Grows b') :
    ((a = none ∧ a' = some true) ∧ b ≠ some true ∨
        a ≠ some true ∧ b = none ∧ b' = some true) ↔
      a.or b = none ∧ a'.or b' = some true := by
  revert a a' b b'
  unfold Grows
  decide

theorem or_decided_false (ha : a.Grows a') (hb : b.Grows b') :
    ((a = none ∧ a' = some false) ∧ (b = none ∧ b' = some false ∨ b = some false) ∨
        a = some false ∧ b = none ∧ b' = some false) ↔
      a.or b = none ∧ a'.or b' = some false := by
  revert a a' b b'
  unfold Grows
  decide

end Tri

namespace Rust

/-- The value of a comparison, indeterminate when the operands differ in kind or unit, when
    booleans are ordered and when an instant does not parse. -/
def comparison (op : ComparisonOperator) : ComputedValue → ComputedValue → Tri
  | .number l lu, .number r ru => if lu = ru then some (applyNumberOp op l r) else none
  | .boolean l, .boolean r => match op with
    | .eq => some (l = r)
    | .neq => some (l ≠ r)
    | _ => none
  | .instant l, .instant r => do
    return applyNumberOp op (← parseInstantEpochMillis l) (← parseInstantEpochMillis r)
  | _, _ => none

theorem compareValues_eq_of_comparison {op : ComparisonOperator} {l r : ComputedValue} {b : Bool}
    (h : comparison op l r = some b) : compareValues op l r = b := by
  cases l with
  | number =>
    cases r <;> grind [comparison, compareValues]
  | boolean =>
    cases r <;> cases op <;> grind [comparison, compareValues]
  | instant x =>
    cases r with
    | instant y =>
      simp only [comparison, bind, Option.bind_eq_some_iff] at h
      obtain ⟨m, hm, n, hn, h⟩ := h
      simpa [compareValues, hm, hn] using h
    | _ => cases h

namespace PredicateNode

/-- The strong Kleene value of a tree, from those of its comparisons. -/
def kleene (value : ComparisonOperator → ExpressionNode → ExpressionNode → Tri) :
    PredicateNode → Tri
  | compare op left right => value op left right
  | not operand => (operand.kleene value).not
  | and left right => (left.kleene value).and (right.kleene value)
  | or left right => (left.kleene value).or (right.kleene value)
  | unsupported => none

/-- The value of a comparison for a subject, indeterminate also for unresolved operands. -/
def compared (subject : Option GrantSubject) (op : ComparisonOperator)
    (left right : ExpressionNode) : Tri := do
  comparison op (← evaluateExpression left subject) (← evaluateExpression right subject)

/-- Comparisons of resolved operands that cannot be compared, which count as false, decide a tree
    that is indeterminate. -/
def Decides (subject : Option GrantSubject) : PredicateNode → Bool → Prop
  | compare op left right, b => b = false ∧ ∃ l ∈ evaluateExpression left subject,
      ∃ r ∈ evaluateExpression right subject, comparison op l r = none
  | not operand, b => operand.Decides subject !b
  | and left right, true =>
    (left.Decides subject true ∧ (right.Decides subject true ∨
        right.kleene (compared subject) = some true)) ∨
      (left.kleene (compared subject) = some true ∧ right.Decides subject true)
  | and left right, false =>
    (left.Decides subject false ∧ right.kleene (compared subject) ≠ some false) ∨
      (left.kleene (compared subject) ≠ some false ∧ right.Decides subject false)
  | or left right, true =>
    (left.Decides subject true ∧ right.kleene (compared subject) ≠ some true) ∨
      (left.kleene (compared subject) ≠ some true ∧ right.Decides subject true)
  | or left right, false =>
    (left.Decides subject false ∧ (right.Decides subject false ∨
        right.kleene (compared subject) = some false)) ∨
      (left.kleene (compared subject) = some false ∧ right.Decides subject false)
  | unsupported, _ => False

/-- What is determined stays so whatever the indeterminate comparisons turn out to be. -/
theorem kleene_grows {value value' : ComparisonOperator → ExpressionNode → ExpressionNode → Tri}
    (h : ∀ op l r, (value op l r).Grows (value' op l r)) (node : PredicateNode) :
    (node.kleene value).Grows (node.kleene value') := by
  induction node with
  | compare op l r => exact h op l r
  | not p ih => exact ih.not
  | and p q ihp ihq => exact ihp.and ihq
  | or p q ihp ihq => exact ihp.or ihq
  | unsupported => intro v hv; cases hv

/-- The evaluator decides whatever is determinate, and decides it so. -/
theorem kleene_grows_evaluatePredicate (subject : Option GrantSubject) (node : PredicateNode) :
    (node.kleene (compared subject)).Grows (evaluatePredicate node subject) := by
  induction node with
  | compare op left right =>
    intro b hb
    simp only [kleene, compared, bind, Option.bind_eq_some_iff] at hb
    obtain ⟨l, hl, r, hr, hb⟩ := hb
    simp [evaluatePredicate, hl, hr, compareValues_eq_of_comparison hb]
  | not p ih => exact ih.not
  | and p q ihp ihq => exact ihp.and ihq
  | or p q ihp ihq => exact ihp.or ihq
  | unsupported => intro v hv; cases hv

theorem compareValues_of_comparison_eq_none {op : ComparisonOperator} {l r : ComputedValue}
    (h : comparison op l r = none) : compareValues op l r = false := by
  cases l with
  | number => cases r <;> grind [comparison, compareValues]
  | boolean => cases r <;> cases op <;> grind [comparison, compareValues]
  | instant x =>
    cases r with
    | instant y =>
      cases hx : parseInstantEpochMillis x <;> cases hy : parseInstantEpochMillis y <;>
        simp_all [comparison, compareValues]
    | _ => rfl

/-- The rules of `Decides` are exact. -/
theorem decides_iff {subject : Option GrantSubject} {node : PredicateNode} {b : Bool} :
    node.Decides subject b ↔
      node.kleene (compared subject) = none ∧ evaluatePredicate node subject = some b := by
  induction node generalizing b with
  | compare op left right =>
    rw [Decides, kleene, compared, evaluatePredicate]
    cases evaluateExpression left subject with
    | none => simp
    | some l =>
      cases evaluateExpression right subject with
      | none => simp
      | some r =>
        simp only [Option.mem_some_iff, exists_eq_left', bind, Option.bind_some,
          Option.some.injEq]
        constructor
        · rintro ⟨rfl, h⟩
          exact ⟨h, compareValues_of_comparison_eq_none h⟩
        · rintro ⟨h, rfl⟩
          exact ⟨compareValues_of_comparison_eq_none h, h⟩
  | not p ih =>
    rw [Decides, ih, kleene, evaluatePredicate]
    cases p.kleene (compared subject) <;> cases b <;> cases evaluatePredicate p subject <;>
      simp [Tri.not]
  | and p q ihp ihq =>
    have hp := kleene_grows_evaluatePredicate subject p
    have hq := kleene_grows_evaluatePredicate subject q
    cases b <;> simp only [Decides, ihp, ihq, kleene, evaluatePredicate]
    · exact Tri.and_decided_false hp hq
    · exact Tri.and_decided_true hp hq
  | or p q ihp ihq =>
    have hp := kleene_grows_evaluatePredicate subject p
    have hq := kleene_grows_evaluatePredicate subject q
    cases b <;> simp only [Decides, ihp, ihq, kleene, evaluatePredicate]
    · exact Tri.or_decided_false hp hq
    · exact Tri.or_decided_true hp hq
  | unsupported => simp [Decides, evaluatePredicate]

theorem evaluatePredicate_eq_kleene_iff {subject : Option GrantSubject} {node : PredicateNode} :
    evaluatePredicate node subject = node.kleene (compared subject) ↔
      ∀ b, ¬node.Decides subject b := by
  constructor
  · intro h b hb
    obtain ⟨hnone, hsome⟩ := decides_iff.1 hb
    cases hnone.symm.trans (h.symm.trans hsome)
  · intro h
    cases hk : node.kleene (compared subject) with
    | some b => exact kleene_grows_evaluatePredicate subject node b hk
    | none =>
      rw [Option.eq_none_iff_forall_ne_some]
      exact fun b hb => h b (decides_iff.2 ⟨hk, hb⟩)

end PredicateNode

open PredicateNode

/-- The evaluator gives the strong Kleene value, what it decides stays so however the indeterminate
    comparisons turn out, and conditions are accepted iff each is definitely true: if and only if
    no comparison of incomparable values decides one of the trees. -/
theorem conditions_kleene (nodes : List PredicateNode) (subject : Option GrantSubject) :
    ((∀ node ∈ nodes, evaluatePredicate node subject = node.kleene (compared subject) ∧
      ∀ value, (∀ op l r, (compared subject op l r).Grows (value op l r)) →
        (evaluatePredicate node subject).Grows (node.kleene value)) ∧
    (evaluateConditions nodes subject ↔
      ∀ node ∈ nodes, node.kleene (compared subject) = some true)) ↔
    ∀ node ∈ nodes, ∀ b, ¬node.Decides subject b := by
  refine ⟨fun h node hnode => evaluatePredicate_eq_kleene_iff.1 (h.1 node hnode).1, fun h => ?_⟩
  have heq : ∀ node ∈ nodes, evaluatePredicate node subject = node.kleene (compared subject) :=
    fun node hnode => evaluatePredicate_eq_kleene_iff.2 (h node hnode)
  refine ⟨fun node hnode => ⟨heq node hnode, fun value hgrows => ?_⟩, ?_⟩
  · exact heq node hnode ▸ kleene_grows hgrows node
  · simp only [evaluateConditions, List.all_eq_true, decide_eq_true_eq]
    exact forall₂_congr fun node hnode => by rw [heq node hnode]

theorem conditions_kleene_sample :
    let bar := noSelfGrantBar "exec:pty" (.pad [1])
    let late := PredicateNode.compare .lt (.instantLiteral "2030-01-01T00:00:00.000Z")
      (.instantLiteral "2031-01-01T00:00:00.000Z")
    (∀ node ∈ [late, bar], ∀ b, ¬node.Decides none b) ∧ evaluateConditions [late] none ∧
      ¬evaluateConditions [late, bar] none := by
  intro bar late
  have h : ∀ node ∈ [late, bar], ∀ b, ¬node.Decides none b := by
    simp only [List.forall_mem_cons, List.not_mem_nil, decides_iff]
    exact ⟨by decide, by decide, by simp⟩
  exact ⟨h, ((conditions_kleene [late] none).2 fun node hnode => h node (by simp_all)).2.2
    (by decide), fun hall => absurd (((conditions_kleene [late, bar] none).2 h).2.1 hall)
    (by decide)⟩

/-- A number is not comparable with a boolean, so neither is their comparison's negation
    determinate, but it is accepted. -/
theorem not_mismatch_holds :
    let node := PredicateNode.not
      (.compare .eq (.numberLiteral 1 []) (.booleanLiteral true))
    node.kleene (compared none) = none ∧ evaluatePredicate node none = some true ∧
      evaluateConditions [node] none = true := by decide

end Rust

end WireMesh
