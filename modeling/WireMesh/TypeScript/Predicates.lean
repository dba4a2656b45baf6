import WireMesh.Async.Basic
import WireMesh.Chain
import WireMesh.Kleene

/-!
# Scopes and predicates (TypeScript)

`token-scope.ts` and `token-predicates.ts`: whether a scope narrows another,
and the predicates a verifier evaluates on a token: the five narrowing checks a
delegation has to pass, and the conditions an issuer puts on a token.

Predicates are evaluated by the trilean library (`Trilean`). What is relied on
is that it compares a delegate's answer with a boolean literal and combines
truth values as strong Kleene logic does (`Trilean.Kleene`).

* `scopeNarrows_trans`: narrowing adds up, on segment boundaries.
* `evaluateNarrowing_eq_none_iff`: the narrowing checks hold iff the candidate
  is within the parent in bearer, expiry, scope, verb and depth.
* `evaluateConditions_noSelfGrantBar`: a no-self-grant bar refuses the very
  grants it names.
-/

namespace WireMesh.TypeScript

open Cbor

/-! ## Scopes -/

/-- The path has a `.` or `..` segment. -/
def hasRelativeSegment (path : String) : Bool :=
  (path.toList.splitOn '/').any fun segment => segment = ['.'] ∨ segment = ['.', '.']

/-- The child is the parent or a descendant of it, on `/`-segment boundaries. -/
def pathNarrows (childPath parentPath : String) : Bool :=
  let child := childPath.toList
  let parent := parentPath.toList
  if hasRelativeSegment childPath || hasRelativeSegment parentPath then false
  else if childPath = parentPath then true
  else if !parent.isPrefixOf child then false
  else if parent.getLast? = some '/' then true
  else child[parent.length]? = some '/'

/-- The child's scope is of the same kind and within the parent's path. -/
def scopeNarrows (parent child : CapabilityScope) : Bool :=
  if parent.kind ≠ child.kind then false
  else match parent.path, child.path with
    | none, _ => true
    | some _, none => false
    | some parentPath, some childPath => pathNarrows childPath parentPath

theorem pathNarrows_iff {child parent : String} :
    pathNarrows child parent ↔ hasRelativeSegment child = false ∧
      hasRelativeSegment parent = false ∧
        Below '/' (·.getLast? = some '/') parent.toList child.toList := by
  grind [pathNarrows, Below, String.toList_inj]

theorem pathNarrows_trans {c m p : String} (hmp : pathNarrows m p) (hcm : pathNarrows c m) :
    pathNarrows c p := by grind [pathNarrows_iff, Below.trans]

theorem scopeNarrows_iff {parent child : CapabilityScope} :
    scopeNarrows parent child ↔ parent.kind = child.kind ∧
      ∀ p ∈ parent.path, ∃ c ∈ child.path, pathNarrows c p := by
  rw [scopeNarrows]
  cases parent.path <;> cases child.path <;> simp

theorem scopeNarrows_trans {a b c : CapabilityScope} (hab : scopeNarrows a b)
    (hbc : scopeNarrows b c) : scopeNarrows a c := by grind [scopeNarrows_iff, pathNarrows_trans]

/-! ## Trilean -/

/-- A JSON value; those no predicate system here reads are kept as their encoding. -/
inductive JsonValue
  | null
  | string (s : String)
  | other (cbor : Bytes)
deriving DecidableEq

/-- A value an expression computes. -/
inductive ComputedValue
  | boolean (value : Bool)
  | other (cbor : Bytes)
deriving DecidableEq

/-- The answer of a delegate system. -/
inductive Resolution
  | notFound
  | found (value : ComputedValue)
deriving DecidableEq

inductive ComparisonOperator
  | gt | gte | lt | lte | eq | neq
deriving DecidableEq

/-- An expression; the kinds nothing here constructs are kept as their encoding. -/
inductive ExpressionNode
  | delegate (system : String) (payload : JsonValue)
  | booleanLiteral (value : Bool)
  | other (cbor : Bytes)
deriving DecidableEq

/-- A predicate; the kinds nothing here constructs are kept as their encoding. -/
inductive PredicateNode
  | compare (op : ComparisonOperator) (left right : ExpressionNode)
  | not (operand : PredicateNode)
  | and (left right : PredicateNode)
  | other (cbor : Bytes)
deriving DecidableEq

def JsonValue.encode : JsonValue → Bytes
  | .null => Cbor.null
  | .string s => text s
  | .other cbor => cbor

def ComparisonOperator.encode : ComparisonOperator → Bytes
  | .gt => text "gt"
  | .gte => text "gte"
  | .lt => text "lt"
  | .lte => text "lte"
  | .eq => text "eq"
  | .neq => text "neq"

def ExpressionNode.encode : ExpressionNode → Bytes
  | .delegate system payload => object [("kind", some (text "delegate")),
      ("system", some (text system)), ("payload", some payload.encode)]
  | .booleanLiteral value => object [("kind", some (text "booleanLiteral")),
      ("value", some (bool value))]
  | .other cbor => cbor

def PredicateNode.encode : PredicateNode → Bytes
  | .compare op left right => object [("kind", some (text "compare")), ("op", some op.encode),
      ("left", some left.encode), ("right", some right.encode)]
  | .not operand => object [("kind", some (text "not")), ("operand", some operand.encode)]
  | .and left right => object [("kind", some (text "and")), ("left", some left.encode),
      ("right", some right.encode)]
  | .other cbor => cbor

/-- The encoding of a list of conditions. -/
def encodeConditions (nodes : List PredicateNode) : Bytes := array (nodes.map PredicateNode.encode)

/-- How the delegate systems answer: the name of a system, and the payload for it. -/
abbrev ResolveDelegate := String → JsonValue → Resolution

/-- The predicate evaluator. It may reject a predicate altogether. -/
structure Trilean where
  evaluatePredicate : PredicateNode → ResolveDelegate → Except String Tri

/-- The evaluator implements strong Kleene logic: an unresolved delegate is
    indeterminate, and a resolved one is compared with the literal. -/
@[grind cases]
structure Trilean.Kleene (trilean : Trilean) : Prop where
  unresolved : ∀ system payload value resolve, resolve system payload = .notFound →
    trilean.evaluatePredicate
      (.compare .eq (.delegate system payload) (.booleanLiteral value)) resolve = .ok none
  resolved : ∀ system payload value resolve b,
    resolve system payload = .found (.boolean b) →
      trilean.evaluatePredicate
        (.compare .eq (.delegate system payload) (.booleanLiteral value)) resolve =
          .ok (some (b = value))
  not : ∀ p resolve a, trilean.evaluatePredicate p resolve = .ok a →
    trilean.evaluatePredicate (.not p) resolve = .ok a.not
  and : ∀ p q resolve a b, trilean.evaluatePredicate p resolve = .ok a →
    trilean.evaluatePredicate q resolve = .ok b →
      trilean.evaluatePredicate (.and p q) resolve = .ok (a.and b)

/-- An evaluator of the kinds constructed here, all others being indeterminate. -/
def Trilean.sample : Trilean where
  evaluatePredicate p resolve := .ok (eval resolve p)
where
  eval (resolve : ResolveDelegate) : PredicateNode → Tri
    | .compare .eq (.delegate system payload) (.booleanLiteral value) =>
      match resolve system payload with
      | .found (.boolean b) => some (b = value)
      | _ => none
    | .compare _ _ _ => none
    | .not p => (eval resolve p).not
    | .and p q => (eval resolve p).and (eval resolve q)
    | .other _ => none

theorem Trilean.sample_kleene : Trilean.sample.Kleene where
  unresolved system payload value resolve h := by
    simp only [Trilean.sample, Trilean.sample.eval, h]
  resolved system payload value resolve b h := by
    simp only [Trilean.sample, Trilean.sample.eval, h]
  not p resolve a h := by
    obtain rfl : Trilean.sample.eval resolve p = a := Except.ok.inj h
    rfl
  and p q resolve a b hp hq := by
    obtain rfl : Trilean.sample.eval resolve p = a := Except.ok.inj hp
    obtain rfl : Trilean.sample.eval resolve q = b := Except.ok.inj hq
    rfl

/-- The delegate system answers `true`. -/
def delegateIsTrue (system : String) (payload : JsonValue := .null) : PredicateNode :=
  .compare .eq (.delegate system payload) (.booleanLiteral true)

def booleanFound (value : Bool) : Resolution := .found (.boolean value)

/-- The first item, in order, on which the predicate holds. -/
def firstAsync {m : Type → Type} [Monad m] {T : Type} (items : List T)
    (predicate : T → m Bool) : m (Option T) :=
  items.findM? predicate

/-! ## Narrowing -/

/-- The systems of the five narrowing checks, in the order of the checks. -/
inductive NarrowingSystem
  | bearerIs | expiresAt | scopeNarrows | capabilityIs | depthRemaining
deriving DecidableEq

def NarrowingSystem.name : NarrowingSystem → String
  | .bearerIs => "bearer-is"
  | .expiresAt => "expires-at"
  | .scopeNarrows => "scope-narrows"
  | .capabilityIs => "capability-is"
  | .depthRemaining => "depth-remaining"

def narrowingSystems : List NarrowingSystem :=
  [.bearerIs, .expiresAt, .scopeNarrows, .capabilityIs, .depthRemaining]

/-- The narrowing system of the given name. -/
def isNarrowingSystem (system : String) : Option NarrowingSystem :=
  narrowingSystems.find? fun s => s.name = system

/-- What is compared with a parent: the token to be minted below it, or to be verified. -/
structure NarrowingCandidate where
  capability : String
  scope : CapabilityScope
  expires : ℕ
  delegationsRemaining : Option ℕ

def NarrowingCandidate.ofClaims (claims : TokenClaims) : NarrowingCandidate where
  capability := claims.capability
  scope := claims.scope
  expires := claims.expires
  delegationsRemaining := claims.delegationsRemaining

structure TokenPredicateContext where
  childIssuer : DeviceId
  candidate : NarrowingCandidate
  parentClaims : Option TokenClaims

/-- The check of a narrowing system. Without a parent to compare with, every check fails. -/
def narrowingHandlers (system : NarrowingSystem) (_payload : JsonValue)
    (context : TokenPredicateContext) : Resolution :=
  match context.parentClaims with
  | none => booleanFound false
  | some parent => match system with
    | .bearerIs => booleanFound (parent.bearer = context.childIssuer)
    | .expiresAt => booleanFound (context.candidate.expires ≤ parent.expires)
    | .scopeNarrows => booleanFound (TypeScript.scopeNarrows parent.scope context.candidate.scope)
    | .capabilityIs => booleanFound (parent.capability = context.candidate.capability)
    | .depthRemaining => match parent.delegationsRemaining with
      | none => booleanFound true
      | some parentRemaining => match context.candidate.delegationsRemaining with
        | none => booleanFound false
        | some remaining => booleanFound (remaining < parentRemaining)

/-- The first narrowing check that does not hold of the candidate below the parent. -/
def evaluateNarrowing (trilean : Trilean) (parentClaims : TokenClaims) (childIssuer : DeviceId)
    (candidate : NarrowingCandidate) : Except String (Option NarrowingSystem) :=
  let context := { childIssuer, candidate, parentClaims := some parentClaims }
  let resolveDelegate : ResolveDelegate := fun system payload =>
    match isNarrowingSystem system with
    | none => .notFound
    | some system => narrowingHandlers system payload context
  firstAsync narrowingSystems fun system => do
    let result ← trilean.evaluatePredicate (delegateIsTrue system.name) resolveDelegate
    return result ≠ some true

/-- The candidate, issued by `childIssuer`, is within the parent in all five respects. -/
@[grind cases]
structure Narrowed (parent : TokenClaims) (childIssuer : DeviceId)
    (candidate : NarrowingCandidate) : Prop where
  bearer : parent.bearer = childIssuer
  expires : candidate.expires ≤ parent.expires
  scope : scopeNarrows parent.scope candidate.scope
  capability : parent.capability = candidate.capability
  remaining : Consumes parent.delegationsRemaining candidate.delegationsRemaining

@[simp]
theorem isNarrowingSystem_name (system : NarrowingSystem) :
    isNarrowingSystem system.name = some system := by
  cases system <;> decide

/-- The outcome of the check of a narrowing system. -/
def NarrowingSystem.passes (parent : TokenClaims) (childIssuer : DeviceId)
    (candidate : NarrowingCandidate) : NarrowingSystem → Bool
  | .bearerIs => parent.bearer = childIssuer
  | .expiresAt => candidate.expires ≤ parent.expires
  | .scopeNarrows => TypeScript.scopeNarrows parent.scope candidate.scope
  | .capabilityIs => parent.capability = candidate.capability
  | .depthRemaining => Consumes parent.delegationsRemaining candidate.delegationsRemaining

theorem narrowingHandlers_eq (system : NarrowingSystem) (payload : JsonValue)
    (parent : TokenClaims) (childIssuer : DeviceId) (candidate : NarrowingCandidate) :
    narrowingHandlers system payload ⟨childIssuer, candidate, some parent⟩ =
      booleanFound (system.passes parent childIssuer candidate) := by
  cases system with
  | depthRemaining =>
    cases hp : parent.delegationsRemaining <;> cases hc : candidate.delegationsRemaining <;>
      simp [narrowingHandlers, NarrowingSystem.passes, hp, hc]
  | _ => rfl

variable {trilean : Trilean}

theorem evaluateNarrowing_eq (ht : trilean.Kleene) (parent : TokenClaims)
    (childIssuer : DeviceId) (candidate : NarrowingCandidate) :
    evaluateNarrowing trilean parent childIssuer candidate =
      .ok (narrowingSystems.find? fun system => !system.passes parent childIssuer candidate) := by
  change _ = pure _
  rw [evaluateNarrowing, firstAsync, ← List.findM?_pure]
  congr
  funext system
  rw [delegateIsTrue, ht.resolved _ _ _ _ (system.passes parent childIssuer candidate)]
  · cases system.passes parent childIssuer candidate <;> rfl
  · simp only [isNarrowingSystem_name, narrowingHandlers_eq, booleanFound]

/-- The five checks hold iff the candidate is within the parent. -/
theorem evaluateNarrowing_eq_none_iff (ht : trilean.Kleene) {parent : TokenClaims}
    {childIssuer : DeviceId} {candidate : NarrowingCandidate} :
    evaluateNarrowing trilean parent childIssuer candidate = .ok none ↔
      Narrowed parent childIssuer candidate := by
  rw [evaluateNarrowing_eq ht, Except.ok.injEq, List.find?_eq_none]
  constructor
  · intro h
    obtain ⟨hbearer, hexpires, hscope, hcapability, hremaining⟩ :
        _ ∧ _ ∧ _ ∧ _ ∧ _ := by simpa [narrowingSystems, NarrowingSystem.passes] using h
    exact ⟨hbearer, hexpires, hscope, hcapability, hremaining⟩
  · grind [narrowingSystems, NarrowingSystem.passes]

/-! ## Conditions -/

/-- What a grant-capability's conditions are about: the token minted under it. -/
structure GrantSubject where
  capability : String
  scope : CapabilityScope
  bearer : DeviceId
  expires : ℕ
  delegationsRemaining : Option ℕ

/-- The claims of a token as a subject: they name the bound on re-delegation in their own
    way, so that as a subject they carry none. -/
def GrantSubject.ofClaims (claims : TokenClaims) : GrantSubject where
  capability := claims.capability
  scope := claims.scope
  bearer := claims.bearer
  expires := claims.expires
  delegationsRemaining := none

/-- What a condition can be about: the time, the token that carries it and, when that
    token is a grant-capability being used, the token minted under it. -/
structure ConditionsContext where
  now : ℕ
  claims : TokenClaims
  subject : Option GrantSubject

/-- A system registered by an application; it may throw. -/
abbrev TokenDelegateHandler := JsonValue → ConditionsContext → Except String Resolution

/-- The systems about the subject of a grant. -/
inductive SubjectSystem
  | granteeIs | grantedCapabilityIs
deriving DecidableEq

def SubjectSystem.name : SubjectSystem → String
  | .granteeIs => "grantee-is"
  | .grantedCapabilityIs => "granted-capability-is"

/-- The subject system of the given name. -/
def isSubjectSystem (system : String) : Option SubjectSystem :=
  [.granteeIs, .grantedCapabilityIs].find? fun s => s.name = system

def subjectHandlers (system : SubjectSystem) (payload : JsonValue)
    (context : ConditionsContext) : Resolution :=
  match context.subject, payload with
  | some subject, .string expected => match system with
    | .granteeIs => booleanFound (deviceIdToHex subject.bearer = expected)
    | .grantedCapabilityIs => booleanFound (subject.capability = expected)
  | _, _ => .notFound

/-- How the systems a condition names answer. The subject systems come before those an
    application registers, whose failures answer nothing. -/
def resolveCondition (extraHandlers : String → Option TokenDelegateHandler)
    (context : ConditionsContext) : ResolveDelegate := fun system payload =>
  match context.subject, isSubjectSystem system with
  | some _, some system => subjectHandlers system payload context
  | _, _ => match extraHandlers system with
    | none => .notFound
    | some handler => match handler payload context with
      | .ok resolution => resolution
      | .error _ => .notFound

/-- Whether all the conditions definitely hold. -/
def evaluateConditions (trilean : Trilean) (nodes : List PredicateNode) (claims : TokenClaims)
    (now : ℕ) (extraHandlers : String → Option TokenDelegateHandler)
    (subject : Option GrantSubject) : Except String Bool := do
  let unsatisfied ← firstAsync nodes fun node => do
    let result ← trilean.evaluatePredicate node
      (resolveCondition extraHandlers { now, claims, subject })
    return result ≠ some true
  return unsatisfied = none

/-- The condition by which the bearer of a grant-capability may not mint a token for
    `capability` naming itself as bearer. -/
def noSelfGrantBar (capability : String) (bearer : DeviceId) : PredicateNode :=
  .not (.and
    (delegateIsTrue SubjectSystem.grantedCapabilityIs.name (.string capability))
    (delegateIsTrue SubjectSystem.granteeIs.name (.string (deviceIdToHex bearer))))

section Conditions

variable {nodes : List PredicateNode} {claims : TokenClaims} {now : ℕ}
  {extraHandlers : String → Option TokenDelegateHandler} {subject : Option GrantSubject}

/-- The conditions hold iff every one of them is definitely true. -/
theorem evaluateConditions_eq_true_iff :
    evaluateConditions trilean nodes claims now extraHandlers subject = .ok true ↔
      ∀ node ∈ nodes, trilean.evaluatePredicate node
        (resolveCondition extraHandlers { now, claims, subject }) = .ok (some true) := by
  have hsearch : ∀ x : Except String (Option PredicateNode),
      (x >>= fun unsatisfied => pure (decide (unsatisfied = none))) = .ok true ↔
        x = .ok none := by
    rintro (e | _ | _) <;> simp [bind, Except.bind, pure, Except.pure]
  have htest : ∀ x : Except String Tri,
      (x >>= fun result => pure (decide (result ≠ some true))) = .ok false ↔
        x = .ok (some true) := by
    rintro (e | _ | _ | _) <;> simp [bind, Except.bind, pure, Except.pure]
  grind [evaluateConditions, firstAsync, Async.except_findM?_eq_none]

/-- A bar that holds of a subject does so because the subject is not the barred grant. -/
theorem noSelfGrantBar_subject (ht : trilean.Kleene) {c : String} {d : DeviceId}
    {s : GrantSubject} :
    trilean.evaluatePredicate (noSelfGrantBar c d)
        (resolveCondition extraHandlers { now, claims, subject := some s }) = .ok (some true) ↔
      ¬(s.capability = c ∧ s.bearer = d) := by
  have hcapability := ht.resolved SubjectSystem.grantedCapabilityIs.name (.string c) true
    (resolveCondition extraHandlers { now, claims, subject := some s }) (s.capability = c) rfl
  have hgrantee := ht.resolved SubjectSystem.granteeIs.name (.string (deviceIdToHex d)) true
    (resolveCondition extraHandlers { now, claims, subject := some s })
    (deviceIdToHex s.bearer = deviceIdToHex d) rfl
  rw [noSelfGrantBar, delegateIsTrue, delegateIsTrue,
    ht.not _ _ _ (ht.and _ _ _ _ _ hcapability hgrantee), Except.ok.injEq, Tri.not_and_eq_true]
  simp [imp_iff_not_or]

/-- Without a subject, a bar is indeterminate unless an application answers for it. -/
theorem noSelfGrantBar_no_subject (ht : trilean.Kleene) {c : String} {d : DeviceId}
    (hextra : ∀ system : SubjectSystem, extraHandlers system.name = none) :
    trilean.evaluatePredicate (noSelfGrantBar c d)
      (resolveCondition extraHandlers { now, claims, subject := none }) = .ok none := by
  have hnone : ∀ (system : SubjectSystem) payload,
      resolveCondition extraHandlers { now, claims, subject := none } system.name payload =
        .notFound := by grind [resolveCondition]
  have hcapability := ht.unresolved _ (.string c) true _ (hnone .grantedCapabilityIs _)
  have hgrantee := ht.unresolved _ (.string (deviceIdToHex d)) true _ (hnone .granteeIs _)
  rw [noSelfGrantBar, delegateIsTrue, delegateIsTrue,
    ht.not _ _ _ (ht.and _ _ _ _ _ hcapability hgrantee)]
  rfl

/-- Conditions that hold with a bar among them are about a subject, which the bar spares. -/
theorem evaluateConditions_noSelfGrantBar (ht : trilean.Kleene)
    (hextra : ∀ system : SubjectSystem, extraHandlers system.name = none)
    (h : evaluateConditions trilean nodes claims now extraHandlers subject = .ok true)
    {c : String} {d : DeviceId} (hbar : noSelfGrantBar c d ∈ nodes) :
    ∃ s, subject = some s ∧ ¬(s.capability = c ∧ s.bearer = d) := by
  have hnode := evaluateConditions_eq_true_iff.1 h _ hbar
  cases subject with
  | none =>
    rw [noSelfGrantBar_no_subject ht hextra] at hnode
    cases hnode
  | some s => exact ⟨s, rfl, (noSelfGrantBar_subject ht).1 hnode⟩

end Conditions

end WireMesh.TypeScript
