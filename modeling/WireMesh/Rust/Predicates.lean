import WireMesh.Kleene
import WireMesh.Token

/-!
# Scopes and predicates (Rust)

The grammar of verbs and scopes of `wire-mesh-wire`, whether a scope is within
another, and the conditions of `predicates.rs`, a subset of trilean's
predicates evaluated under strong Kleene logic.

* `isWithin_trans`: being within a scope adds up, on segment boundaries.
* `evaluateConditions_noSelfGrantBar`: a no-self-grant bar refuses the very
  grants it names.
-/

namespace WireMesh.Rust

/-! ## Verbs and scopes -/

def isAsciiLowercase (c : Char) : Bool := 'a' ≤ c && c ≤ 'z'

def isAsciiDigit (c : Char) : Bool := '0' ≤ c && c ≤ '9'

def isAsciiAlphanumeric (c : Char) : Bool :=
  isAsciiLowercase c || ('A' ≤ c && c ≤ 'Z') || isAsciiDigit c

/-- The text before the first separator, and the text after it. -/
def splitOnce (sep : Char) (s : List Char) : Option (List Char × List Char) :=
  match s.span (· ≠ sep) with
  | (_, []) => none
  | (before, _ :: after) => some (before, after)

inductive VerbError
  | badShape
  | malformed (verb : String)
deriving DecidableEq

namespace CapabilityVerb

def actionOk (a : List Char) : Bool :=
  !a.isEmpty && a.all fun c => isAsciiLowercase c || isAsciiDigit c || c = '-'

def looseOk (a : List Char) : Bool :=
  !a.isEmpty && a.all fun c => isAsciiAlphanumeric c || c = '_' || c = '.' || c = '-'

def headCoreOk : List Char → Bool
  | [] => false
  | c :: rest => isAsciiLowercase c &&
      rest.all fun c => isAsciiLowercase c || isAsciiDigit c || c = '-'

def registrantOk (registrant : List Char) : Bool :=
  !registrant.isEmpty && registrant.all fun c =>
    isAsciiLowercase c || isAsciiDigit c || c = '.' || c = '-'

/-- The verb is in the core, the namespaced or the private-use tier. -/
def validate (verb : String) : Except VerbError Unit :=
  match splitOnce ':' verb.toList with
  | none => .error .badShape
  | some (head, action) =>
    let core := headCoreOk head && actionOk action
    let namespaced := match splitOnce '/' head with
      | some (registrant, localName) =>
        registrantOk registrant && looseOk localName && looseOk action
      | none => false
    let privateUse := match head with
      | 'x' :: '-' :: rest => looseOk rest && looseOk action
      | _ => false
    if core || namespaced || privateUse then .ok () else .error (.malformed verb)

end CapabilityVerb

inductive ScopeError
  | emptyKind | emptyPath
deriving DecidableEq

namespace CapabilityScope

def validate (scope : CapabilityScope) : Except ScopeError Unit :=
  if scope.kind = "" then .error .emptyKind
  else if scope.path = some "" then .error .emptyPath
  else .ok ()

/-- The path has a `.` or `..` segment. -/
def hasRelativeSegment (path : String) : Bool :=
  (path.toList.splitOn '/').any fun segment => segment = ['.'] ∨ segment = ['.', '.']

/-- The scope is of the same kind as the parent, and its path within the parent's subtree. -/
def isWithin (scope parent : CapabilityScope) : Bool :=
  if scope.kind ≠ parent.kind then false
  else match parent.path, scope.path with
    | none, _ => true
    | some _, none => false
    | some parentPath, some path =>
      if hasRelativeSegment path || hasRelativeSegment parentPath then false
      else path = parentPath || (parentPath.toList ++ ['/']).isPrefixOf path.toList

theorem isWithin_iff {scope parent : CapabilityScope} :
    isWithin scope parent ↔ parent.kind = scope.kind ∧
      ∀ p ∈ parent.path, ∃ c ∈ scope.path, hasRelativeSegment c = false ∧
        hasRelativeSegment p = false ∧ Below '/' (fun _ => False) p.toList c.toList := by
  rw [isWithin, eq_comm (a := parent.kind)]
  cases parent.path with
  | none => simp
  | some p =>
    cases scope.path with
    | none => simp
    | some c =>
      have hbelow : Below '/' (fun _ => False) p.toList c.toList ↔
          c = p ∨ p.toList ++ ['/'] <+: c.toList := by
        rw [Below, String.toList_inj, eq_comm (a := p), append_singleton_isPrefix_iff, false_or]
      simp only [Option.mem_def, Option.some.injEq, forall_eq', exists_eq_left', hbelow]
      cases hasRelativeSegment c <;> cases hasRelativeSegment p <;> simp

theorem isWithin_trans {a b c : CapabilityScope} (hba : isWithin b a) (hcb : isWithin c b) :
    isWithin c a := by grind [isWithin_iff, Below.trans]

end CapabilityScope

/-! ## Instants -/

/-- The value of a decimal numeral, of one digit at least. -/
def parseDigits : Bytes → Option ℕ
  | [] => none
  | digits => digits.foldlM (fun n b =>
      if 0x30 ≤ b ∧ b ≤ 0x39 then some (10 * n + (b.toNat - 0x30)) else none) 0

/-- The value of a numeral with an optional sign. -/
def parseInt : Bytes → Option ℤ
  | 0x2d :: digits => (parseDigits digits).map fun n => -n
  | 0x2b :: digits => (parseDigits digits).map fun n => n
  | digits => (parseDigits digits).map fun n => n

/-- The value of a numeral that may start with a plus sign. -/
def parseUInt : Bytes → Option ℕ
  | 0x2b :: digits => parseDigits digits
  | digits => parseDigits digits

/-- Days since the Unix epoch of a proleptic Gregorian date. -/
def daysFromCivil (y : ℤ) (m d : ℕ) : ℤ :=
  let y := if m ≤ 2 then y - 1 else y
  let era := (if 0 ≤ y then y else y - 399).tdiv 400
  let yoe := y - era * 400
  let mp : ℤ := (m + 9) % 12
  let doy := (153 * mp + 2).tdiv 5 + d - 1
  let doe := yoe * 365 + yoe.tdiv 4 - yoe.tdiv 100 + doy
  era * 146097 + doe - 719468

/-- The milliseconds since the epoch of an instant in the form `YYYY-MM-DDTHH:MM:SS.sssZ`. -/
def parseInstantEpochMillis (s : String) : Option ℤ := do
  let bytes := Cbor.utf8 s
  let field := fun start stop => (bytes.take stop).drop start
  guard (bytes.length = 24 ∧ bytes[10]? = some 0x54 ∧ bytes[19]? = some 0x2e ∧
    bytes[23]? = some 0x5a)
  guard (bytes[4]? = some 0x2d ∧ bytes[7]? = some 0x2d ∧ bytes[13]? = some 0x3a ∧
    bytes[16]? = some 0x3a)
  let year ← parseInt (field 0 4)
  let month ← parseUInt (field 5 7)
  let day ← parseUInt (field 8 10)
  let hour ← parseInt (field 11 13)
  let minute ← parseInt (field 14 16)
  let second ← parseInt (field 17 19)
  let millis ← parseInt (field 20 23)
  guard (1 ≤ month ∧ month ≤ 12 ∧ 1 ≤ day ∧ day ≤ 31 ∧ hour < 24 ∧ minute < 60 ∧ second < 60)
  return daysFromCivil year month day * 86400000 + hour * 3600000 + minute * 60000 +
    second * 1000 + millis

example : parseInstantEpochMillis "2030-01-01T00:00:00.000Z" = some 1893456000000 := by decide

/-! ## Conditions -/

inductive ComparisonOperator
  | gt | gte | lt | lte | eq | neq
deriving DecidableEq

/-- A dimensional unit: the exponent of each base, by its name. -/
abbrev Dimension := List (String × ℤ)

/-- An expression. A number is the value of a double, an integer as only integers are
    decoded to one; a delegate's payload is its text, if it is one. -/
inductive ExpressionNode
  | numberLiteral (value : ℤ) (unit : Dimension)
  | booleanLiteral (value : Bool)
  | instantLiteral (value : String)
  | delegate (system : String) (payload : Option String)
  | unsupported
deriving DecidableEq

inductive PredicateNode
  | compare (op : ComparisonOperator) (left right : ExpressionNode)
  | not (operand : PredicateNode)
  | and (left right : PredicateNode)
  | or (left right : PredicateNode)
  | unsupported
deriving DecidableEq

/-- The claims of a minted token that the conditions of its grant-capability read. -/
structure GrantSubject where
  capability : String
  bearer : DeviceId

inductive ComputedValue
  | number (value : ℤ) (unit : Dimension)
  | boolean (value : Bool)
  | instant (value : String)

def granteeIs : String := "grantee-is"

def grantedCapabilityIs : String := "granted-capability-is"

def evaluateExpression (node : ExpressionNode) (subject : Option GrantSubject) :
    Option ComputedValue :=
  match node with
  | .numberLiteral value unit => some (.number value unit)
  | .booleanLiteral value => some (.boolean value)
  | .instantLiteral value => some (.instant value)
  | .delegate system payload => do
    let subject ← subject
    let expected ← payload
    if system = granteeIs then
      return .boolean (deviceIdToHex subject.bearer = expected)
    else if system = grantedCapabilityIs then
      return .boolean (subject.capability = expected)
    else none
  | .unsupported => none

def applyNumberOp (op : ComparisonOperator) (left right : ℤ) : Bool :=
  match op with
  | .gt => left > right
  | .gte => left ≥ right
  | .lt => left < right
  | .lte => left ≤ right
  | .eq => left = right
  | .neq => left ≠ right

/-- Values of different kinds or units, and instants that do not parse, compare as false. -/
def compareValues (op : ComparisonOperator) : ComputedValue → ComputedValue → Bool
  | .number l lu, .number r ru => if lu ≠ ru then false else applyNumberOp op l r
  | .boolean l, .boolean r => match op with
    | .eq => l = r
    | .neq => l ≠ r
    | _ => false
  | .instant l, .instant r =>
    match parseInstantEpochMillis l, parseInstantEpochMillis r with
    | some le, some re => applyNumberOp op le re
    | _, _ => false
  | _, _ => false

def evaluatePredicate (node : PredicateNode) (subject : Option GrantSubject) : Tri :=
  match node with
  | .compare op left right =>
    match evaluateExpression left subject, evaluateExpression right subject with
    | some l, some r => some (compareValues op l r)
    | _, _ => none
  | .not operand => (evaluatePredicate operand subject).not
  | .and left right => (evaluatePredicate left subject).and (evaluatePredicate right subject)
  | .or left right => (evaluatePredicate left subject).or (evaluatePredicate right subject)
  | .unsupported => none

/-- Every condition definitely holds. -/
def evaluateConditions (nodes : List PredicateNode) (subject : Option GrantSubject) : Bool :=
  nodes.all fun node => evaluatePredicate node subject = some true

/-- The no-self-grant bar, as it is decoded. -/
def noSelfGrantBar (capability : String) (bearer : DeviceId) : PredicateNode :=
  .not (.and
    (.compare .eq (.delegate grantedCapabilityIs (some capability)) (.booleanLiteral true))
    (.compare .eq (.delegate granteeIs (some (deviceIdToHex bearer))) (.booleanLiteral true)))

/-- Conditions that hold with a bar among them are about a subject, which the bar spares. -/
theorem evaluateConditions_noSelfGrantBar {nodes : List PredicateNode}
    {subject : Option GrantSubject} (h : evaluateConditions nodes subject = true) {c : String}
    {d : DeviceId} (hbar : noSelfGrantBar c d ∈ nodes) :
    ∃ s, subject = some s ∧ ¬(s.capability = c ∧ s.bearer = d) := by
  have hnode : evaluatePredicate (noSelfGrantBar c d) subject = some true := by
    simpa using List.all_eq_true.1 h _ hbar
  cases subject with
  | none => simp [noSelfGrantBar, evaluatePredicate, evaluateExpression, Tri.and, Tri.not] at hnode
  | some s =>
    refine ⟨s, rfl, ?_⟩
    rintro ⟨hc, hd⟩
    simp [noSelfGrantBar, evaluatePredicate, evaluateExpression, compareValues, granteeIs,
      grantedCapabilityIs, hc, hd, Tri.and, Tri.not] at hnode

end WireMesh.Rust
