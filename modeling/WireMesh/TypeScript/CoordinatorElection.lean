import WireMesh.Token
import WireMesh.TypeScript.Numbers

/-!
# Electing a coordinator

Devices claim the role of the coordinator at a term, and gossip their claims
(`coordinator-election.ts`). Each keeps the claim that it accepts, its incumbent: a higher term
supersedes a lower one, and among equal terms the lowest device-id does. A term that could not be
raised again is not accepted.
-/

namespace WireMesh.TypeScript

/-- The bytes of a coordinator are compared as they are, of whatever length. -/
def compareDeviceIds : Bytes → Bytes → ℤ
  | left :: a, right :: b =>
    if left ≠ right then (if left < right then -1 else 1) else compareDeviceIds a b
  | a, b => a.length - b.length

def isSupersedableTerm (term : JsNumber) : Bool :=
  match term with
  | .integer n => term.isSafeInteger && 0 ≤ n && n < maxSafeInteger
  | .other => false

structure CoordinatorFrame where
  term : JsNumber
  coordinator : Bytes
  capacityHint : Option JsNumber
deriving DecidableEq

/-- A claim that can be accepted. -/
structure CoordinatorClaim where
  term : ℤ
  coordinator : Bytes
  capacityHint : Option JsNumber
  supersedable : isSupersedableTerm (.integer term) = true
deriving DecidableEq

def CoordinatorClaim.frame (c : CoordinatorClaim) : CoordinatorFrame where
  term := .integer c.term
  coordinator := c.coordinator
  capacityHint := c.capacityHint

/-- The claim in a frame, if its term can be superseded. -/
def CoordinatorFrame.claim (frame : CoordinatorFrame) : Option CoordinatorClaim :=
  match frame.term with
  | .integer n =>
    if h : isSupersedableTerm (.integer n) = true then
      some ⟨n, frame.coordinator, frame.capacityHint, h⟩
    else none
  | .other => none

inductive EvaluationOutcome
  | accepted (incumbent : CoordinatorClaim)
  | retained (incumbent : CoordinatorClaim)
  | rejected
deriving DecidableEq

structure CoordinatorElection where
  ownDevice : Bytes
  incumbent : Option CoordinatorClaim
deriving DecidableEq

namespace CoordinatorElection

def new (ownDevice : Bytes) : CoordinatorElection where
  ownDevice := ownDevice
  incumbent := none

/-- The claim of the own device at the next term, unless the incumbent has the last one. -/
def claim (s : CoordinatorElection) (capacityHint : Option JsNumber) :
    CoordinatorElection × Except String CoordinatorFrame :=
  let lastTerm := s.incumbent.elim (-1) (·.term)
  let term := lastTerm + 1
  if h : isSupersedableTerm (.integer term) = true then
    let incumbent : CoordinatorClaim := ⟨term, s.ownDevice, capacityHint, h⟩
    ({ s with incumbent := some incumbent }, .ok incumbent.frame)
  else
    (s, .error ("the incumbent's term " ++ toString lastTerm ++
      " leaves no term a claim can be raised to"))

def evaluate (s : CoordinatorElection) (frame : CoordinatorFrame) :
    CoordinatorElection × EvaluationOutcome :=
  match frame.claim with
  | none => (s, .rejected)
  | some incoming =>
    match s.incumbent with
    | none => ({ s with incumbent := some incoming }, .accepted incoming)
    | some previous =>
      if previous.term < incoming.term ∨ incoming.term = previous.term ∧
          compareDeviceIds incoming.coordinator previous.coordinator < 0 then
        ({ s with incumbent := some incoming }, .accepted incoming)
      else (s, .retained previous)

/-! ## Runs -/

inductive Event
  | claim (capacityHint : Option JsNumber)
  | evaluate (frame : CoordinatorFrame)
deriving DecidableEq

def next (s : CoordinatorElection) : Event → CoordinatorElection
  | .claim capacityHint => (s.claim capacityHint).1
  | .evaluate frame => (s.evaluate frame).1

/-- The claim that is received, or made. -/
def claimed (s : CoordinatorElection) : Event → Option CoordinatorClaim
  | .claim capacityHint => (s.claim capacityHint).2.toOption.bind CoordinatorFrame.claim
  | .evaluate frame => frame.claim

/-- All claims that have been received or made. -/
def seen (s : CoordinatorElection) : List Event → List CoordinatorClaim
  | [] => []
  | e :: events => (s.claimed e).toList ++ seen (s.next e) events

end CoordinatorElection

end WireMesh.TypeScript
