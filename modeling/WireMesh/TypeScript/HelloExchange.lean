import WireMesh.TypeScript.RelayChannels

/-!
# Two sessions that exchange hellos

Two sessions, each of which has the other one as its peer, and the links between them. The
hellos of a link arrive in the order in which they were sent, whatever the sessions do
meanwhile; an arriving hello is given to `applyHello` at once.
-/

namespace WireMesh.TypeScript.RelayChannels

open SecureChannel

structure Exchange (PrivateKey Key Frame : Type) where
  ends : Side → State PrivateKey Key Frame
  /-- The hellos that each side has sent to the other one. -/
  sent : Side → List SecureHello
  /-- The number of hellos that have arrived at each side. -/
  received : Side → ℕ

namespace Exchange

/-- What happens at a side, or on the link to it. -/
inductive Event (PrivateKey : Type)
  | ensure (side : Side)
  | forget (side : Side)
  | reset (side : Side) (reason : String)
  | begun (side : Side) (handshake : ℕ) (privateKey : PrivateKey) (nonce : Bytes)
  | resume (side : Side) (call : ℕ)
  | deliver (side : Side)

def Event.isEnsure {PrivateKey : Type} : Event PrivateKey → Bool
  | ensure _ => true
  | _ => false

/-- The calls that make a session forget. -/
def Event.forgets {PrivateKey : Type} : Event PrivateKey → Bool
  | forget _ => true
  | reset _ _ => true
  | _ => false

def Event.isCall {PrivateKey : Type} (e : Event PrivateKey) : Bool := e.isEnsure || e.forgets

variable {PrivateKey Key Frame : Type}

def init : Exchange PrivateKey Key Frame where
  ends _ := .init
  sent _ := []
  received _ := 0

/-- The number of hellos that were sent. -/
def hellos (x : Exchange PrivateKey Key Frame) : ℕ := (x.sent .left).length + (x.sent .right).length

section Steps

variable (identities : Side → Identity) (crypto : KeyAgreement PrivateKey Key)
  (codec : FrameCodec Frame)

/-- An event at one of the sessions. -/
def act (x : Exchange PrivateKey Key Frame) (side : Side)
    (e : RelayChannels.Event PrivateKey Frame) : Exchange PrivateKey Key Frame :=
  let after := step (identities side) crypto codec (x.ends side) e
  { x with
    ends := Function.update x.ends side after.1
    sent := Function.update x.sent side (x.sent side ++ after.2) }

def next (x : Exchange PrivateKey Key Frame) : Event PrivateKey → Exchange PrivateKey Key Frame
  | .ensure side => x.act identities crypto codec side (.ensure (identities side.other).deviceId)
  | .forget side => x.act identities crypto codec side (.forget (identities side.other).deviceId)
  | .reset side reason => x.act identities crypto codec side (.reset reason)
  | .begun side handshake privateKey nonce =>
    x.act identities crypto codec side (.begun handshake privateKey nonce)
  | .resume side call => x.act identities crypto codec side (.resume call)
  | .deliver side => match (x.sent side.other)[x.received side]? with
    | none => x
    | some hello =>
      { x.act identities crypto codec side (.applyHello hello) with
        received := Function.update x.received side (x.received side + 1) }

end Steps

/-- The handshakes of a session have been begun, and its calls have returned. -/
def Settled (s : State PrivateKey Key Frame) : Prop :=
  (∀ h ∈ s.handshakes, h.pending.isGenerating = false) ∧ ∀ call ∈ s.calls, call.stage.isDone

/-- Nothing is on the way, and nothing is being done. -/
def Quiet (x : Exchange PrivateKey Key Frame) : Prop :=
  ∀ side : Side, x.received side = (x.sent side.other).length ∧ Settled (x.ends side)

instance (s : State PrivateKey Key Frame) : Decidable (Settled s) :=
  inferInstanceAs (Decidable (_ ∧ _))

instance (x : Exchange PrivateKey Key Frame) : Decidable (Quiet x) :=
  decidable_of_iff
    ((x.received .left = (x.sent .right).length ∧ Settled (x.ends .left)) ∧
      x.received .right = (x.sent .left).length ∧ Settled (x.ends .right))
    ⟨fun h side => side.casesOn h.1 h.2, fun h => ⟨h .left, h .right⟩⟩

/-! ## Sessions to evaluate -/

def sampleIdentities : Side → Identity
  | .left => sampleIdentity 1
  | .right => sampleIdentity 2

end Exchange

end WireMesh.TypeScript.RelayChannels
