import WireMesh.OrderedMap

/-!
# WebRTC negotiations

A negotiator offers peer connections to the peers of a session and answers their offers
(`webrtc-negotiation.ts`). Whichever side it plays in a negotiation, it keeps the peer connection
and the peer under the number of the negotiation, and signals are addressed by number.

A peer is a device behind the relay, or the one at the other end of a session without a relay, for
which the source has `undefined`. Peer connections are numbered in the order in which they are made,
and record what has been applied to them.
-/

namespace WireMesh.TypeScript

inductive Signal
  | offer
  | answer
  | iceCandidate
deriving DecidableEq

structure PeerConnection (P : Type) where
  negotiationId : ℕ
  /-- The peer that the negotiation is with. -/
  peer : P
  /-- Whether this side has begun the negotiation. -/
  initiated : Bool
  closed : Bool := false
  /-- The remote descriptions and candidates that have been applied, and who sent them. -/
  remote : List (P × Signal) := []
deriving DecidableEq

structure WebrtcNegotiator (P : Type) where
  nextNegotiationId : ℕ
  peerConnections : OrderedMap ℕ ℕ
  negotiationTargets : OrderedMap ℕ P
  /-- All peer connections that have been made. -/
  made : List (PeerConnection P)

namespace WebrtcNegotiator

variable {P : Type}

def create : WebrtcNegotiator P where
  nextNegotiationId := 0
  peerConnections := .empty
  negotiationTargets := .empty
  made := []

/-- A peer connection is kept under the number of its negotiation. -/
def keep (s : WebrtcNegotiator P) (pc : PeerConnection P) : WebrtcNegotiator P :=
  { s with
    negotiationTargets := s.negotiationTargets.set pc.negotiationId pc.peer
    peerConnections := s.peerConnections.set pc.negotiationId s.made.length
    made := s.made ++ [pc] }

/-- Up to the first await. -/
def initiate (s : WebrtcNegotiator P) (target : P) : WebrtcNegotiator P :=
  { s with nextNegotiationId := s.nextNegotiationId + 1 }.keep
    { negotiationId := s.nextNegotiationId, peer := target, initiated := true }

/-- The offer of a negotiation has been refused. -/
def offerRejected (s : WebrtcNegotiator P) (index : ℕ) : WebrtcNegotiator P :=
  match s.made[index]? with
  | some pc =>
    if pc.initiated = true then { s with
      peerConnections := s.peerConnections.delete pc.negotiationId
      negotiationTargets := s.negotiationTargets.delete pc.negotiationId
      made := s.made.modify index fun pc => { pc with closed := true } }
    else s
  | none => s

/-- An offer that has been authorised is applied to a new peer connection. -/
def handleIncomingOffer (s : WebrtcNegotiator P) (sender : P) (negotiationId : ℕ) :
    WebrtcNegotiator P :=
  s.keep { negotiationId, peer := sender, initiated := false, remote := [(sender, .offer)] }

/-- A signal is applied to the peer connection under its number, if there is one. -/
def applyRemote (s : WebrtcNegotiator P) (signal : Signal) (sender : P) (negotiationId : ℕ) :
    WebrtcNegotiator P :=
  match s.peerConnections.get negotiationId with
  | none => s
  | some index => { s with
      made := s.made.modify index fun pc => { pc with remote := pc.remote ++ [(sender, signal)] } }

def handleIncomingAnswer (s : WebrtcNegotiator P) : P → ℕ → WebrtcNegotiator P :=
  s.applyRemote .answer

def handleIncomingIceCandidate (s : WebrtcNegotiator P) : P → ℕ → WebrtcNegotiator P :=
  s.applyRemote .iceCandidate

/-- Where `sendIceCandidate` sends a candidate. -/
def candidateTarget (s : WebrtcNegotiator P) (negotiationId : ℕ) : Option P :=
  s.negotiationTargets.get negotiationId

end WebrtcNegotiator

/-! ## Sessions of several peers -/

structure SignalMessage (P : Type) where
  source : P
  /-- The peer connection that it comes from. -/
  origin : ℕ
  target : Option P
  negotiationId : ℕ
  signal : Signal
deriving DecidableEq

/-- Negotiators, and the signals that they have sent. -/
structure Signaling (P : Type) where
  negotiator : P → WebrtcNegotiator P
  sent : List (SignalMessage P)

inductive SignalingEvent (P : Type)
  | initiate (peer target : P)
  | sendOffer (peer : P) (index : ℕ)
  | offerRejected (peer : P) (index : ℕ)
  | sendAnswer (peer : P) (index : ℕ)
  /-- A message arrives. If it is an offer, it is authorised. -/
  | deliver (message : ℕ)
  /-- A peer connection finds a candidate of its own. -/
  | iceCandidate (peer : P) (index : ℕ)

namespace Signaling

variable {P : Type}

def init : Signaling P where
  negotiator _ := .create
  sent := []

def send (s : Signaling P) (message : SignalMessage P) : Signaling P :=
  { s with sent := s.sent ++ [message] }

variable [DecidableEq P]

def update (s : Signaling P) (peer : P) (negotiator : WebrtcNegotiator P) : Signaling P :=
  { s with negotiator := fun p => if p = peer then negotiator else s.negotiator p }

/-- The handling of a message at its target. -/
def receive (s : Signaling P) (message : SignalMessage P) : Signaling P :=
  match message.target with
  | none => s
  | some peer => s.update peer <|
    match message.signal with
    | .offer => (s.negotiator peer).handleIncomingOffer message.source message.negotiationId
    | .answer => (s.negotiator peer).handleIncomingAnswer message.source message.negotiationId
    | .iceCandidate =>
      (s.negotiator peer).handleIncomingIceCandidate message.source message.negotiationId

def sendOffer (s : Signaling P) (peer : P) (index : ℕ) : Signaling P :=
  match (s.negotiator peer).made[index]? with
  | some pc =>
    if pc.initiated = true then s.send ⟨peer, index, some pc.peer, pc.negotiationId, .offer⟩ else s
  | none => s

def sendAnswer (s : Signaling P) (peer : P) (index : ℕ) : Signaling P :=
  match (s.negotiator peer).made[index]? with
  | some pc =>
    if pc.initiated = true then s else s.send ⟨peer, index, some pc.peer, pc.negotiationId, .answer⟩
  | none => s

def sendIceCandidate (s : Signaling P) (peer : P) (index : ℕ) : Signaling P :=
  match (s.negotiator peer).made[index]? with
  | some pc =>
    if pc.closed = true then s
    else s.send ⟨peer, index, (s.negotiator peer).candidateTarget pc.negotiationId,
      pc.negotiationId, .iceCandidate⟩
  | none => s

def deliver (s : Signaling P) (message : ℕ) : Signaling P :=
  match s.sent[message]? with
  | some message => s.receive message
  | none => s

def next (s : Signaling P) : SignalingEvent P → Signaling P
  | .initiate peer target => s.update peer ((s.negotiator peer).initiate target)
  | .sendOffer peer index => s.sendOffer peer index
  | .offerRejected peer index => s.update peer ((s.negotiator peer).offerRejected index)
  | .sendAnswer peer index => s.sendAnswer peer index
  | .deliver message => s.deliver message
  | .iceCandidate peer index => s.sendIceCandidate peer index

end Signaling

end WireMesh.TypeScript
