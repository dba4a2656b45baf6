import Mathlib.Data.Fintype.Basic
import WireMesh.Machine
import WireMesh.TypeScript.WebrtcNegotiation

/-!
# Negotiations and their numbers

Negotiations do not cross as long as no two of them that have a peer in common have the same number
(`negotiations_do_not_cross`). Every negotiator counts its own from zero, so they do as soon as two
peers begin one each: the offer of a peer then replaces the negotiation that this side has begun,
the answer to that is applied to the peer connection with the other, and the candidates of this
side go to the other peer (`negotiations_cross`).
-/

namespace WireMesh.TypeScript

open Machine

variable {P : Type}

/-! ## One negotiator -/

/-- What a peer connection is made for. -/
def PeerConnection.purpose (pc : PeerConnection P) : ℕ × P × Bool :=
  (pc.negotiationId, pc.peer, pc.initiated)

namespace WebrtcNegotiator

variable {s : WebrtcNegotiator P} {pc : PeerConnection P} {index n : ℕ} {sender : P}
  {signal : Signal}

def purposes (s : WebrtcNegotiator P) : List (ℕ × P × Bool) := s.made.map PeerConnection.purpose

@[grind cases]
structure Valid (s : WebrtcNegotiator P) : Prop where
  /-- The negotiations that this side has begun have their own numbers. -/
  lt : ∀ pc ∈ s.made, pc.initiated = true → pc.negotiationId < s.nextNegotiationId
  once : ∀ (i j : ℕ) (pc pc' : PeerConnection P), s.made[i]? = some pc → s.made[j]? = some pc' →
    pc.initiated = true → pc'.initiated = true → pc.negotiationId = pc'.negotiationId → i = j
  registered : ∀ n i, s.peerConnections.get n = some i →
    ∃ pc, s.made[i]? = some pc ∧ pc.negotiationId = n
  /-- A peer connection that is not closed is kept, or replaced by one with the same peer. -/
  kept : ∀ (i : ℕ) (pc : PeerConnection P), s.made[i]? = some pc → pc.closed = false →
    s.negotiationTargets.get pc.negotiationId = some pc.peer ∧
      (pc.initiated = true → s.peerConnections.get pc.negotiationId = some i)
  remote : ∀ pc ∈ s.made, ∀ a ∈ pc.remote, a.1 = pc.peer

theorem valid_create : (create : WebrtcNegotiator P).Valid where
  lt _ h := by cases h
  once _ _ _ _ h := by cases h
  registered _ _ h := by cases h
  kept _ _ h := by cases h
  remote _ h := by cases h

theorem purposes_modify (made : List (PeerConnection P)) (index : ℕ)
    {f : PeerConnection P → PeerConnection P} (hf : ∀ pc, (f pc).purpose = pc.purpose) :
    (made.modify index f).map PeerConnection.purpose = made.map PeerConnection.purpose :=
  map_modify_of_forall PeerConnection.purpose f hf made index

theorem purposes_applyRemote (s : WebrtcNegotiator P) (signal : Signal) (sender : P) (n : ℕ) :
    (s.applyRemote signal sender n).purposes = s.purposes := by
  rw [applyRemote]
  split
  · rfl
  · exact purposes_modify _ _ fun _ => rfl

theorem purposes_offerRejected (s : WebrtcNegotiator P) (index : ℕ) :
    (s.offerRejected index).purposes = s.purposes := by
  rw [offerRejected]
  split
  · split
    · exact purposes_modify _ _ fun _ => rfl
    · rfl
  · rfl

theorem purposes_keep (s : WebrtcNegotiator P) (pc : PeerConnection P) :
    (s.keep pc).purposes = s.purposes ++ [pc.purpose] :=
  List.map_append

theorem purposes_initiate (s : WebrtcNegotiator P) (target : P) :
    (s.initiate target).purposes = s.purposes ++ [(s.nextNegotiationId, target, true)] :=
  purposes_keep _ _

theorem getElem?_purposes (h : s.made[index]? = some pc) :
    s.purposes[index]? = some (pc.negotiationId, pc.peer, pc.initiated) := by
  rw [purposes, List.getElem?_map, h]
  rfl

/-- The elements of a list one of which has been changed. -/
theorem getElem?_of_modify {f : PeerConnection P → PeerConnection P} {i : ℕ}
    {made : List (PeerConnection P)} (h : (made.modify index f)[i]? = some pc) :
    ∃ pc', made[i]? = some pc' ∧ (index = i ∧ pc = f pc' ∨ index ≠ i ∧ pc = pc') := by grind

/-- A peer connection is kept under a number that no other has in use, except one that it may
    replace. -/
theorem Valid.keep (h : s.Valid)
    (hlt : pc.initiated = true → pc.negotiationId < s.nextNegotiationId)
    (hother : ∀ pc' ∈ s.made, pc'.negotiationId = pc.negotiationId →
      pc'.peer = pc.peer ∧ pc'.initiated = false)
    (hremote : ∀ a ∈ pc.remote, a.1 = pc.peer) : (s.keep pc).Valid where
  lt pc' hpc' := by
    rcases List.mem_append.1 hpc' with hpc' | hpc'
    · exact h.lt pc' hpc'
    · cases List.mem_singleton.1 hpc'
      exact hlt
  once i j pc₁ pc₂ hi hj h₁ h₂ hn := by
    -- Another peer connection with the number of the new one is not one that this side has begun.
    have clash {pc' : PeerConnection P} {k : ℕ} (hk : s.made[k]? = some pc')
        (hinitiated : pc'.initiated = true) (hn : pc'.negotiationId = pc.negotiationId) :
        False := by grind
    rcases getElem?_concat hi with hi | ⟨rfl, rfl⟩ <;>
      rcases getElem?_concat hj with hj | ⟨rfl, rfl⟩
    · exact h.once i j pc₁ pc₂ hi hj h₁ h₂ hn
    · exact (clash hi h₁ hn).elim
    · exact (clash hj h₂ hn.symm).elim
    · rfl
  registered n i hi := by grind [WebrtcNegotiator.keep, OrderedMap.get_set]
  kept i pc' hpc' hclosed := by
    rw [WebrtcNegotiator.keep, OrderedMap.get_set, OrderedMap.get_set]
    rcases getElem?_concat hpc' with hi | ⟨rfl, rfl⟩
    · grind
    · exact ⟨if_pos rfl, fun _ => if_pos rfl⟩
  remote pc' hpc' := by
    rcases List.mem_append.1 hpc' with hpc' | hpc'
    · exact h.remote pc' hpc'
    · cases List.mem_singleton.1 hpc'
      exact hremote

theorem Valid.initiate (h : s.Valid) (target : P)
    (hfresh : ∀ pc ∈ s.made, pc.negotiationId ≠ s.nextNegotiationId) :
    (s.initiate target).Valid := by
  refine Valid.keep ?_ (fun _ => Nat.lt_succ_self _) (fun pc' hpc' hn => ?_) (by simp)
  · exact { h with lt := fun pc hpc hinitiated => Nat.lt_succ_of_lt (h.lt pc hpc hinitiated) }
  · exact absurd hn (hfresh pc' hpc')

theorem Valid.handleIncomingOffer (h : s.Valid)
    (hother : ∀ pc ∈ s.made, pc.negotiationId = n → pc.peer = sender ∧ pc.initiated = false) :
    (s.handleIncomingOffer sender n).Valid :=
  h.keep (by simp) hother (by simp)

/-- A peer connection changes, but not its purpose. -/
theorem Valid.modify (h : s.Valid) {f : PeerConnection P → PeerConnection P}
    (hpurpose : ∀ pc, (f pc).purpose = pc.purpose)
    (hclosed : ∀ pc, (f pc).closed = false → pc.closed = false)
    (hremote : ∀ pc, s.made[index]? = some pc → ∀ a ∈ (f pc).remote, a.1 = pc.peer) :
    Valid { s with made := s.made.modify index f } := by
  have old {i : ℕ} {pc : PeerConnection P} (hpc : (s.made.modify index f)[i]? = some pc) :
      ∃ pc', s.made[i]? = some pc' ∧ pc.negotiationId = pc'.negotiationId ∧ pc.peer = pc'.peer ∧
        pc.initiated = pc'.initiated ∧ (pc.closed = false → pc'.closed = false) ∧
        ∀ a ∈ pc.remote, a.1 = pc'.peer := by grind [PeerConnection.purpose]
  refine ⟨fun pc hpc hinitiated => ?_, fun i j pc₁ pc₂ hi hj h₁ h₂ hn => ?_, fun n i hi => ?_,
    fun i pc hpc hopen => ?_, fun pc hpc a ha => ?_⟩
  · grind [List.mem_iff_getElem?]
  · obtain ⟨pc₁', hpc₁', hn₁, -, hinit₁, -⟩ := old hi
    obtain ⟨pc₂', hpc₂', hn₂, -, hinit₂, -⟩ := old hj
    exact h.once i j pc₁' pc₂' hpc₁' hpc₂' (hinit₁ ▸ h₁) (hinit₂ ▸ h₂) (hn₁ ▸ hn₂ ▸ hn)
  · grind
  · grind
  · obtain ⟨i, hi⟩ := List.mem_iff_getElem?.1 hpc
    obtain ⟨pc', -, -, hpeer, -, -, hremote⟩ := old hi
    exact (hremote a ha).trans hpeer.symm

theorem Valid.applyRemote (h : s.Valid) (signal : Signal)
    (hsender : ∀ pc ∈ s.made, pc.negotiationId = n → pc.peer = sender) :
    (s.applyRemote signal sender n).Valid := by
  rw [WebrtcNegotiator.applyRemote]
  split
  next => exact h
  next index hindex =>
    refine h.modify (fun _ => rfl) (fun _ => id) fun pc hpc a ha => ?_
    grind

/-- A number is given up whose peer connections are closed. -/
theorem Valid.delete (h : s.Valid)
    (hclosed : ∀ pc ∈ s.made, pc.negotiationId = n → pc.closed = true) :
    Valid { s with
      peerConnections := s.peerConnections.delete n
      negotiationTargets := s.negotiationTargets.delete n } where
  lt := h.lt
  once := h.once
  registered n' i hi := h.registered n' i (OrderedMap.get_delete_eq_some.1 hi).1
  kept i pc hpc hopen := by grind [OrderedMap.get_delete_eq_some]
  remote := h.remote

theorem Valid.offerRejected (h : s.Valid)
    (hown : ∀ pc ∈ s.made, ∀ pc' ∈ s.made, pc.negotiationId = pc'.negotiationId →
      pc.initiated = pc'.initiated) : (s.offerRejected index).Valid := by
  rw [WebrtcNegotiator.offerRejected]
  split
  next pc hpc =>
    split_ifs with hinitiated
    · have hmodified : Valid { s with
          made := s.made.modify index fun pc => { pc with closed := true } } :=
        h.modify (fun _ => rfl) (by simp) fun pc hpc => h.remote pc (List.mem_of_getElem? hpc)
      refine hmodified.delete fun pc' hpc' hn => ?_
      obtain ⟨i, hi⟩ := List.mem_iff_getElem?.1 hpc'
      obtain ⟨pc₀, hpc₀, ⟨-, rfl⟩ | ⟨hne, rfl⟩⟩ := getElem?_of_modify hi
      · rfl
      · -- It would be another negotiation that this side has begun under the number.
        grind
    · exact h
  next => exact h

end WebrtcNegotiator

/-! ## All negotiators -/

namespace Signaling

variable {s : Signaling P} {n : ℕ} {p q : P}

/-- A peer has begun a negotiation with another. -/
def Negotiation (s : Signaling P) (n : ℕ) (p q : P) : Prop :=
  (n, q, true) ∈ (s.negotiator p).purposes

/-- Two peers hold a negotiation that either of them has begun. -/
def Hold (s : Signaling P) (n : ℕ) (p q : P) : Prop := s.Negotiation n p q ∨ s.Negotiation n q p

/-- A message comes from a peer connection, and goes to the peer of that. -/
def Backed (s : Signaling P) (message : SignalMessage P) : Prop :=
  ∃ peer initiated, (s.negotiator message.source).purposes[message.origin]? =
      some (message.negotiationId, peer, initiated) ∧
    message.target = some peer ∧ (message.signal = .offer → initiated = true)

@[grind cases]
structure Valid (s : Signaling P) : Prop where
  negotiator : ∀ p, (s.negotiator p).Valid
  ne : ∀ n p q, s.Negotiation n p q → p ≠ q
  /-- Negotiations that have a number and a peer in common are the same. -/
  apart : ∀ n p q p' q', s.Negotiation n p q → s.Negotiation n p' q' →
    (p = p' ∨ p = q' ∨ q = p' ∨ q = q') → p = p' ∧ q = q'
  accepted : ∀ p, ∀ pc ∈ (s.negotiator p).made, pc.initiated = false →
    s.Negotiation pc.negotiationId pc.peer p
  sent : ∀ message ∈ s.sent, s.Backed message

theorem valid_init : (init : Signaling P).Valid where
  negotiator _ := WebrtcNegotiator.valid_create
  ne _ _ _ h := by cases h
  apart _ _ _ _ _ h := by cases h
  accepted _ _ h := by cases h
  sent _ h := by cases h

theorem negotiation_of_mem {pc : PeerConnection P} (h : pc ∈ (s.negotiator p).made)
    (hinitiated : pc.initiated = true) : s.Negotiation pc.negotiationId p pc.peer := by
  have hmem := List.mem_map_of_mem (f := PeerConnection.purpose) h
  rwa [PeerConnection.purpose, hinitiated] at hmem

theorem Valid.hold (h : s.Valid) {pc : PeerConnection P} (hpc : pc ∈ (s.negotiator p).made) :
    s.Hold pc.negotiationId p pc.peer := by
  cases hinitiated : pc.initiated with
  | true => exact .inl (negotiation_of_mem hpc hinitiated)
  | false => exact .inr (h.accepted p pc hpc hinitiated)

/-- A negotiation is not begun from both sides. -/
theorem Valid.one_side (h : s.Valid) {q' : P} (hpq : s.Negotiation n p q) :
    ¬ s.Negotiation n q' p := by grind

/-- Whom a peer holds a negotiation with is determined by the number. -/
theorem Valid.hold_unique (h : s.Valid) {q' : P} (hq : s.Hold n p q) (hq' : s.Hold n p q') :
    q = q' := by
  rcases hq with hq | hq <;> rcases hq' with hq' | hq'
  · exact (h.apart n p q p q' hq hq' (.inl rfl)).2
  · exact absurd hq' (h.one_side hq)
  · exact absurd hq (h.one_side hq')
  · exact (h.apart n q p q' p hq hq' (.inr (.inr (.inr rfl)))).1

/-- Under one number, a peer is on one side only. -/
theorem Valid.initiated_eq (h : s.Valid) {pc pc' : PeerConnection P}
    (hpc : pc ∈ (s.negotiator p).made) (hpc' : pc' ∈ (s.negotiator p).made)
    (hn : pc.negotiationId = pc'.negotiationId) : pc.initiated = pc'.initiated := by
  have clash {pc pc' : PeerConnection P} (hpc : pc ∈ (s.negotiator p).made)
      (hpc' : pc' ∈ (s.negotiator p).made) (hn : pc.negotiationId = pc'.negotiationId)
      (htrue : pc.initiated = true) (hfalse : pc'.initiated = false) : False :=
    h.one_side (hn ▸ negotiation_of_mem hpc htrue) (h.accepted p pc' hpc' hfalse)
  cases hinit : pc.initiated <;> cases hinit' : pc'.initiated
  · rfl
  · exact (clash hpc' hpc hn.symm hinit' hinit).elim
  · exact (clash hpc hpc' hn hinit hinit').elim
  · rfl

/-- The peers that a message goes between hold its negotiation. -/
theorem Valid.hold_of_backed (h : s.Valid) {message : SignalMessage P} (hm : s.Backed message)
    (hq : message.target = some q) :
    s.Hold message.negotiationId q message.source ∧
      (message.signal = .offer → s.Negotiation message.negotiationId message.source q) := by
  obtain ⟨peer, initiated, hpurpose, htarget, hoffer⟩ := hm
  cases Option.some.inj (hq.symm.trans htarget)
  have hmem := List.mem_of_getElem? hpurpose
  refine ⟨?_, fun hsignal => ?_⟩
  · obtain ⟨pc, hpc, heq⟩ := List.mem_map.1 hmem
    simp only [PeerConnection.purpose, Prod.mk.injEq] at heq
    obtain ⟨hn, hpeer, -⟩ := heq
    have hold := h.hold hpc
    rw [hn, hpeer] at hold
    exact hold.symm
  · rwa [hoffer hsignal] at hmem

theorem Valid.send (h : s.Valid) {message : SignalMessage P} (hm : s.Backed message) :
    (s.send message).Valid where
  negotiator := h.negotiator
  ne := h.ne
  apart := h.apart
  accepted := h.accepted
  sent m hmem := by
    rcases List.mem_append.1 hmem with hmem | hmem
    · exact h.sent m hmem
    · cases List.mem_singleton.1 hmem
      exact hm

variable [DecidableEq P]

@[simp]
theorem negotiator_update_self (s : Signaling P) (p : P) (x : WebrtcNegotiator P) :
    (s.update p x).negotiator p = x :=
  if_pos rfl

theorem negotiator_update_of_ne (s : Signaling P) (x : WebrtcNegotiator P) (h : q ≠ p) :
    (s.update p x).negotiator q = s.negotiator q :=
  if_neg h

section Update

variable {x : WebrtcNegotiator P}

/-- What peer connections are for stays, so messages remain backed. -/
theorem backed_update (hx : (s.negotiator p).purposes <+: x.purposes) {message : SignalMessage P}
    (hm : s.Backed message) : (s.update p x).Backed message := by
  obtain ⟨peer, initiated, hpurpose, htarget, hoffer⟩ := hm
  refine ⟨peer, initiated, ?_, htarget, hoffer⟩
  by_cases hp : message.source = p
  · subst hp
    obtain ⟨later, hlater⟩ := hx
    grind [negotiator_update_self]
  · rw [negotiator_update_of_ne s x hp, hpurpose]

/-- A negotiator changes without beginning a negotiation. -/
theorem Valid.update (h : s.Valid) (hvalid : x.Valid)
    (hpre : (s.negotiator p).purposes <+: x.purposes)
    (hsame : ∀ n q, (n, q, true) ∈ x.purposes → s.Negotiation n p q)
    (haccepted : ∀ pc ∈ x.made, pc.initiated = false → s.Negotiation pc.negotiationId pc.peer p) :
    (s.update p x).Valid := by
  have old {n : ℕ} {q q' : P} (hn : (s.update p x).Negotiation n q q') : s.Negotiation n q q' := by
    by_cases hq : q = p
    · grind [Negotiation, negotiator_update_self]
    · rwa [Negotiation, negotiator_update_of_ne s x hq] at hn
  have new {n : ℕ} {q q' : P} (hn : s.Negotiation n q q') : (s.update p x).Negotiation n q q' := by
    by_cases hq : q = p
    · grind [Negotiation, negotiator_update_self]
    · rwa [Negotiation, negotiator_update_of_ne s x hq]
  refine ⟨fun q => ?_, fun n q q' hn => h.ne n q q' (old hn), fun n q q' r r' hn hn' =>
    h.apart n q q' r r' (old hn) (old hn'), fun q pc hpc hinitiated => ?_,
    fun m hm => backed_update hpre (h.sent m hm)⟩
  · by_cases hq : q = p
    · subst hq
      rwa [negotiator_update_self]
    · grind [negotiator_update_of_ne]
  · by_cases hq : q = p
    · grind [negotiator_update_self]
    · grind [negotiator_update_of_ne]

end Update

/-- A peer begins a negotiation with another under a number that neither has in use. -/
def NumbersApart (s : Signaling P) : SignalingEvent P → Prop
  | .initiate peer target => peer ≠ target ∧ ∀ q,
      ¬ s.Hold (s.negotiator peer).nextNegotiationId peer q ∧
      ¬ s.Hold (s.negotiator peer).nextNegotiationId target q
  | _ => True

instance decidableHold (s : Signaling P) (n : ℕ) (p q : P) : Decidable (s.Hold n p q) :=
  inferInstanceAs (Decidable (_ ∈ _ ∨ _ ∈ _))

instance decidableNumbersApart [Fintype P] (s : Signaling P) (e : SignalingEvent P) :
    Decidable (s.NumbersApart e) := by
  cases e with
  | initiate => exact inferInstanceAs (Decidable (_ ∧ _))
  | _ => exact .isTrue trivial

theorem Valid.initiate (h : s.Valid) {peer target : P}
    (he : s.NumbersApart (.initiate peer target)) :
    (s.update peer ((s.negotiator peer).initiate target)).Valid := by
  obtain ⟨hne, hunused⟩ := he
  have hpre : (s.negotiator peer).purposes <+:
      ((s.negotiator peer).initiate target).purposes := by
    grind [WebrtcNegotiator.purposes_initiate]
  -- A negotiation is an earlier one, or the new one.
  have cases {n : ℕ} {q q' : P}
      (hn : (s.update peer ((s.negotiator peer).initiate target)).Negotiation n q q') :
      s.Negotiation n q q' ∨
        n = (s.negotiator peer).nextNegotiationId ∧ q = peer ∧ q' = target := by
    by_cases hq : q = peer
    · grind [Negotiation, negotiator_update_self, WebrtcNegotiator.purposes_initiate]
    · grind [Negotiation, negotiator_update_of_ne]
  have mono {n : ℕ} {q q' : P} (hn : s.Negotiation n q q') :
      (s.update peer ((s.negotiator peer).initiate target)).Negotiation n q q' := by
    by_cases hq : q = peer
    · grind [Negotiation, negotiator_update_self]
    · rwa [Negotiation, negotiator_update_of_ne _ _ hq]
  -- The new negotiation has no peer in common with an earlier one of its number.
  have unused {q q' : P} (hn : s.Negotiation (s.negotiator peer).nextNegotiationId q q') :
      ¬ (q = peer ∨ q = target ∨ q' = peer ∨ q' = target) := by
    rintro (rfl | rfl | rfl | rfl)
    · exact (hunused q').1 (.inl hn)
    · exact (hunused q').2 (.inl hn)
    · exact (hunused q).1 (.inr hn)
    · exact (hunused q).2 (.inr hn)
  refine ⟨fun q => ?_, fun n q q' hn => ?_, fun n q q' r r' hn hn' hcommon => ?_,
    fun q pc hpc hinitiated => ?_, fun m hm => backed_update hpre (h.sent m hm)⟩
  · by_cases hq : q = peer
    · grind [negotiator_update_self, WebrtcNegotiator.Valid.initiate]
    · grind [negotiator_update_of_ne]
  · grind
  · grind
  · by_cases hq : q = peer
    · subst hq
      rw [negotiator_update_self] at hpc
      rcases List.mem_append.1 hpc with hpc | hpc
      · exact mono (h.accepted q pc hpc hinitiated)
      · cases List.mem_singleton.1 hpc
        cases hinitiated
    · grind [negotiator_update_of_ne]

/-- A negotiator changes, but not what its peer connections are for. -/
theorem Valid.update_of_purposes (h : s.Valid) {x : WebrtcNegotiator P} (hvalid : x.Valid)
    (hx : x.purposes = (s.negotiator p).purposes) : (s.update p x).Valid := by
  refine h.update hvalid (hx ▸ List.prefix_rfl) (fun n q hn => ?_) fun pc hpc hinitiated => ?_
  · rwa [hx] at hn
  grind [WebrtcNegotiator.purposes, PeerConnection.purpose, List.mem_map_of_mem]

/-- The offer of a negotiation that its sender has begun. -/
theorem Valid.handleIncomingOffer (h : s.Valid) (hn : s.Negotiation n q p) :
    (s.update p ((s.negotiator p).handleIncomingOffer q n)).Valid := by
  have hpurposes : ((s.negotiator p).handleIncomingOffer q n).purposes =
      (s.negotiator p).purposes ++ [(n, q, false)] :=
    WebrtcNegotiator.purposes_keep _ _
  refine h.update ?_ (hpurposes ▸ List.prefix_append _ _) (fun n' q' hmem => ?_) ?_
  · refine (h.negotiator p).handleIncomingOffer fun pc hpc heq => ⟨?_, ?_⟩
    · exact h.hold_unique (heq ▸ h.hold hpc) (.inr hn)
    · -- The peer has not begun a negotiation under the number of one that another has begun.
      rw [← Bool.not_eq_true]
      intro hinitiated
      exact h.one_side (heq ▸ negotiation_of_mem hpc hinitiated) hn
  · rw [hpurposes, List.mem_append] at hmem
    rcases hmem with hmem | hmem
    · exact hmem
    · simp at hmem
  · intro pc hpc hinitiated
    rcases List.mem_append.1 hpc with hpc | hpc
    · exact h.accepted p pc hpc hinitiated
    · cases List.mem_singleton.1 hpc
      exact hn

theorem Valid.receive (h : s.Valid) {message : SignalMessage P} (hm : s.Backed message) :
    (s.receive message).Valid := by
  rw [Signaling.receive]
  split
  next => exact h
  next peer htarget =>
    obtain ⟨hold, hoffer⟩ := h.hold_of_backed hm htarget
    have applied (signal : Signal) : (s.update peer ((s.negotiator peer).applyRemote signal
        message.source message.negotiationId)).Valid := by
      refine h.update_of_purposes ?_ (WebrtcNegotiator.purposes_applyRemote _ _ _ _)
      refine (h.negotiator peer).applyRemote signal fun pc hpc hn => ?_
      exact h.hold_unique (hn ▸ h.hold hpc) hold
    split
    next hsignal => exact h.handleIncomingOffer (hoffer hsignal)
    next => exact applied .answer
    next => exact applied .iceCandidate

theorem Valid.next (h : s.Valid) {e : SignalingEvent P} (he : s.NumbersApart e) :
    (s.next e).Valid := by
  cases e with
  | initiate peer target => exact h.initiate he
  | sendOffer peer index =>
    rw [Signaling.next, sendOffer]
    split
    next pc hpc =>
      have hpurpose := WebrtcNegotiator.getElem?_purposes hpc
      split_ifs with hinitiated
      · exact h.send ⟨pc.peer, pc.initiated, hpurpose, rfl, fun _ => hinitiated⟩
      · exact h
    next => exact h
  | offerRejected peer index =>
    refine h.update_of_purposes ?_ (WebrtcNegotiator.purposes_offerRejected _ _)
    exact (h.negotiator peer).offerRejected fun pc hpc pc' hpc' => h.initiated_eq hpc hpc'
  | sendAnswer peer index =>
    rw [Signaling.next, sendAnswer]
    split
    next pc hpc =>
      have hpurpose := WebrtcNegotiator.getElem?_purposes hpc
      split_ifs
      · exact h
      · exact h.send ⟨pc.peer, pc.initiated, hpurpose, rfl, by simp⟩
    next => exact h
  | deliver message => grind [Signaling.next, deliver, receive]
  | iceCandidate peer index =>
    rw [Signaling.next, sendIceCandidate]
    split
    next pc hpc =>
      have hpurpose := WebrtcNegotiator.getElem?_purposes hpc
      split_ifs with hclosed
      · exact h
      · rw [Bool.not_eq_true] at hclosed
        have htarget := ((h.negotiator peer).kept index pc hpc hclosed).1
        exact h.send ⟨pc.peer, pc.initiated, hpurpose, htarget, by simp⟩
    next => exact h

end Signaling

open Signaling

/-- For peers that begin negotiations under numbers which are apart: whatever is applied to a peer
    connection has been sent by its peer, candidates are sent to the peer of the peer connection
    that they come from, and a negotiation that a peer has begun is not replaced. -/
theorem negotiations_do_not_cross {P : Type} [DecidableEq P] (events : List (SignalingEvent P))
    (h : Along next NumbersApart init events) :
    (∀ p, ∀ pc ∈ ((run next init events).negotiator p).made, ∀ a ∈ pc.remote, a.1 = pc.peer) ∧
    (∀ m ∈ (run next init events).sent, ∃ pc,
      ((run next init events).negotiator m.source).made[m.origin]? = some pc ∧
        pc.negotiationId = m.negotiationId ∧ m.target = some pc.peer) ∧
    ∀ (p : P) (i : ℕ) (pc : PeerConnection P),
      ((run next init events).negotiator p).made[i]? = some pc → pc.initiated = true →
      pc.closed = false →
        ((run next init events).negotiator p).peerConnections.get pc.negotiationId = some i := by
  have hvalid : (run next init events).Valid :=
    run_along valid_init (fun _ _ hs he => hs.next he) h
  refine ⟨fun p => (hvalid.negotiator p).remote, fun m hm => ?_, fun p i pc hpc hinitiated hopen =>
    ((hvalid.negotiator p).kept i pc hpc hopen).2 hinitiated⟩
  obtain ⟨peer, initiated, hpurpose, htarget, -⟩ := hvalid.sent m hm
  rw [WebrtcNegotiator.purposes, List.getElem?_map] at hpurpose
  obtain ⟨pc, hpc, heq⟩ := Option.map_eq_some_iff.1 hpurpose
  simp only [PeerConnection.purpose, Prod.mk.injEq] at heq
  exact ⟨pc, hpc, heq.1, heq.2.1 ▸ htarget⟩

/-- One of three peers begins a negotiation with each of the others. -/
def sampleNegotiations : List (SignalingEvent (Fin 3)) :=
  [.initiate 0 1, .initiate 0 2, .sendOffer 0 1, .sendOffer 0 0, .deliver 0, .deliver 1,
    .sendAnswer 1 0, .sendAnswer 2 0, .deliver 3, .deliver 2, .iceCandidate 2 0, .deliver 4]

theorem negotiations_do_not_cross_sample :
    ((run next init sampleNegotiations).negotiator 0).made.map PeerConnection.remote =
        [[(1, .answer)], [(2, .answer), (2, .iceCandidate)]] ∧
      ∀ pc ∈ ((run next init sampleNegotiations).negotiator 0).made, ∀ a ∈ pc.remote,
        a.1 = pc.peer := by
  refine ⟨rfl, ?_⟩
  exact (negotiations_do_not_cross sampleNegotiations (by decide +kernel)).1 0

/-- A peer has begun a negotiation, and so has another with it, each its first one. -/
def sampleCrossing : List (SignalingEvent (Fin 3)) :=
  [.initiate 0 1, .sendOffer 0 0, .initiate 2 0, .sendOffer 2 0, .deliver 1, .deliver 0,
    .sendAnswer 1 0, .deliver 2, .iceCandidate 0 0]

theorem negotiations_cross :
    -- The answer of a peer is applied to the peer connection with another.
    ((run next init sampleCrossing).negotiator 0).made[1]? =
        some ⟨0, 2, false, false, [(2, .offer), (1, .answer)]⟩ ∧
      -- The negotiation that the peer has begun is replaced.
      ((run next init sampleCrossing).negotiator 0).made[0]? = some ⟨0, 1, true, false, []⟩ ∧
      ((run next init sampleCrossing).negotiator 0).peerConnections.get 0 = some 1 ∧
      -- Its candidate is sent to the other.
      (run next init sampleCrossing).sent[3]? = some ⟨0, 0, some 2, 0, .iceCandidate⟩ := by
  decide +kernel

end WireMesh.TypeScript
