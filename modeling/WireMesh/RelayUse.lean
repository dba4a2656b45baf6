import Mathlib.Data.Finset.Basic
import WireMesh.Attribution

/-!
# The gate of the relay

A node that relays for those it has authorised (`relay-use-gate.ts`) drops the requests of the
others to be paired, and passes all other frames on to its hub. Whatever the hub delivers
within pairings goes back to a request that was made while authorised, and that paired the
very connections it is delivered between (`delivered_of_authorized`).
-/

namespace WireMesh.TypeScript.RelayHub

/-! ## The gated hub -/

/-- A hub with the connections that are authorised. -/
structure GatedState (Conn Value : Type) where
  hub : State Conn Value
  authorized : Finset Conn

inductive GatedEvent (Conn Value : Type)
  | hub (event : Event Conn Value)
  | authorize (connection : Conn)
  | revoke (connection : Conn)
deriving DecidableEq

variable {Conn Value : Type} [DecidableEq Conn]

/-- The frame is not passed on to the hub. -/
def GatedState.drops (s : GatedState Conn Value) (connection : Conn) : Frame Value → Bool
  | .relayConnect _ _ => connection ∉ s.authorized
  | _ => false

def gatedStep (options : RelayHubOptions Value) (s : GatedState Conn Value) :
    GatedEvent Conn Value → GatedState Conn Value × List (Output Conn Value)
  | .hub (.frame connection frame) =>
    if s.drops connection frame then (s, [])
    else
      let (hub, outputs) := step options s.hub (.frame connection frame)
      ({ s with hub }, outputs)
  | .hub event =>
    let (hub, outputs) := step options s.hub event
    ({ s with hub }, outputs)
  | .authorize connection => ({ s with authorized := insert connection s.authorized }, [])
  | .revoke connection => ({ s with authorized := s.authorized.erase connection }, [])

/-- The gated hub after an event. -/
def gatedNext (options : RelayHubOptions Value) (s : GatedState Conn Value)
    (e : GatedEvent Conn Value) : GatedState Conn Value :=
  (gatedStep options s e).1

/-- A new hub behind a gate. -/
def GatedState.init (storage : KeyValueStorage) (authorized : Finset Conn) :
    GatedState Conn Value where
  hub := .init storage
  authorized := authorized

/-! ## What goes back to an authorised request -/

variable {options : RelayHubOptions Value} {s : GatedState Conn Value}
  {e : GatedEvent Conn Value}

/-- At the event, a request of `c`, which is authorised, pairs `c` with `c'`. -/
def Connects (options : RelayHubOptions Value) (s : GatedState Conn Value)
    (e : GatedEvent Conn Value) (c c' : Conn) : Prop :=
  (∃ target source, e = .hub (.frame c (.relayConnect target source))) ∧ c ∈ s.authorized ∧
    ∃ device device', (gatedNext options s e).hub.maps =
      s.hub.maps.addPairing c device c' device'

/-- One of the two was authorised and has asked for the other one. -/
def ConnectedBy (options : RelayHubOptions Value) (s : GatedState Conn Value)
    (events : List (GatedEvent Conn Value)) (c c' : Conn) : Prop :=
  ∃ before e after, events = before ++ e :: after ∧
    let t := Machine.run (gatedNext options) s before
    Connects options t e c c' ∨ Connects options t e c' c

theorem ConnectedBy.concat {events : List (GatedEvent Conn Value)} {c c' : Conn}
    (h : ConnectedBy options s events c c') (e : GatedEvent Conn Value) :
    ConnectedBy options s (events ++ [e]) c c' := by
  obtain ⟨before, e', after, rfl, h⟩ := h
  exact ⟨before, e', after ++ [e], by simp, h⟩

/-- All pairings go back to authorised requests. -/
@[grind cases]
structure Traced (m : Maps Conn Value) (P : Conn → Conn → Prop) : Prop where
  uplink : m.uplink = none
  paired : ∀ a device b, m.paired a device = some b → P a b
  recent : ∀ a b, m.mostRecentPairing a = some b → P a b

omit [DecidableEq Conn] in
theorem Traced.mono {m : Maps Conn Value} {P Q : Conn → Conn → Prop} (h : Traced m P)
    (hPQ : ∀ a b, P a b → Q a b) : Traced m Q :=
  ⟨h.uplink, fun a device b hab => hPQ a b (h.paired a device b hab),
    fun a b hab => hPQ a b (h.recent a b hab)⟩

theorem Traced.addPairing {m : Maps Conn Value} {P : Conn → Conn → Prop} (h : Traced m P)
    {a b : Conn} (hab : P a b) (hba : P b a) (aDevice bDevice : DeviceId) :
    Traced (m.addPairing a aDevice b bDevice) P := by
  refine ⟨h.uplink, ?_, ?_⟩
  · grind [Maps.paired_addPairing]
  · grind [Maps.mostRecentPairing_addPairing]

/-- An event of the hub keeps what all its pairings have in common, if those it makes have it
    too. -/
theorem Traced.next {s : State Conn Value} {P : Conn → Conn → Prop} (h : Traced s.maps P)
    (e : Event Conn Value) (huplink : ∀ c, e ≠ .attachUplink c)
    (hpairs : ∀ c f a aDevice b bDevice, e = .frame c f →
      Pairs s.maps c f a aDevice b bDevice →
      (next options s e).maps = s.maps.addPairing a aDevice b bDevice → P a b ∧ P b a) :
    Traced (next options s e).maps P := by
  have hstep := mapsStep options s e
  generalize hm : (RelayHub.next options s e).maps = m at hstep hpairs ⊢
  cases hstep with
  | @acts _ actor _ hactor hacts =>
    cases hacts with
    | idle => exact h
    | connects => exact ⟨h.uplink, h.paired, h.recent⟩
    | attaches => exact absurd rfl (huplink actor)
    | attachesAtOnce => exact absurd rfl (huplink actor)
    | @gossips i adverts hverified =>
      obtain ⟨-, hup, hpairings, hrecent⟩ :=
        s.maps.gossip_frame options.extensionPolicy actor adverts
      refine ⟨hup.trans h.uplink, ?_, ?_⟩
      · intro a device b hpaired
        rw [Maps.paired, hpairings] at hpaired
        exact h.paired a device b hpaired
      · rw [hrecent]
        exact h.recent
    | pairs hactorPairs => grind [addPairing]
  | forget gone =>
    have hforgotten := Maps.forgotten_forgetConnection s.maps gone
    refine ⟨?_, ?_, ?_⟩
    · rw [hforgotten.uplink, h.uplink, ite_self]
    · intro a device b hpaired
      exact h.paired a device b (hforgotten.paired_iff.1 hpaired).2.1
    · grind
  | stop => exact ⟨rfl, by simp [Maps.paired, Maps.clear], by simp [Maps.clear]⟩
  | same => exact h

/-- An event of the hub is dropped, or passed on to it; a request that is passed on is
    authorised. -/
theorem gatedStep_hub (options : RelayHubOptions Value) (s : GatedState Conn Value)
    (event : Event Conn Value) :
    gatedStep options s (.hub event) = (s, []) ∨
      gatedStep options s (.hub event) =
          ({ s with hub := next options s.hub event }, (step options s.hub event).2) ∧
        ∀ c target source, event = .frame c (.relayConnect target source) →
          c ∈ s.authorized := by
  cases event with
  | frame c f =>
    rw [gatedStep]
    split_ifs with hdrops
    · exact .inl rfl
    · refine .inr ⟨rfl, ?_⟩
      grind [GatedState.drops]
  | _ => exact .inr ⟨rfl, by simp⟩

/-- A request that is passed on pairs the one who has sent it. -/
theorem connects_of_pairs {c a b : Conn} {f : Frame Value} {aDevice bDevice : DeviceId}
    (hpairs : Pairs s.hub.maps c f a aDevice b bDevice) (huplink : s.hub.maps.uplink = none)
    (hauthorized : ∀ target source, f = .relayConnect target source → c ∈ s.authorized)
    (hnext : (gatedNext options s (.hub (.frame c f))).hub.maps =
      s.hub.maps.addPairing a aDevice b bDevice) :
    Connects options s (.hub (.frame c f)) a b := by
  cases hpairs with
  | @connect target initiator source registration hget hne hinitiator =>
    exact ⟨⟨target, source, rfl⟩, hauthorized target source rfl, _, _, hnext⟩
  | inbound hup =>
    rw [huplink] at hup
    cases hup

/-- All pairings of a hub without an uplink go back to authorised requests. -/
theorem traced_run (options : RelayHubOptions Value) (storage : KeyValueStorage)
    (authorized : Finset Conn) {events : List (GatedEvent Conn Value)}
    (huplink : ∀ c, .hub (.attachUplink c) ∉ events) :
    Traced (Machine.run (gatedNext options) (.init storage authorized) events).hub.maps
      (ConnectedBy options (.init storage authorized) events) := by
  induction events using List.reverseRecOn with
  | nil =>
    exact ⟨rfl, by simp [GatedState.init, State.init, Maps.empty, Maps.paired],
      by simp [GatedState.init, State.init, Maps.empty]⟩
  | append_singleton events e ih =>
    replace ih := (ih fun c hc => huplink c (List.mem_append_left _ hc)).mono
      fun a b hab => hab.concat e
    rw [Machine.run_append, Machine.run_cons, Machine.run_nil]
    set s := Machine.run (gatedNext options) (.init storage authorized) events with hs
    cases e with
    | hub event =>
      rcases gatedStep_hub options s event with hdropped | ⟨hpassed, hauthorized⟩
      · rw [gatedNext, hdropped]
        exact ih
      · have hnext : (gatedNext options s (.hub event)).hub = next options s.hub event := by
          rw [gatedNext, hpassed]
        rw [hnext]
        refine ih.next event ?_ ?_
        · rintro c rfl
          exact huplink c (by simp)
        · grind [connects_of_pairs, ConnectedBy]
    | authorize c => exact ih
    | revoke c => exact ih

/-- What the hub delivers to `c'` because of a frame from `c` goes back to a request that one of
    them has made while it was authorised, and that has paired the two. -/
theorem delivered_of_authorized (options : RelayHubOptions Value) (storage : KeyValueStorage)
    (authorized : Finset Conn) (events : List (GatedEvent Conn Value)) (e : GatedEvent Conn Value)
    (huplink : ∀ c, .hub (.attachUplink c) ∉ events) {c c' : Conn} {frame : Frame Value}
    (hsend : .send c c' frame ∈ (gatedStep options
      (Machine.run (gatedNext options) (.init storage authorized) events) e).2)
    (hrelayed : frame.relayed) :
    ConnectedBy options (.init storage authorized) (events ++ [e]) c c' := by
  have htraced := traced_run options storage authorized huplink
  set s := Machine.run (gatedNext options) (.init storage authorized) events with hs
  cases e with
  | authorize c => cases hsend
  | revoke c => cases hsend
  | hub event =>
    rcases gatedStep_hub options s event with hdropped | ⟨hpassed, hauthorized⟩
    · rw [hdropped] at hsend
      cases hsend
    · rw [hpassed] at hsend
      obtain ⟨f, rfl, hrelays⟩ := (sends_step hsend).relays_of_relayed hrelayed
      cases hrelays with
      | @connect target initiator source registration hget hne hinitiator hdown =>
        -- The request itself is the one.
        have hmaps : (gatedNext options s
            (.hub (.frame c (.relayConnect target source)))).hub.maps =
            s.hub.maps.addPairing c initiator registration.connection
              registration.advert.device := by
          rw [gatedNext, hpassed]
          change (s.hub.maps.relayConnect c target source).1 = _
          simp [Maps.relayConnect, hget, hne, hinitiator, hdown]
        have hconnects := connects_of_pairs (.connect hget hne hinitiator hdown) htraced.uplink
          (fun target source hf => hauthorized c target source (hf ▸ rfl)) hmaps
        exact ⟨events, _, [], rfl, .inl hconnects⟩
      | inbound hup =>
        rw [htraced.uplink] at hup
        cases hup
      | @data payload toDevice fromDevice peer sender hpeer =>
        refine ConnectedBy.concat ?_ _
        cases toDevice with
        | none => exact htraced.recent c c' hpeer
        | some device => exact htraced.paired c device c' hpeer

/-- Connection 1, which is authorised, asks for the second device, and loses its authorisation. -/
def pairedOnce : List (GatedEvent ℕ Unit) :=
  [.authorize 1] ++ twoDevices.map .hub ++
    [.hub (.frame 1 (.relayConnect (.pad [2]) none)), .revoke 1]

/-- Connection 2, which was never authorised, sends data back to connection 1. -/
theorem delivered_of_authorized_pairedOnce :
    ConnectedBy .sample (.init ∅ ∅)
      (pairedOnce ++ [.hub (.frame 2 (.relayData [7] none none))]) 2 1 := by
  have hsend : .send 2 1 (.relayData [7] none (some (.pad [2]))) ∈ (gatedStep .sample
      (Machine.run (gatedNext .sample) (.init ∅ ∅) pairedOnce)
        (.hub (.frame 2 (.relayData [7] none none)))).2 := by decide +kernel
  have huplink (c : ℕ) : .hub (.attachUplink c) ∉ pairedOnce := by
    simp [pairedOnce, twoDevices, sampleGossip]
  exact delivered_of_authorized .sample ∅ ∅ pairedOnce _ huplink hsend rfl

end WireMesh.TypeScript.RelayHub
