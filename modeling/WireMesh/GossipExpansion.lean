import WireMesh.Machine
import WireMesh.Token

/-!
# Expansion over gossip

`createGossipExpansion`: a session hears of other devices in adverts. For a new
one with addresses, the caller is asked whether to dial it, and if so they are
tried in order. All of this interleaves; what the caller supplies may throw.

* `expansion_candidates`: the first usable advert of each other device becomes
  a candidate, and no other one does.
* `expansion_calls`: what the caller is called with for a candidate, by what it
  has answered so far.
-/

namespace WireMesh.TypeScript.GossipExpansion

variable {Session : Type}

/-- What is read of an advert. -/
structure Candidate where
  device : DeviceId
  addresses : List String

/-- A call of a function that the caller has supplied, about one candidate. -/
inductive Call (Session : Type)
  | shouldExpand
  | dial (address : String)
  | onExpanded (address : String) (session : Session)
  | onExpansionDeclined
  | onExpansionFailed (errors : List String)

/-- What an expansion awaits. -/
inductive Stage
  | shouldExpand
  | dial (address : String) (remaining failures : List String)
  | done

/-- What it gets, or what has been thrown instead. -/
inductive Result (Session : Type)
  | decided (approved : Except String Bool)
  | dialFailed (error : String)
  /-- The session, and how `onExpanded` ends. -/
  | dialled (session : Session) (onExpanded : Except String Unit)

structure Expansion (Session : Type) where
  candidate : Candidate
  stage : Stage
  calls : List (Call Session)

namespace Expansion

def dialInOrder (x : Expansion Session) (addresses failures : List String) : Expansion Session :=
  match addresses with
  | [] => { x with stage := .done, calls := x.calls ++ [.onExpansionFailed failures] }
  | address :: remaining =>
    { x with stage := .dial address remaining failures, calls := x.calls ++ [.dial address] }

/-- The expansion goes on. If `onExpanded` throws, that counts as a failure of the address. -/
def resume (x : Expansion Session) (result : Result Session) : Expansion Session :=
  match x.stage, result with
  | .shouldExpand, .decided (.error error) =>
    { x with stage := .done, calls := x.calls ++ [.onExpansionFailed [error]] }
  | .shouldExpand, .decided (.ok false) =>
    { x with stage := .done, calls := x.calls ++ [.onExpansionDeclined] }
  | .shouldExpand, .decided (.ok true) => x.dialInOrder x.candidate.addresses []
  | .dial _ remaining failures, .dialFailed error => x.dialInOrder remaining (failures ++ [error])
  | .dial address remaining failures, .dialled session onExpanded =>
    let expanded : Expansion Session :=
      { x with calls := x.calls ++ [.onExpanded address session] }
    match onExpanded with
    | .error error => expanded.dialInOrder remaining (failures ++ [error])
    | .ok () => { expanded with stage := .done }
  | _, _ => x

@[simp]
theorem candidate_dialInOrder (x : Expansion Session) (addresses failures : List String) :
    (x.dialInOrder addresses failures).candidate = x.candidate := by
  cases addresses <;> rfl

theorem candidate_resume (x : Expansion Session) (result : Result Session) :
    (x.resume result).candidate = x.candidate := by
  unfold resume
  repeat' split
  all_goals simp

end Expansion

structure State (Session : Type) where
  considered : List String
  expansions : List (Expansion Session)

/-- The expansions are numbered. -/
inductive Event (Session : Type)
  | considerAdvert (advert : Candidate)
  | resume (n : ℕ) (result : Result Session)

variable (selfDeviceId : DeviceId)

def considerAdvert (s : State Session) (advert : Candidate) : State Session :=
  let hex := deviceIdToHex advert.device
  if hex = deviceIdToHex selfDeviceId ∨ hex ∈ s.considered ∨ advert.addresses.length = 0 then s
  else
    { considered := s.considered ++ [hex]
      expansions := s.expansions ++ [⟨advert, .shouldExpand, [.shouldExpand]⟩] }

def next (s : State Session) : Event Session → State Session
  | .considerAdvert advert => considerAdvert selfDeviceId s advert
  | .resume n result => { s with expansions := s.expansions.modify n (·.resume result) }

/-! ## Candidates -/

def Event.advert : Event Session → Option Candidate
  | .considerAdvert advert => some advert
  | _ => none

def State.candidates (s : State Session) : List Candidate := s.expansions.map (·.candidate)

/-- The state after the events: the candidates so far, and the devices considered. -/
structure Considers (events : List (Event Session)) (s : State Session) : Prop where
  considered : s.considered = s.candidates.map fun c => deviceIdToHex c.device
  nodup : (s.candidates.map Candidate.device).Nodup
  first : ∀ d, s.candidates.find? (·.device = d) = if d = selfDeviceId then none else
    (events.filterMap Event.advert).find? fun a => a.device = d ∧ a.addresses ≠ []

variable {selfDeviceId} {s : State Session} {events : List (Event Session)}

theorem Considers.considerAdvert (h : Considers selfDeviceId events s) (advert : Candidate) :
    Considers selfDeviceId (events ++ [.considerAdvert advert])
      (considerAdvert selfDeviceId s advert) := by
  have hknown : deviceIdToHex advert.device ∈ s.considered ↔
      advert.device ∈ s.candidates.map Candidate.device := by
    simp [h.considered, deviceIdToHex_inj]
  have hfind : (s.candidates.find? (·.device = advert.device)).isSome ↔
      advert.device ∈ s.candidates.map Candidate.device := by simp
  rw [GossipExpansion.considerAdvert]
  simp only [deviceIdToHex_inj, hknown, List.length_eq_zero_iff]
  split_ifs with hskip
  · refine ⟨h.considered, h.nodup, fun d => ?_⟩
    rw [List.filterMap_append, List.find?_append, h.first]
    by_cases hd : advert.device = d
    · -- the device is the own one, or has a candidate, or the advert is of no use
      subst hd
      rw [← hfind, h.first] at hskip
      rcases hskip with hself | hcandidate | haddresses
      · rw [if_pos hself, if_pos hself]
      · split_ifs at hcandidate ⊢
        · rfl
        · rw [Option.or_of_isSome hcandidate]
      · simp [Event.advert, haddresses]
    · simp [Event.advert, hd]
  · obtain ⟨hself, hnew, haddresses⟩ := not_or.1 hskip |>.imp_right not_or.1
    refine ⟨by simp [State.candidates, h.considered], ?_, fun d => ?_⟩
    · simpa [State.candidates, List.nodup_append] using And.intro h.nodup hnew
    · rw [State.candidates, List.map_append, List.filterMap_append, List.find?_append,
        List.find?_append, ← State.candidates, h.first]
      by_cases hd : advert.device = d
      · subst hd
        simp [Event.advert, hself, haddresses]
      · simp [Event.advert, hd]

theorem Considers.resume (h : Considers selfDeviceId events s) (n : ℕ) (result : Result Session) :
    Considers selfDeviceId (events ++ [.resume n result])
      (next selfDeviceId s (.resume n result)) := by
  have hcandidates : (next selfDeviceId s (.resume n result)).candidates = s.candidates :=
    Machine.map_modify_of_forall _ _ (fun x => x.candidate_resume result) _ n
  constructor
  · exact hcandidates ▸ h.considered
  · exact hcandidates ▸ h.nodup
  · simpa [hcandidates, Event.advert] using h.first

/-- Each device becomes a candidate at most once, with what its first advert with addresses says,
    and every device does that such an advert was heard of, except the own one. -/
theorem expansion_candidates (selfDeviceId : DeviceId) (events : List (Event Session)) :
    Considers selfDeviceId events (Machine.run (next selfDeviceId) ⟨[], []⟩ events) := by
  refine Machine.run_history ⟨rfl, List.nodup_nil, by simp [State.candidates]⟩ ?_ events
  intro events s e h
  cases e with
  | considerAdvert advert => exact h.considerAdvert advert
  | resume n result => exact h.resume n result

/-! ## Calls -/

/-- What is awaited has come. A promise settles once, with a value of its own kind. -/
def Stage.Awaits (stage : Stage) (result : Result Session) : Prop :=
  match stage, result with
  | .shouldExpand, .decided _ => True
  | .dial _ _ _, .dialFailed _ => True
  | .dial _ _ _, .dialled _ _ => True
  | _, _ => False

/-- An expansion gets what it awaits. -/
def Awaited (s : State Session) : Event Session → Prop
  | .considerAdvert _ => True
  | .resume n result => ∃ x, s.expansions[n]? = some x ∧ x.stage.Awaits result

/-- What the caller has answered about one candidate. -/
def Event.answer (n : ℕ) : Event Session → Option (Result Session)
  | .considerAdvert _ => none
  | .resume m result => if m = n then some result else none

/-- An address that has failed: if its dial has not, `onExpanded` has thrown. -/
structure Attempt (Session : Type) where
  address : String
  session : Option Session
  error : String

def Attempt.calls : Attempt Session → List (Call Session)
  | ⟨address, none, _⟩ => [.dial address]
  | ⟨address, some session, _⟩ => [.dial address, .onExpanded address session]

def Attempt.answer : Attempt Session → Result Session
  | ⟨_, none, error⟩ => .dialFailed error
  | ⟨_, some session, error⟩ => .dialled session (.error error)

/-- What the caller is called with for a candidate with these addresses, and what it answers: it is
    asked first, it is told one outcome last, and in between the addresses are dialled in order, up
    to the first that connects. After a decline or a connection nothing is dialled. -/
inductive Traced (addresses : List String) :
    List (Result Session) → Stage → List (Call Session) → Prop
  | asked : Traced addresses [] .shouldExpand [.shouldExpand]
  | declined :
      Traced addresses [.decided (.ok false)] .done [.shouldExpand, .onExpansionDeclined]
  | refused (error : String) :
      Traced addresses [.decided (.error error)] .done [.shouldExpand, .onExpansionFailed [error]]
  | dialling (tried : List (Attempt Session)) (address : String) (remaining : List String) :
      addresses = tried.map Attempt.address ++ address :: remaining →
      Traced addresses (.decided (.ok true) :: tried.map Attempt.answer)
        (.dial address remaining (tried.map Attempt.error))
        (.shouldExpand :: tried.flatMap Attempt.calls ++ [.dial address])
  | expanded (tried : List (Attempt Session)) (address : String) (remaining : List String)
      (session : Session) :
      addresses = tried.map Attempt.address ++ address :: remaining →
      Traced addresses
        (.decided (.ok true) :: tried.map Attempt.answer ++ [.dialled session (.ok ())]) .done
        (.shouldExpand :: tried.flatMap Attempt.calls ++
          [.dial address, .onExpanded address session])
  | failed (tried : List (Attempt Session)) :
      addresses = tried.map Attempt.address →
      Traced addresses (.decided (.ok true) :: tried.map Attempt.answer) .done
        (.shouldExpand :: tried.flatMap Attempt.calls ++
          [.onExpansionFailed (tried.map Attempt.error)])

def Expansion.Traced (x : Expansion Session) (answers : List (Result Session)) : Prop :=
  GossipExpansion.Traced x.candidate.addresses answers x.stage x.calls

namespace Expansion.Traced

variable {x : Expansion Session} {answers : List (Result Session)}

theorem dialInOrder (tried : List (Attempt Session)) (rest : List String)
    (hsplit : x.candidate.addresses = tried.map Attempt.address ++ rest)
    (hcalls : x.calls = .shouldExpand :: tried.flatMap Attempt.calls) :
    (x.dialInOrder rest (tried.map Attempt.error)).Traced
      (.decided (.ok true) :: tried.map Attempt.answer) := by
  rw [Expansion.Traced, candidate_dialInOrder]
  cases rest with
  | nil =>
    rw [Expansion.dialInOrder, hcalls]
    exact .failed tried (hsplit.trans (List.append_nil _))
  | cons address remaining =>
    rw [Expansion.dialInOrder, hcalls]
    exact .dialling tried address remaining hsplit

theorem resume (h : x.Traced answers) {result : Result Session} (hawaits : x.stage.Awaits result) :
    (x.resume result).Traced (answers ++ [result]) := by
  obtain ⟨candidate, stage, calls⟩ := x
  cases h with
  | asked =>
    rcases result with (error | _ | _) | _ | _
    · exact .refused error
    · exact .declined
    · exact dialInOrder [] _ rfl rfl
    · exact hawaits.elim
    · exact hawaits.elim
  | dialling tried address remaining hsplit =>
    change candidate.addresses = _ at hsplit
    rcases result with _ | error | ⟨session, error | _⟩
    · exact hawaits.elim
    · have htraced := dialInOrder (x := ⟨candidate, .dial address remaining (tried.map (·.error)),
        .shouldExpand :: tried.flatMap Attempt.calls ++ [.dial address]⟩)
        (tried ++ [⟨address, none, error⟩]) remaining (by simp [hsplit])
        (by simp [Attempt.calls])
      simpa [Expansion.resume, Attempt.answer] using htraced
    · have htraced := dialInOrder (x := ⟨candidate, .dial address remaining (tried.map (·.error)),
        .shouldExpand :: tried.flatMap Attempt.calls ++
          [.dial address, .onExpanded address session]⟩)
        (tried ++ [⟨address, some session, error⟩]) remaining (by simp [hsplit])
        (by simp [Attempt.calls])
      simpa [Expansion.resume, Attempt.answer] using htraced
    · have htraced := Traced.expanded tried address remaining session hsplit
      simpa [Expansion.Traced, Expansion.resume] using htraced
  | _ => exact hawaits.elim

end Expansion.Traced

/-- The state after the events: each expansion has made the calls that follow from its answers. -/
def AllTraced (events : List (Event Session)) (s : State Session) : Prop :=
  ∀ (n : ℕ) (x : Expansion Session), s.expansions[n]? = some x →
    x.Traced (events.filterMap (Event.answer n))

/-- Nothing has been answered about an expansion that is yet to begin. -/
def Numbered (events : List (Event Session)) (s : State Session) : Prop :=
  ∀ n, s.expansions.length ≤ n → events.filterMap (Event.answer n) = []

theorem AllTraced.next (h : AllTraced events s) (hnumbered : Numbered events s) {e : Event Session}
    (hawaited : Awaited s e) :
    AllTraced (events ++ [e]) (next selfDeviceId s e) ∧
      Numbered (events ++ [e]) (next selfDeviceId s e) := by
  cases e with
  | considerAdvert advert =>
    have hsame : ∀ n, (events ++ [Event.considerAdvert advert]).filterMap (Event.answer n) =
        events.filterMap (Event.answer n) := by simp [Event.answer]
    simp only [AllTraced, Numbered, hsame]
    rw [GossipExpansion.next, GossipExpansion.considerAdvert]
    split_ifs
    · exact ⟨h, hnumbered⟩
    · refine ⟨fun n x hx => ?_, fun n hn => hnumbered n ?_⟩
      · rcases Nat.lt_or_ge n s.expansions.length with hlt | hge
        · exact h n x (by rwa [List.getElem?_append_left hlt] at hx)
        · -- A number that was not in use has no answers yet.
          rw [hnumbered n hge]
          rw [List.getElem?_append_right hge] at hx
          obtain rfl := List.mem_singleton.1 (List.mem_of_getElem? hx)
          exact .asked
      · exact le_trans (by simp) hn
  | resume m result =>
    obtain ⟨y, hy, hawaits⟩ := hawaited
    have hlt := (List.getElem?_eq_some_iff.1 hy).1
    refine ⟨fun n x hx => ?_, fun n hn => ?_⟩
    · rw [GossipExpansion.next, List.getElem?_modify] at hx
      rw [List.filterMap_append]
      by_cases hn : m = n
      · subst hn
        simp only [hy, if_true, Option.map_eq_map, Option.map_some, Option.some.injEq] at hx
        subst hx
        simpa [Event.answer] using (h m y hy).resume hawaits
      · simp only [hn, if_false, Option.map_eq_map, Option.map_id'] at hx
        simpa [Event.answer, hn] using h n x hx
    · rw [GossipExpansion.next, List.length_modify] at hn
      have hne : m ≠ n := by omega
      simpa [Event.answer, hne] using hnumbered n hn

/-- At any time, what the caller has been called with for a candidate is what follows from all that
    it has answered about it. -/
theorem expansion_calls (selfDeviceId : DeviceId) (events : List (Event Session))
    (h : Machine.Along (next selfDeviceId) Awaited ⟨[], []⟩ events) :
    ∀ (n : ℕ) (x : Expansion Session),
      (Machine.run (next selfDeviceId) ⟨[], []⟩ events).expansions[n]? = some x →
        x.Traced (events.filterMap (Event.answer n)) := by
  suffices hall : AllTraced events (Machine.run (next selfDeviceId) ⟨[], []⟩ events) ∧
      Numbered events (Machine.run (next selfDeviceId) ⟨[], []⟩ events) from hall.1
  induction events using List.reverseRecOn with
  | nil => exact ⟨by simp [AllTraced], by simp [Numbered]⟩
  | append_singleton events e ih =>
    obtain ⟨hbefore, hawaited⟩ := h.concat
    rw [Machine.run_append]
    exact (ih hbefore).1.next (ih hbefore).2 hawaited

theorem expansion_calls_sample : (⟨⟨.pad [2], ["a"]⟩, .done,
    [.shouldExpand, .dial "a", .onExpanded "a" ()]⟩ : Expansion Unit).Traced
      [.decided (.ok true), .dialled () (.ok ())] := by
  have hother : DeviceId.pad [2] ≠ .pad [1] := by decide
  refine expansion_calls (.pad [1]) [.considerAdvert ⟨.pad [2], ["a"]⟩,
    .resume 0 (.decided (.ok true)), .resume 0 (.dialled () (.ok ()))] ?_ 0 _ ?_
  · simp [Machine.along_cons, Machine.along_nil, Awaited, next, considerAdvert, deviceIdToHex_inj,
      hother, Expansion.resume, Expansion.dialInOrder, Stage.Awaits]
  · simp [next, considerAdvert, deviceIdToHex_inj, hother, Expansion.resume, Expansion.dialInOrder]

end WireMesh.TypeScript.GossipExpansion
