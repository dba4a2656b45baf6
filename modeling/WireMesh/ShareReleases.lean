import Mathlib.Data.Fintype.Basic
import Mathlib.Data.List.Perm.Basic
import WireMesh.NonceUse

/-!
# Shares of a session

A nonce store remembers the nonces that are stored, and nothing else: once the nonces of a session
have been taken, its session-id may be committed again, and a second share be released for it. And
neither participant looks at the deadline of a session when it signs.

* `one_share_per_session`: a session-id has one share at most, unless it is committed again after
  its nonces have been taken.
* `no_share_after_deadline`: a session that has been answered or aborted when the clock reaches its
  deadline gives no share later, and has no nonces left.
-/

namespace WireMesh.TypeScript.Threshold

open Machine

variable {ι : Type}

/-! ## Shares -/

/-- The session for which nonces have been taken, while its share has not been sent. -/
def Custody.session (c : Custody) : Option ℕ := (c.held.map Prod.fst).or c.minting

/-- The session has been answered, or is about to be. -/
def State.Answered (x : State ι) (sessionId : ℕ) : Prop :=
  ∃ i, (x.loops i).custody.session = some sessionId ∨
    ∃ r ∈ (x.loops i).releases, r.sessionId = sessionId

/-- The event commits to a session that has been answered. -/
def Recommits (sessionId : ℕ) (x : State ι) : Event ι → Prop
  | .loop i event =>
    (∃ params ∈ (x.loops i).commits event, params.sessionId = sessionId) ∧ x.Answered sessionId
  | .clock _ => False

/-- Where a share of a session is, or is about to be. -/
inductive SharePlace (ι : Type)
  | busy (loop : ι)
  | released (loop : ι) (number : ℕ)
deriving DecidableEq

def State.shares (x : State ι) (sessionId : ℕ) : SharePlace ι → Option ℕ
  | .busy i => (x.loops i).custody.session.filter (· = sessionId)
  | .released i j => ((x.loops i).releases[j]?.map Release.sessionId).filter (· = sessionId)

/-- The session-ids that have no nonces in the store. -/
def World.unstored (w : World) : Set ℕ := {sessionId | w.store.get sessionId = none}

theorem World.mem_unstored {w : World} {sessionId : ℕ} :
    sessionId ∈ w.unstored ↔ w.store.get sessionId = none := .rfl

theorem unstored_delete (w : World) (sessionId : ℕ) :
    w.unstored ⊆ World.unstored { w with store := w.store.delete sessionId } := by
  grind [World.mem_unstored, OrderedMap.get_delete]

section Shares

variable {x : State ι} {i : ι} {w : World} {l : Loop} {event : LoopEvent}
  {sessionId : ℕ}

theorem answered_of_shares {p : SharePlace ι} {a : ℕ} (h : x.shares sessionId p = some a) :
    a = sessionId ∧ x.Answered sessionId := by
  rcases p with i | ⟨i, j⟩
  · obtain ⟨hsession, ha⟩ := Option.filter_eq_some_iff.1 h
    obtain rfl := of_decide_eq_true ha
    exact ⟨rfl, i, .inl hsession⟩
  · obtain ⟨hrelease, ha⟩ := Option.filter_eq_some_iff.1 h
    obtain rfl := of_decide_eq_true ha
    obtain ⟨r, hr, hsession⟩ := Option.map_eq_some_iff.1 hrelease
    exact ⟨rfl, i, .inr ⟨r, List.mem_of_getElem? hr, hsession⟩⟩

/-- A loop with a share has used the nonces. -/
theorem held_of_minting (h : l.custody.minting = some sessionId) : l.custody.held = none := by
  grind [Loop.custody]

theorem shares_released {j : ℕ} {r : Release} (h : (x.loops i).releases[j]? = some r)
    (hr : r.sessionId = sessionId) : x.shares sessionId (.released i j) = some sessionId := by
  rw [State.shares, h, Option.map_some, hr, Option.filter_some, if_pos (decide_eq_true rfl)]

variable [DecidableEq ι]

theorem shares_update (p : SharePlace ι) :
    State.shares { world := w, loops := Function.update x.loops i l } sessionId p = match p with
      | .busy k =>
        if k = i then l.custody.session.filter (· = sessionId)
        else x.shares sessionId (.busy k)
      | .released k j =>
        if k = i then (l.custody.releases[j]?.map Release.sessionId).filter (· = sessionId)
        else x.shares sessionId (.released k j) := by grind [State.shares, Loop.custody]

theorem tracked_shares_effect (h : Tracked (x.shares sessionId) x.world.unstored)
    (hrecommits : ¬Recommits sessionId x (.loop i event))
    (heffect : Effect x.world (x.loops i) event w l.custody) :
    Tracked (State.shares { world := w, loops := Function.update x.loops i l } sessionId)
      w.unstored := by
  have hreleases : (x.loops i).custody.releases = (x.loops i).releases := rfl
  generalize hcustody : l.custody = c at heffect
  cases heffect with
  | keep hc =>
    refine h.congr fun p => ?_
    rcases p <;> grind [shares_update, State.shares]
  | drop hc =>
    refine (h.drop (.busy i)).congr fun p => ?_
    rcases p <;> grind [shares_update, State.shares, Custody.session]
  | lose hc =>
    refine Tracked.congr h fun p => ?_
    rcases p <;> grind [shares_update, State.shares]
  | @persist _ params bytes hcommits hdeadline hc =>
    refine (h.revise fun {p a} hp => ?_).congr fun p => ?_
    · -- No share is there of a session that is committed to now.
      obtain ⟨rfl, hanswered⟩ := answered_of_shares hp
      have hne : a ≠ params.sessionId := fun heq =>
        hrecommits ⟨⟨params, hcommits, heq.symm⟩, hanswered⟩
      have hnone : x.world.store.get a = none := h.mem_issued hp
      rw [World.mem_unstored, OrderedMap.get_set, if_neg hne, hnone]
    · rcases p <;> grind [shares_update, State.shares]
  | @discard _ other hc =>
    refine (h.mono (unstored_delete _ other)).congr fun p => ?_
    rcases p <;> grind [shares_update, State.shares]
  | @take _ other nonces hget hc =>
    rcases eq_or_ne other sessionId with rfl | hne
    · have hstored : other ∉ x.world.unstored := by simp [World.mem_unstored, hget]
      refine ((h.issue (.busy i) hstored).mono ?_).congr fun p => ?_
      · grind [World.mem_unstored, OrderedMap.get_delete]
      · rcases p <;> grind [shares_update, State.shares, Custody.session]
    · refine ((h.drop (.busy i)).mono (unstored_delete _ other)).congr fun p => ?_
      rcases p <;> grind [shares_update, State.shares, Custody.session]
  | @sign _ s m hheld hminting hc =>
    rcases m with _ | other
    · refine (h.drop (.busy i)).congr fun p => ?_
      rcases p <;> grind [shares_update, State.shares, Custody.session]
    · have hother : other = s.sessionId := hminting other rfl
      grind [Tracked.congr, shares_update, State.shares, Custody.session]
  | @release _ r hminting htime hc =>
    have hheld := held_of_minting hminting
    refine (h.move (.busy i) (.released i (x.loops i).releases.length)).congr fun p => ?_
    rcases p <;> grind [shares_update, State.shares, Custody.session]

theorem tracked_shares {options : ι → Options} {now : ℕ} {events : List (Event ι)}
    (h : Along (next options) (fun x e => ¬Recommits sessionId x e) (init now) events) :
    Tracked ((run (next options) (init now) events).shares sessionId)
      (run (next options) (init now) events).world.unstored := by
  refine run_along (P := fun x : State ι => Tracked (x.shares sessionId) x.world.unstored) ?_ ?_ h
  · refine (Tracked.empty _).congr fun p => ?_
    rcases p <;> rfl
  · rintro x (⟨i, event⟩ | now) h hrecommits
    · exact tracked_shares_effect h hrecommits (effect_step _ _ _ _)
    · exact h

end Shares

/-! ## Deadlines -/

/-- No nonces of the session are stored or in use, and none of its shares is about to be sent. -/
def State.Idle (x : State ι) (sessionId : ℕ) : Prop :=
  x.world.store.get sessionId = none ∧ ∀ i, (x.loops i).custody.session ≠ some sessionId

/-- The session is committed to for a deadline of `t` at most, and the clock reaches `t` only when
    the session is idle. -/
def Timely (sessionId t : ℕ) (x : State ι) : Event ι → Prop
  | .loop i event =>
    ∀ params ∈ (x.loops i).commits event, params.sessionId = sessionId → params.deadline ≤ t
  | .clock now => t ≤ now → x.Idle sessionId

/-- All shares of the session have been sent before the deadline, and afterwards it is idle. -/
@[grind cases]
structure State.Punctual (x : State ι) (sessionId t : ℕ) : Prop where
  idle : t ≤ x.world.now → x.Idle sessionId
  releases : ∀ i, ∀ r ∈ (x.loops i).releases, r.sessionId = sessionId → r.time < t

section Effect

variable {w w' : World} {l : Loop} {event : LoopEvent} {c : Custody} {sessionId : ℕ}

theorem now_effect (h : Effect w l event w' c) : w'.now = w.now := by
  rcases h <;> rfl

theorem releases_effect (h : Effect w l event w' c) {r : Release} (hr : r ∈ c.releases) :
    r ∈ l.releases ∨ l.custody.session = some r.sessionId ∧ r.time = w.now := by
  cases h with
  | keep hc | drop hc | lose hc | persist _ _ hc | discard hc | take _ hc | sign _ _ hc =>
    rw [hc] at hr
    exact .inl hr
  | release hminting htime hc => grind [Custody.session, held_of_minting]

/-- Only a commitment brings a session to life. -/
theorem idle_effect (h : Effect w l event w' c) (hstore : w.store.get sessionId = none)
    (hsession : l.custody.session ≠ some sessionId)
    (hcommits : ∀ params ∈ l.commits event, params.sessionId = sessionId →
      params.deadline ≤ w.now) :
    w'.store.get sessionId = none ∧ c.session ≠ some sessionId := by
  cases h with
  | keep hc | lose hc => exact ⟨hstore, hc ▸ hsession⟩
  | drop hc => exact ⟨hstore, by simp [hc, Custody.session]⟩
  | persist hparams hdeadline hc => grind [OrderedMap.get_set]
  | discard hc => exact ⟨by rw [OrderedMap.get_delete, hstore, ite_self], hc ▸ hsession⟩
  | take hget hc =>
    refine ⟨by rw [OrderedMap.get_delete, hstore, ite_self], ?_⟩
    -- What is taken has been stored.
    grind [Custody.session]
  | @sign _ s m hheld hminting hc =>
    refine ⟨hstore, fun hm => hsession ?_⟩
    obtain rfl : m = some sessionId := by simpa [hc, Custody.session] using hm
    rw [hminting sessionId rfl, Custody.session, hheld]
    rfl
  | release hminting htime hc => exact ⟨hstore, by simp [hc, Custody.session]⟩

end Effect

section Deadlines

variable [DecidableEq ι] {options : ι → Options} {x : State ι} {sessionId t : ℕ}

theorem punctual_next {i : ι} {event : LoopEvent} (h : x.Punctual sessionId t)
    (htimely : Timely sessionId t x (.loop i event)) :
    (next options x (.loop i event)).Punctual sessionId t := by
  have heffect := effect_step (options i) x.world (x.loops i) event
  refine ⟨fun ht => ?_, fun k r hr hsession => ?_⟩
  · replace ht : t ≤ x.world.now := now_effect heffect ▸ ht
    obtain ⟨hstore, hsession⟩ := h.idle ht
    obtain ⟨hstore', hsession'⟩ := idle_effect heffect hstore (hsession i)
      fun params hparams heq => (htimely params hparams heq).trans ht
    refine ⟨hstore', fun k => ?_⟩
    rcases eq_or_ne k i with rfl | hne
    · rwa [loops_next_self]
    · rw [loops_next_ne hne]
      exact hsession k
  · rcases eq_or_ne k i with rfl | hne
    · rw [loops_next_self] at hr
      rcases releases_effect heffect hr with hr | ⟨hbusy, htime⟩
      · exact h.releases k r hr hsession
      · -- The share is sent now, when the session is not idle.
        rw [htime]
        by_contra! ht
        exact (h.idle ht).2 k (hsession ▸ hbusy)
    · grind [loops_next_ne]

theorem punctual_run {now : ℕ} {events : List (Event ι)}
    (h : Along (next options) (Timely sessionId t) (init now) events) :
    (run (next options) (init now) events).Punctual sessionId t := by
  refine run_along (P := fun x : State ι => x.Punctual sessionId t) ?_ ?_ h
  · refine ⟨fun _ => ⟨rfl, fun i hi => ?_⟩, fun i r hr => ?_⟩
    · cases hi
    · cases hr
  · rintro x (⟨i, event⟩ | now) h htimely
    · exact punctual_next h htimely
    · exact ⟨htimely, h.releases⟩

end Deadlines

end WireMesh.TypeScript.Threshold

namespace WireMesh.Rust.Threshold

open Machine

variable {frost : Frost} {quote : String → String}

/-! ## Shares -/

/-- The session-ids of the shares that have been released, or are about to be. -/
def State.shares (x : State) : List ℕ :=
  x.minting.map Minting.sessionId ++ x.releases.map Release.sessionId

/-- The event commits to a session that has been answered. -/
def Recommits (sessionId : ℕ) (x : State) : Event → Prop
  | .commit _ params => params.sessionId = sessionId ∧ sessionId ∈ x.shares
  | _ => False

/-- A session has one share at most, and none while its nonces are stored. -/
@[grind cases]
structure State.Single (x : State) (sessionId : ℕ) : Prop where
  count : x.shares.count sessionId ≤ 1
  unstored : sessionId ∈ x.shares → x.world.store.get sessionId = none

/-- The share of a call is released. -/
theorem shares_release {x : State} {call : ℕ} {m : Minting} {r : Release}
    (hm : x.minting[call]? = some m) (hsession : r.sessionId = m.sessionId) :
    (State.shares { x with
      minting := x.minting.eraseIdx call, releases := x.releases ++ [r] }).Perm x.shares := by
  obtain ⟨hcall, rfl⟩ := List.getElem?_eq_some_iff.1 hm
  grind [List.getElem_cons_eraseIdx_perm, State.shares]

theorem single_effect {x x' : State} {e : Event} {sessionId : ℕ} (h : x.Single sessionId)
    (hrecommits : ¬Recommits sessionId x e) (heffect : Effect quote x e x') :
    x'.Single sessionId := by
  cases heffect with
  | keep | clock | lose => exact ⟨h.count, h.unstored⟩
  | persist hdeadline hdecide hstates =>
    refine ⟨h.count, fun hmem => ?_⟩
    rw [OrderedMap.get_set, if_neg, h.unstored hmem]
    rintro rfl
    exact hrecommits ⟨rfl, hmem⟩
  | discard =>
    refine ⟨h.count, fun hmem => ?_⟩
    rw [OrderedMap.get_delete, h.unstored hmem, ite_self]
  | @sign _ other state nonces minting hstate hget hminting =>
    -- The nonces of the session that signs have been stored, so it has no share yet.
    have hnone : sessionId = other → sessionId ∉ x.shares := by grind
    have hstore : sessionId ∈ x.shares ∨ sessionId = other →
        (x.world.store.delete other).get sessionId = none := by grind [OrderedMap.get_delete]
    rcases hminting with rfl | ⟨m, rfl, rfl⟩
    · exact ⟨h.count, fun hmem => hstore (.inl hmem)⟩
    · have hperm : (State.shares { x with minting := x.minting ++ [m] }).Perm
          (m.sessionId :: x.shares) := by
        simp [State.shares, List.perm_middle]
      refine ⟨?_, fun hmem => hstore ?_⟩
      · refine (hperm.count_eq sessionId).trans_le ?_
        grind
      · exact (List.mem_cons.1 (hperm.mem_iff.1 hmem)).symm
  | release hm hsession htime => constructor <;> grind [shares_release]

theorem single_run {now sessionId : ℕ} {events : List Event}
    (h : Along (next frost quote) (fun x e => ¬Recommits sessionId x e) (init now) events) :
    (run (next frost quote) (init now) events).Single sessionId := by
  refine run_along (P := fun x : State => x.Single sessionId) ?_
    (fun x e h hrecommits => single_effect h hrecommits (effect_next x e)) h
  exact ⟨Nat.zero_le _, fun hmem => by cases hmem⟩

/-! ## Deadlines -/

/-- No nonces of the session are stored, and none of its shares is about to be released. -/
def State.Idle (x : State) (sessionId : ℕ) : Prop :=
  x.world.store.get sessionId = none ∧ ∀ m ∈ x.minting, m.sessionId ≠ sessionId

/-- The session is committed to for a deadline of `t` at most, and the clock reaches `t` only when
    the session is idle. -/
def Timely (sessionId t : ℕ) (x : State) : Event → Prop
  | .commit _ params => params.sessionId = sessionId → params.deadline ≤ t
  | .clock now => t ≤ now → x.Idle sessionId
  | _ => True

/-- All shares of the session have been released before the deadline, and afterwards it is idle. -/
@[grind cases]
structure State.Punctual (x : State) (sessionId t : ℕ) : Prop where
  idle : t ≤ x.world.now → x.Idle sessionId
  releases : ∀ r ∈ x.releases, r.sessionId = sessionId → r.time < t

theorem punctual_effect {x x' : State} {e : Event} {sessionId t : ℕ}
    (h : x.Punctual sessionId t) (htimely : Timely sessionId t x e)
    (heffect : Effect quote x e x') : x'.Punctual sessionId t := by
  cases heffect with
  | keep => exact h
  | clock => exact ⟨htimely, h.releases⟩
  | lose => exact ⟨h.idle, h.releases⟩
  | persist hdeadline hdecide hstates =>
    refine ⟨fun ht => ⟨?_, (h.idle ht).2⟩, h.releases⟩
    rw [OrderedMap.get_set, if_neg, (h.idle ht).1]
    rintro rfl
    exact absurd (hdeadline.trans_le (htimely rfl)) (Nat.not_lt.2 ht)
  | discard =>
    refine ⟨fun ht => ⟨?_, (h.idle ht).2⟩, h.releases⟩
    rw [OrderedMap.get_delete, (h.idle ht).1, ite_self]
  | @sign _ other state nonces minting hstate hget hminting =>
    refine ⟨fun ht => ?_, h.releases⟩
    obtain ⟨hstore, hidle⟩ := h.idle ht
    have hne : other ≠ sessionId := by
      rintro rfl
      rw [hstore] at hget
      cases hget
    refine ⟨by rw [OrderedMap.get_delete, hstore, ite_self], fun m hm => ?_⟩
    grind
  | release hm hsession htime =>
    refine ⟨fun ht => ?_, fun r hr hr' => ?_⟩
    · obtain ⟨hstore, hidle⟩ := h.idle ht
      exact ⟨hstore, fun m hmem => hidle m (List.mem_of_mem_eraseIdx hmem)⟩
    rcases List.mem_append.1 hr with hr | hr
    · exact h.releases r hr hr'
    · -- The share is released now, when the session is not idle.
      obtain rfl := List.mem_singleton.1 hr
      rw [htime]
      by_contra! ht
      exact (h.idle ht).2 _ (List.mem_of_getElem? hm) (hsession ▸ hr')

theorem punctual_run {now sessionId t : ℕ} {events : List Event}
    (h : Along (next frost quote) (Timely sessionId t) (init now) events) :
    (run (next frost quote) (init now) events).Punctual sessionId t := by
  refine run_along (P := fun x : State => x.Punctual sessionId t) ?_
    (fun x e h htimely => punctual_effect h htimely (effect_next x e)) h
  exact ⟨fun _ => ⟨rfl, fun m hm => by cases hm⟩, fun r hr => by cases hr⟩

end WireMesh.Rust.Threshold

namespace WireMesh

open Machine

/-! ## Samples -/

def ThresholdCommit.sample (sessionId : ℕ) : ThresholdCommit where
  sessionId := sessionId
  group := .pad [9]
  subject := { kind := "capability-token", protectedHeader := [], payload := [1] }
  deadline := 10

def ThresholdSign.sample (sessionId : ℕ) : ThresholdSign where
  sessionId := sessionId
  commitments := [{ participant := .pad [1], hidingPoint := [2], bindingPoint := [3] }]

/-- The points of a commitment are not points. -/
def ThresholdSign.malformed (sessionId : ℕ) : ThresholdSign where
  sessionId := sessionId
  commitments := [{ participant := .pad [1], hidingPoint := [], bindingPoint := [] }]

/-- Points that are not empty are well formed. -/
def combineSample (hidingPoint bindingPoint : Bytes) : Except String Bytes :=
  if hidingPoint = [] then .error "malformed commitment" else .ok (hidingPoint ++ bindingPoint)

namespace TypeScript.Threshold

def Frost.sample : Frost where
  signingRound1Commit _ n := .ok ([n.toUInt8], [n.toUInt8])
  splitCommitments commitments := .ok (commitments, commitments)
  combineCommitments := combineSample
  signingBuildPackage _ message := .ok message
  signingRound2Sign nonces _ _ := .ok nonces

def Options.sample : Options where
  personalIdentity := .sample 1
  keyPackagesByGroup _ := some []
  authorise _ := none
  stringify := id
  frost := .sample

/-- The only loop handles an authorised request to its end. -/
def handling (params : Params) : List (Event Unit) :=
  [.request { verb := thresholdSignVerb, token := some ((Identity.sample 0).seal []), params },
    .verdict (.ok (some { TokenClaims.sample [1] 0 1 thresholdSignVerb with
      scope := { kind := "group", path := none } })),
    .resume, .resume, .resume].map (.loop ())

def handlingSession (sessionId : ℕ) : List (Event Unit) :=
  handling (.commit (.sample sessionId)) ++ handling (.sign (.sample sessionId))

instance {ι : Type} [Fintype ι] (x : State ι) (sessionId : ℕ) : Decidable (x.Answered sessionId) :=
  inferInstanceAs (Decidable (∃ i, _ ∨ ∃ r ∈ (x.loops i).releases, _))

instance {ι : Type} [Fintype ι] (sessionId : ℕ) (x : State ι) :
    ∀ e, Decidable (Recommits sessionId x e)
  | .loop i event =>
    inferInstanceAs (Decidable ((∃ params ∈ (x.loops i).commits event, _) ∧ _))
  | .clock _ => inferInstanceAs (Decidable False)

instance {ι : Type} [Fintype ι] (x : State ι) (sessionId : ℕ) : Decidable (x.Idle sessionId) :=
  inferInstanceAs (Decidable (_ ∧ ∀ i, (x.loops i).custody.session ≠ _))

instance {ι : Type} [Fintype ι] (sessionId t : ℕ) (x : State ι) :
    ∀ e, Decidable (Timely sessionId t x e)
  | .loop i event =>
    inferInstanceAs (Decidable (∀ params ∈ (x.loops i).commits event, _ → _ ≤ _))
  | .clock _ => inferInstanceAs (Decidable (_ → _))

end TypeScript.Threshold

namespace Rust.Threshold

def Frost.sample : Frost where
  commit _ n := ([n.toUInt8], [n.toUInt8])
  splitCommitments commitments := .ok (commitments, commitments)
  combineCommitments := combineSample
  identifierForDevice device := .ok device.bytes
  signingPackage _ message := message
  sign _ nonces _ := .ok nonces

def CommitContext.sample : CommitContext where
  ownDeviceId := .pad [1]
  keyPackageOfGroup _ := some []
  authorise _ := none

def SignContext.sample : SignContext where
  keyPackage := []
  personalIdentity := .sample 1
  group := .pad [9]

/-- A commitment and a signature with the `state`th state. -/
def callsOfSession (sessionId state : ℕ) : List Event :=
  [.commit .sample (.sample sessionId), .sign .sample (.sample sessionId) state, .mint 0]

instance (sessionId : ℕ) (x : State) : ∀ e, Decidable (Recommits sessionId x e)
  | .commit _ _ => inferInstanceAs (Decidable (_ ∧ _))
  | .sign _ _ _ | .abort _ | .mint _ | .clock _ => inferInstanceAs (Decidable False)

instance (x : State) (sessionId : ℕ) : Decidable (x.Idle sessionId) :=
  inferInstanceAs (Decidable (_ ∧ ∀ m ∈ x.minting, _ ≠ _))

instance (sessionId t : ℕ) (x : State) : ∀ e, Decidable (Timely sessionId t x e)
  | .commit _ _ => inferInstanceAs (Decidable (_ → _ ≤ _))
  | .clock _ => inferInstanceAs (Decidable (_ → _))
  | .sign _ _ _ | .abort _ | .mint _ => inferInstanceAs (Decidable True)

end Rust.Threshold

/-! ## Results -/

/-- A session-id that is not committed to after its nonces have been taken has one share at most,
    in all loops of a participant together. -/
theorem one_share_per_session {ι : Type} [DecidableEq ι]
    {options : ι → TypeScript.Threshold.Options} {events : List (TypeScript.Threshold.Event ι)}
    {frost : Rust.Threshold.Frost} {quote : String → String} {calls : List Rust.Threshold.Event}
    {now sessionId : ℕ}
    (hevents : Along (TypeScript.Threshold.next options)
      (fun x e => ¬TypeScript.Threshold.Recommits sessionId x e)
      (TypeScript.Threshold.init now) events)
    (hcalls : Along (Rust.Threshold.next frost quote)
      (fun x e => ¬Rust.Threshold.Recommits sessionId x e) (Rust.Threshold.init now) calls) :
    (let x := run (TypeScript.Threshold.next options) (TypeScript.Threshold.init now) events
     ∀ (i i' : ι) (j j' : ℕ) (r r' : TypeScript.Threshold.Release),
       (x.loops i).releases[j]? = some r → (x.loops i').releases[j']? = some r' →
         r.sessionId = sessionId → r'.sessionId = sessionId → i = i' ∧ j = j') ∧
    let x := run (Rust.Threshold.next frost quote) (Rust.Threshold.init now) calls
    (x.releases.map Rust.Threshold.Release.sessionId).count sessionId ≤ 1 := by
  refine ⟨fun i i' j j' r r' hr hr' heq heq' => ?_, ?_⟩
  · exact TypeScript.Threshold.SharePlace.released.inj
      ((TypeScript.Threshold.tracked_shares hevents).unique
        (TypeScript.Threshold.shares_released hr heq)
        (TypeScript.Threshold.shares_released hr' heq'))
  · have hcount := (Rust.Threshold.single_run hcalls).count
    rw [Rust.Threshold.State.shares, List.count_append] at hcount
    exact (Nat.le_add_left _ _).trans hcount

theorem one_share_per_session_sample :
    (let x := run (TypeScript.Threshold.next fun _ => .sample) (TypeScript.Threshold.init 0)
       (TypeScript.Threshold.handlingSession 1)
     (x.loops ()).releases.map TypeScript.Threshold.Release.sessionId = [1] ∧
     ∀ (i i' : Unit) (j j' : ℕ) (r r' : TypeScript.Threshold.Release),
       (x.loops i).releases[j]? = some r → (x.loops i').releases[j']? = some r' →
         r.sessionId = 1 → r'.sessionId = 1 → i = i' ∧ j = j') ∧
    let x := run (Rust.Threshold.next .sample id) (Rust.Threshold.init 0)
      (Rust.Threshold.callsOfSession 1 0)
    x.releases.map Rust.Threshold.Release.sessionId = [1] ∧
    (x.releases.map Rust.Threshold.Release.sessionId).count 1 ≤ 1 := by
  have hevents : Along (TypeScript.Threshold.next fun _ => .sample)
      (fun x e => ¬TypeScript.Threshold.Recommits 1 x e) (TypeScript.Threshold.init 0)
      (TypeScript.Threshold.handlingSession 1) := by decide +kernel
  have hcalls : Along (Rust.Threshold.next .sample id)
      (fun x e => ¬Rust.Threshold.Recommits 1 x e) (Rust.Threshold.init 0)
      (Rust.Threshold.callsOfSession 1 0) := by decide +kernel
  obtain ⟨hshares, hcount⟩ := one_share_per_session hevents hcalls
  exact ⟨⟨by decide +kernel, hshares⟩, by decide +kernel, hcount⟩

/-- A session-id that is committed to again has a second share. -/
theorem second_share_of_session :
    (let x := run (TypeScript.Threshold.next fun _ => .sample) (TypeScript.Threshold.init 0)
       (TypeScript.Threshold.handlingSession 1 ++ TypeScript.Threshold.handlingSession 1)
     (x.loops ()).releases.map TypeScript.Threshold.Release.sessionId = [1, 1]) ∧
    let x := run (Rust.Threshold.next .sample id) (Rust.Threshold.init 0)
      (Rust.Threshold.callsOfSession 1 0 ++ Rust.Threshold.callsOfSession 1 1)
    x.releases.map Rust.Threshold.Release.sessionId = [1, 1] := by
  decide +kernel

/-- A session that is idle whenever the clock reaches its deadline releases no share from then on,
    and has no nonces that could be used. -/
theorem no_share_after_deadline {ι : Type} [DecidableEq ι]
    {options : ι → TypeScript.Threshold.Options} {events : List (TypeScript.Threshold.Event ι)}
    {frost : Rust.Threshold.Frost} {quote : String → String} {calls : List Rust.Threshold.Event}
    {now sessionId t : ℕ}
    (hevents : Along (TypeScript.Threshold.next options)
      (TypeScript.Threshold.Timely sessionId t) (TypeScript.Threshold.init now) events)
    (hcalls : Along (Rust.Threshold.next frost quote) (Rust.Threshold.Timely sessionId t)
      (Rust.Threshold.init now) calls) :
    (let x := run (TypeScript.Threshold.next options) (TypeScript.Threshold.init now) events
     (∀ i, ∀ r ∈ (x.loops i).releases, r.sessionId = sessionId → r.time < t) ∧
     (t ≤ x.world.now → x.Idle sessionId)) ∧
    let x := run (Rust.Threshold.next frost quote) (Rust.Threshold.init now) calls
    (∀ r ∈ x.releases, r.sessionId = sessionId → r.time < t) ∧
    (t ≤ x.world.now → x.Idle sessionId) := by
  have hpunctual := TypeScript.Threshold.punctual_run hevents
  have hpunctual' := Rust.Threshold.punctual_run hcalls
  exact ⟨⟨hpunctual.releases, hpunctual.idle⟩, hpunctual'.releases, hpunctual'.idle⟩

/-- One session is answered before the deadline, and another one is aborted. -/
theorem no_share_after_deadline_sample :
    (let x := run (TypeScript.Threshold.next fun _ => .sample) (TypeScript.Threshold.init 0)
       (TypeScript.Threshold.handlingSession 1 ++ [.clock 20] ++
         TypeScript.Threshold.handling (.sign (.sample 1)))
     x.world.now = 20 ∧
     (x.loops ()).releases.map TypeScript.Threshold.Release.sessionId = [1] ∧
     (∀ i, ∀ r ∈ (x.loops i).releases, r.sessionId = 1 → r.time < 10) ∧
     (10 ≤ x.world.now → x.Idle 1)) ∧
    let x := run (Rust.Threshold.next .sample id) (Rust.Threshold.init 0)
      (Rust.Threshold.callsOfSession 1 0 ++ [.commit .sample (.sample 1), .abort 1, .clock 20,
        .sign .sample (.sample 1) 1, .mint 0])
    x.world.now = 20 ∧ x.releases.map Rust.Threshold.Release.sessionId = [1] ∧
    (∀ r ∈ x.releases, r.sessionId = 1 → r.time < 10) ∧ (10 ≤ x.world.now → x.Idle 1) := by
  have hevents : Along (TypeScript.Threshold.next fun _ => .sample)
      (TypeScript.Threshold.Timely 1 10) (TypeScript.Threshold.init 0)
      (TypeScript.Threshold.handlingSession 1 ++ [.clock 20] ++
        TypeScript.Threshold.handling (.sign (.sample 1))) := by decide +kernel
  have hcalls : Along (Rust.Threshold.next .sample id) (Rust.Threshold.Timely 1 10)
      (Rust.Threshold.init 0)
      (Rust.Threshold.callsOfSession 1 0 ++ [.commit .sample (.sample 1), .abort 1, .clock 20,
        .sign .sample (.sample 1) 1, .mint 0]) := by decide +kernel
  obtain ⟨hpunctual, hpunctual'⟩ := no_share_after_deadline hevents hcalls
  exact ⟨⟨by decide +kernel, by decide +kernel, hpunctual⟩, by decide +kernel, by decide +kernel,
    hpunctual'⟩

/-- The session is for the deadline 10. Its share is released at 20, and a signature at 20 that
    fails leaves its nonces. -/
theorem share_after_deadline :
    (let x := run (TypeScript.Threshold.next fun _ => .sample) (TypeScript.Threshold.init 0)
       (TypeScript.Threshold.handling (.commit (.sample 1)) ++ [.clock 20] ++
         TypeScript.Threshold.handling (.sign (.sample 1)))
     (x.loops ()).releases.map (fun r => (r.sessionId, r.time)) = [(1, 20)]) ∧
    (let x := run (Rust.Threshold.next .sample id) (Rust.Threshold.init 0)
       [.commit .sample (.sample 1), .clock 20, .sign .sample (.sample 1) 0, .mint 0]
     x.releases.map (fun r => (r.sessionId, r.time)) = [(1, 20)]) ∧
    let x := run (Rust.Threshold.next .sample id) (Rust.Threshold.init 0)
      [.commit .sample (.sample 1), .clock 20, .sign .sample (.malformed 1) 0]
    (x.world.store.get 1).isSome := by
  decide +kernel

end WireMesh
