import Mathlib.Data.List.Pairwise
import WireMesh.TypeScript.SecureChannel

/-!
# Delivery over a secure channel

What one end of a channel opens, whatever happens to the frames between the ends and however
the calls overlap.

* `step_sent`, `step_received`: what every step keeps about the sending and about the receiving.
* `secureChannel_delivery`: an end opens a subsequence of what the other end sealed; only a
  frame that the other end sealed advances its counter; and if the frames are delivered in
  order and without a loss, it opens them all.
-/

namespace WireMesh.TypeScript.SecureChannel

open Machine
open scoped List

/-! ## The order of counters -/

/-- A counter is issued before another one. Only the last one, which no frame can carry, is
    issued more than once. -/
def Before (c c' : ℕ) : Prop := c < c' ∨ 2 ^ 53 ≤ c'

theorem Before.lt {c c' : ℕ} (h : Before c c') (hlt : c' < 2 ^ 53) : c < c' :=
  h.resolve_right (by omega)

theorem before_increment {c n : ℕ} (h : c = n ∨ Before c n) : Before c (increment n) := by
  unfold Before increment at *
  omega

/-- An item that comes after all of a subsequence continues it. -/
theorem sublist_concat {Frame : Type} {accepted all : List (Sealed Frame)} {x : Sealed Frame}
    (hsub : accepted <+ all) (hx : x ∈ all) (hall : (all.map Sealed.counter).Pairwise Before)
    (hlt : x.counter < 2 ^ 53) (haccepted : ∀ y ∈ accepted, y.counter < x.counter) :
    accepted ++ [x] <+ all := by
  obtain ⟨before, after, rfl⟩ := List.append_of_mem hx
  rw [List.pairwise_map, List.pairwise_append, List.pairwise_cons] at hall
  obtain ⟨early, late, rfl, hearly, hlate⟩ := List.sublist_append_iff.1 hsub
  -- Nothing of the subsequence can come from after the item.
  have hnil : late = [] := by
    refine List.eq_nil_iff_forall_not_mem.2 fun y hy => ?_
    have hyx := haccepted y (List.mem_append_right _ hy)
    rcases List.mem_cons.1 (hlate.subset hy) with rfl | hafter
    · exact lt_irrefl _ hyx
    · rcases hall.2.1.1 y hafter with h | h <;> omega
  grind [List.Sublist.append]

/-- The items with one counter are the same. -/
theorem eq_of_counter_eq {Frame : Type} {all : List (Sealed Frame)} {x y : Sealed Frame}
    (hall : (all.map Sealed.counter).Pairwise Before) (hx : x ∈ all) (hy : y ∈ all)
    (hlt : x.counter < 2 ^ 53) (h : x.counter = y.counter) : x = y := by
  rw [List.pairwise_map] at hall
  let Apart (a b : Sealed Frame) : Prop :=
    a.counter < 2 ^ 53 → b.counter < 2 ^ 53 → a.counter ≠ b.counter
  have : Std.Symm Apart := ⟨fun a b hab hb ha => (hab ha hb).symm⟩
  have hapart : all.Pairwise Apart := hall.imp fun hab _ hb => (hab.lt hb).ne
  by_contra hxy
  exact hapart.forall hx hy hxy hlt (h ▸ hlt) h

/-! ## Sending -/

section Sending

variable {Key Frame : Type} {codec : FrameCodec Frame}

/-- The counters of the calls that have not settled, and the next one. -/
def Sealing.issued (q : Sealing Frame) : List ℕ :=
  (q.running.map fun x => x.2.1).toList ++ q.waiting.map Prod.snd ++ [q.nextSendCounter]

theorem Sealing.issued_call (q : Sealing Frame) (frame : Frame) :
    (q.call frame).issued = q.issued ++ [increment q.nextSendCounter] := by
  simp [issued, call]

theorem Sealing.issued_start (q : Sealing Frame) : (q.start codec).issued <+ q.issued := by
  unfold start
  split
  next frame counter waiting hrunning hwaiting =>
    cases codec.messageFromFrame frame <;> simp [issued, hrunning, hwaiting]
  next => exact .refl _

theorem Sealing.encoded_start {q : Sealing Frame}
    (hq : ∀ frame counter message, q.running = some (frame, counter, message) →
      codec.messageFromFrame frame = some message) {frame : Frame} {counter : ℕ} {message : Bytes}
    (h : (q.start codec).running = some (frame, counter, message)) :
    codec.messageFromFrame frame = some message := by grind [start, Option.map_eq_some_iff]

/-- The counters that an end has issued, in order, and the next one. -/
def State.issued (s : State Key Frame) (side : Side) : List ℕ :=
  (s.sealed side).map Sealed.counter ++ (s.sealing side).issued

/-- The encryption of a sealed frame. -/
def Encrypts (codec : FrameCodec Frame) (ends : Side → Channel Key) (side : Side)
    (x : Sealed Frame) (e : Encryption Key) : Prop :=
  ∃ message, codec.messageFromFrame x.frame = some message ∧
    e = encryption ends side x.counter message x.ciphertext

/-- What holds of the sending: the counters are issued in order, and what was encrypted is what
    was sealed. -/
@[grind cases]
structure Sent (codec : FrameCodec Frame) (ends : Side → Channel Key) (s : State Key Frame) :
    Prop where
  ordered : ∀ side, (s.issued side).Pairwise Before
  bounded : ∀ side, ∀ c ∈ s.issued side, c ≤ 2 ^ 53
  encoded : ∀ side frame counter message,
    (s.sealing side).running = some (frame, counter, message) →
      codec.messageFromFrame frame = some message
  logged : ∀ side, ∀ x ∈ s.sealed side, ∃ e ∈ s.log, Encrypts codec ends side x e
  encrypted : ∀ e ∈ s.log, ∃ side, ∃ x ∈ s.sealed side, Encrypts codec ends side x e

variable {ends : Side → Channel Key} {s t : State Key Frame}

theorem sent_init : Sent codec ends (.init Key Frame) where
  ordered _ := List.pairwise_singleton _ _
  bounded _ := by simp [State.issued, State.init, Sealing.issued]
  encoded := by simp [State.init]
  logged := by simp [State.init]
  encrypted := by simp [State.init]

theorem Sent.congr (h : Sent codec ends s) (hsealing : t.sealing = s.sealing)
    (hlog : t.log = s.log) (hsealed : t.sealed = s.sealed) : Sent codec ends t := by
  have hissued : t.issued = s.issued := by grind [State.issued]
  constructor
  · rw [hissued]; exact h.ordered
  · rw [hissued]; exact h.bounded
  · rw [hsealing]; exact h.encoded
  · rw [hlog, hsealed]; exact h.logged
  · rw [hlog, hsealed]; exact h.encrypted

/-- A change of the calls of one end. -/
theorem Sent.update (h : Sent codec ends s) {side : Side} {q : Sealing Frame}
    (hordered : ((s.sealed side).map Sealed.counter ++ q.issued).Pairwise Before)
    (hbounded : ∀ c ∈ (s.sealed side).map Sealed.counter ++ q.issued, c ≤ 2 ^ 53)
    (hencoded : ∀ frame counter message, q.running = some (frame, counter, message) →
      codec.messageFromFrame frame = some message) :
    Sent codec ends { s with sealing := Function.update s.sealing side q } where
  ordered side' := by
    by_cases hside : side' = side
    · subst hside
      simpa [State.issued] using hordered
    · simpa [State.issued, hside] using h.ordered side'
  bounded side' := by
    by_cases hside : side' = side
    · subst hside
      simpa [State.issued] using hbounded
    · simpa [State.issued, hside] using h.bounded side'
  encoded side' := by grind
  logged := h.logged
  encrypted := h.encrypted

theorem Sent.addSealed (h : Sent codec ends s) {side : Side} {x : Sealed Frame} {message : Bytes}
    (hrunning : (s.sealing side).running = some (x.frame, x.counter, message)) :
    Sent codec ends (s.addSealed ends side x message) := by
  have hissued : ∀ side', (s.addSealed ends side x message).issued side' = s.issued side' := by
    intro side'
    by_cases hside : side' = side
    · subst hside
      simp [State.addSealed, State.issued, Sealing.issued, hrunning]
    · simp [State.addSealed, State.issued, hside]
  have hencrypts : Encrypts codec ends side x
      (encryption ends side x.counter message x.ciphertext) :=
    ⟨message, h.encoded _ _ _ _ hrunning, rfl⟩
  have hsealed : ∀ side' y, y ∈ (s.addSealed ends side x message).sealed side' ↔
      y ∈ s.sealed side' ∨ side' = side ∧ y = x := by
    intro side' y
    by_cases hside : side' = side
    · subst hside
      simp [State.addSealed]
    · simp [State.addSealed, hside]
  refine ⟨fun side' => ?_, fun side' => ?_, fun side' => ?_, ?_, ?_⟩
  · rw [hissued]
    exact h.ordered side'
  · rw [hissued]
    exact h.bounded side'
  · by_cases hside : side' = side
    · subst hside
      simp [State.addSealed]
    · simpa [State.addSealed, hside] using h.encoded side'
  · intro side' y hy
    rcases (hsealed side' y).1 hy with hy | ⟨rfl, rfl⟩
    · obtain ⟨e, he, hy⟩ := h.logged side' y hy
      exact ⟨e, List.mem_append_left _ he, hy⟩
    · exact ⟨_, List.mem_append_right _ (List.mem_singleton_self _), hencrypts⟩
  · intro e he
    rcases List.mem_append.1 he with he | he
    · grind
    · grind

variable [DecidableEq Key]

theorem step_sent (h : Sent codec ends s) (e : Event Frame) :
    Sent codec ends (step codec ends s e) := by
  cases e with
  | callSeal side frame =>
    have hordered := h.ordered side
    refine h.update ?_ ?_ fun _ _ _ hrunning => h.encoded _ _ _ _ hrunning
    · rw [Sealing.issued_call, ← List.append_assoc]
      refine List.pairwise_append.2 ⟨hordered, List.pairwise_singleton _ _, ?_⟩
      intro c hc n hn
      rw [List.mem_singleton.1 hn]
      refine before_increment ?_
      rw [State.issued, Sealing.issued, ← List.append_assoc, List.pairwise_append] at hordered
      rw [Sealing.issued, ← List.append_assoc, List.mem_append, List.mem_singleton] at hc
      exact hc.symm.imp_right fun hc => hordered.2.2 c hc _ (List.mem_singleton_self _)
    · rw [Sealing.issued_call, ← List.append_assoc]
      refine List.forall_mem_append.2 ⟨h.bounded side, ?_⟩
      simp [increment]
  | startSeal side =>
    have hsub : (s.sealed side).map Sealed.counter ++ ((s.sealing side).start codec).issued <+
        (s.sealed side).map Sealed.counter ++ (s.sealing side).issued :=
      (s.sealing side).issued_start.append_left _
    exact h.update ((h.ordered side).sublist hsub) (fun c hc => h.bounded side c (hsub.subset hc))
      fun _ _ _ => Sealing.encoded_start (h.encoded side)
  | finishSeal side ciphertext => grind [step, Sent.addSealed]
  | callOpen side data => exact h.congr rfl rfl rfl
  | startOpen side => exact h.congr rfl rfl rfl
  | finishOpen side => exact h.congr rfl rfl rfl

end Sending

/-! ## Receiving -/

section Receiving

variable {Key Frame : Type} {codec : FrameCodec Frame}

/-- The frame is one of those that were sealed, with the given message. -/
def Authentic (codec : FrameCodec Frame) (all : List (Sealed Frame)) (data : SecureDataFrame)
    (message : Bytes) : Prop :=
  ∃ x ∈ all, x.counter = data.counter ∧ x.ciphertext = data.ciphertext ∧
    codec.messageFromFrame x.frame = some message

/-- What holds of an end that receives: the frames that were opened are a subsequence of those
    that were sealed, with counters up to the highest one, and a decryption that will succeed has
    a higher counter. -/
@[grind cases]
structure Received (codec : FrameCodec Frame) (all : List (Sealed Frame)) (q : Opening)
    (opened : List Frame) : Prop where
  opened : ∃ accepted, accepted <+ all ∧ opened = accepted.map Sealed.frame ∧
    ∀ x ∈ accepted, (x.counter : ℤ) ≤ q.highestReceived
  running : ∀ data message, q.running = some (data, some message) →
    q.highestReceived < data.counter ∧ Authentic codec all data message

variable {all all' : List (Sealed Frame)} {q : Opening} {opened : List Frame}

theorem received_init :
    Received codec all { highestReceived := -1, waiting := [], running := none } [] where
  opened := ⟨[], List.nil_sublist _, rfl, by simp⟩
  running := by simp

theorem Received.mono (h : Received codec all q opened) (hall : all <+: all') :
    Received codec all' q opened where
  opened := by grind [List.Sublist.trans, List.IsPrefix.sublist]
  running data message hrunning := by
    obtain ⟨hlt, x, hx, hauthentic⟩ := h.running data message hrunning
    exact ⟨hlt, x, hall.subset hx, hauthentic⟩

theorem Received.start (h : Received codec all q opened)
    {decryption : SecureDataFrame → Option Bytes}
    (hdecryption : ∀ data message, decryption data = some message →
      Authentic codec all data message) : Received codec all (q.start decryption) opened := by
  constructor <;> grind [Opening.start]

theorem Received.finish (h : Received codec all q opened)
    (hall : (all.map Sealed.counter).Pairwise Before) :
    Received codec all q.finish (opened ++ (q.result codec).toList) := by
  rcases hrunning : q.running with _ | ⟨data, _ | message⟩
  · simpa [Opening.finish, Opening.result, hrunning] using h
  · constructor <;> grind [Opening.finish, Opening.result]
  · obtain ⟨hlt, x, hx, hcounter, -, hmessage⟩ := h.running data message hrunning
    obtain ⟨accepted, hsub, rfl, hle⟩ := h.opened
    have hx53 : x.counter < 2 ^ 53 := hcounter ▸ data.counter_lt
    -- The frame comes after all those that were opened.
    have hafter : ∀ y ∈ accepted, y.counter < x.counter := fun y hy => by
      have hy := hle y hy
      omega
    simp only [Opening.finish, Opening.result, hrunning, codec.decode_encode hmessage]
    refine ⟨⟨accepted ++ [x], sublist_concat hsub hx hall hx53 hafter, by simp, ?_⟩, by simp⟩
    grind

variable {ends : Side → Channel Key} {s : State Key Frame} {side : Side}

theorem Matching.eq_of_deviceId_eq (hmatch : Matching ends) {side side' : Side}
    (h : (ends side).deviceId = (ends side').deviceId) : side = side' := by
  cases side <;> cases side' <;>
    first | rfl | exact absurd h hmatch.distinct | exact absurd h.symm hmatch.distinct

theorem Sent.counter_le (h : Sent codec ends s) {x : Sealed Frame} (hx : x ∈ s.sealed side) :
    x.counter ≤ 2 ^ 53 :=
  h.bounded side _ (List.mem_append_left _ (List.mem_map_of_mem hx))

theorem Sent.counters_ordered (h : Sent codec ends s) (side : Side) :
    ((s.sealed side).map Sealed.counter).Pairwise Before :=
  (List.pairwise_append.1 (h.ordered side)).1

variable [DecidableEq Key]

/-- What an end decrypts, the other end has sealed. -/
theorem authentic_of_decryption (hmatch : Matching ends) (h : Sent codec ends s)
    {data : SecureDataFrame} {message : Bytes}
    (hdecrypt : decryption ends s.log side data = some message) :
    Authentic codec (s.sealed side.other) data message := by
  obtain ⟨e, hfind, rfl⟩ := Option.map_eq_some_iff.1 hdecrypt
  have hmem := List.mem_of_find?_eq_some hfind
  have he := List.find?_some hfind
  simp only [decide_eq_true_eq] at he
  obtain ⟨-, -, hdata, hciphertext⟩ := he
  obtain ⟨side', x, hx, message, hmessage, rfl⟩ := h.encrypted e hmem
  have hcounter := h.counter_le hx
  have hlt := data.counter_lt
  obtain ⟨hsender, -, hcounter⟩ := associatedData_injective (by omega) (by omega) hdata
  rw [hmatch.peer] at hsender
  obtain rfl := hmatch.eq_of_deviceId_eq hsender
  exact ⟨x, hx, hcounter, hciphertext, hmessage⟩

theorem sealed_extends (e : Event Frame) (side : Side) :
    s.sealed side <+: (step codec ends s e).sealed side := by
  cases e with
  | finishSeal side' ciphertext =>
    rw [step]
    split
    · by_cases hside : side = side'
      · subst hside
        simp [State.addSealed]
      · simp [State.addSealed, hside]
    · exact List.prefix_rfl
  | _ => exact List.prefix_rfl

/-- What a step does to the receiving of an end. -/
inductive OpeningStep (codec : FrameCodec Frame) (ends : Side → Channel Key)
    (s t : State Key Frame) (side : Side) : Event Frame → Prop
  | same {e : Event Frame} (hopening : t.opening side = s.opening side)
    (hopened : t.opened side = s.opened side) (hdelivered : t.delivered side = s.delivered side) :
    OpeningStep codec ends s t side e
  | call {data : SecureDataFrame} (hopening : t.opening side = (s.opening side).call data)
    (hopened : t.opened side = s.opened side)
    (hdelivered : t.delivered side = s.delivered side ++ [data]) :
    OpeningStep codec ends s t side (.callOpen side data)
  | start (hopening : t.opening side = (s.opening side).start (decryption ends s.log side))
    (hopened : t.opened side = s.opened side) (hdelivered : t.delivered side = s.delivered side) :
    OpeningStep codec ends s t side (.startOpen side)
  | finish (hopening : t.opening side = (s.opening side).finish)
    (hopened : t.opened side = s.opened side ++ ((s.opening side).result codec).toList)
    (hdelivered : t.delivered side = s.delivered side) :
    OpeningStep codec ends s t side (.finishOpen side)

theorem openingStep (e : Event Frame) (side : Side) :
    OpeningStep codec ends s (step codec ends s e) side e := by
  cases e with
  | callSeal | startSeal => exact .same rfl rfl rfl
  | finishSeal side' ciphertext =>
    rw [step]
    split
    · exact .same rfl rfl rfl
    · exact .same rfl rfl rfl
  | callOpen side' data =>
    by_cases hside : side' = side
    · subst hside
      exact .call (by simp [step]) rfl (by simp [step])
    · exact .same (by simp [step, Ne.symm hside]) rfl (by simp [step, Ne.symm hside])
  | startOpen side' =>
    by_cases hside : side' = side
    · subst hside
      exact .start (by simp [step]) rfl rfl
    · exact .same (by simp [step, Ne.symm hside]) rfl rfl
  | finishOpen side' =>
    by_cases hside : side' = side
    · subst hside
      exact .finish (by simp [step]) (by simp [step]) rfl
    · exact .same (by simp [step, Ne.symm hside]) (by simp [step, Ne.symm hside]) rfl

/-- Only the end of a decryption that succeeds changes the counter of an end. -/
theorem finishOpen_of_highestReceived_ne {e : Event Frame}
    (h : ((step codec ends s e).opening side).highestReceived ≠ (s.opening side).highestReceived) :
    e = .finishOpen side ∧
      ∃ data message, (s.opening side).running = some (data, some message) := by
  cases (openingStep e side : OpeningStep codec ends s _ side e) with
  | same hopening => exact absurd (congrArg _ hopening) h
  | call hopening => exact absurd (congrArg _ hopening) h
  | start hopening => grind [Opening.start]
  | finish hopening => grind [Opening.finish]

theorem step_received (hmatch : Matching ends) (hsent : Sent codec ends s)
    (h : Received codec (s.sealed side.other) (s.opening side) (s.opened side))
    (e : Event Frame) :
    Received codec ((step codec ends s e).sealed side.other) ((step codec ends s e).opening side)
      ((step codec ends s e).opened side) := by
  refine Received.mono ?_ (sealed_extends e side.other)
  cases (openingStep e side : OpeningStep codec ends s _ side e) with
  | same hopening hopened => rwa [hopening, hopened]
  | call hopening hopened =>
    rw [hopening, hopened]
    exact ⟨h.opened, h.running⟩
  | start hopening hopened => grind [Received.start, authentic_of_decryption]
  | finish hopening hopened =>
    rw [hopening, hopened]
    exact h.finish (hsent.counters_ordered _)

end Receiving

/-! ## Delivery in order -/

section InOrder

variable {Key Frame : Type} {codec : FrameCodec Frame}

/-- The frame is what the sealing gave. -/
def Carries (x : Sealed Frame) (data : SecureDataFrame) : Prop :=
  x.counter = data.counter ∧ x.ciphertext = data.ciphertext

/-- What holds of an end that is given the frames in order: `done` of them have been opened. -/
@[grind cases]
structure InOrder (codec : FrameCodec Frame) (all : List (Sealed Frame)) (q : Opening)
    (delivered : List SecureDataFrame) (opened : List Frame) (done : List SecureDataFrame) :
    Prop where
  carried : ∀ (i : ℕ) data, delivered[i]? = some data → ∃ x, all[i]? = some x ∧ Carries x data
  delivered : delivered = done ++ (q.running.map Prod.fst).toList ++ q.waiting
  opened : opened = (all.take done.length).map Sealed.frame
  highest : q.highestReceived = -1 ∨ ∃ x ∈ all.take done.length, q.highestReceived = x.counter
  running : ∀ data result, q.running = some (data, result) →
    q.highestReceived < data.counter ∧ ∃ x, all[done.length]? = some x ∧
      x.counter = data.counter ∧ ∃ message, result = some message ∧
        codec.messageFromFrame x.frame = some message

variable {all all' : List (Sealed Frame)} {q : Opening} {delivered done : List SecureDataFrame}
  {opened : List Frame}

theorem inOrder_init :
    InOrder codec all { highestReceived := -1, waiting := [], running := none } [] [] [] where
  carried := by simp
  delivered := rfl
  opened := by simp
  highest := .inl rfl
  running := by simp

theorem InOrder.length_le (h : InOrder codec all q delivered opened done) :
    done.length ≤ all.length := by
  cases hdone : done.length with
  | zero => exact Nat.zero_le _
  | succ n =>
    have hlt : n < delivered.length := by grind
    obtain ⟨x, hx, -⟩ := h.carried n delivered[n] (List.getElem?_eq_getElem hlt)
    exact (List.getElem?_eq_some_iff.1 hx).1

theorem before_of_mem_take {n : ℕ} {x y : Sealed Frame}
    (hall : (all.map Sealed.counter).Pairwise Before) (hy : y ∈ all.take n)
    (hx : all[n]? = some x) : Before y.counter x.counter := by grind [List.take_append_drop]

theorem InOrder.mono (h : InOrder codec all q delivered opened done) (hall : all <+: all') :
    InOrder codec all' q delivered opened done := by
  obtain ⟨more, rfl⟩ := hall
  have hlen := h.length_le
  have htake : (all ++ more).take done.length = all.take done.length :=
    List.take_append_of_le_length hlen
  have hget : ∀ {i : ℕ} {x}, all[i]? = some x → (all ++ more)[i]? = some x := by
    intro i x hx
    rw [List.getElem?_append_left (List.getElem?_eq_some_iff.1 hx).1, hx]
  refine ⟨fun i data hdata => ?_, h.delivered, htake ▸ h.opened, htake ▸ h.highest,
    fun data result hrunning => ?_⟩
  · obtain ⟨x, hx, hcarries⟩ := h.carried i data hdata
    exact ⟨x, hget hx, hcarries⟩
  · obtain ⟨hlt, x, hx, hrest⟩ := h.running data result hrunning
    exact ⟨hlt, x, hget hx, hrest⟩

theorem InOrder.call (h : InOrder codec all q delivered opened done) {data : SecureDataFrame}
    {x : Sealed Frame} (hx : all[delivered.length]? = some x) (hcarries : Carries x data) :
    InOrder codec all (q.call data) (delivered ++ [data]) opened done where
  carried i data' hdata := by grind
  delivered := by rw [Opening.call, h.delivered, List.append_assoc]
  opened := h.opened
  highest := h.highest
  running := h.running

theorem InOrder.start (h : InOrder codec all q delivered opened done)
    (hall : (all.map Sealed.counter).Pairwise Before)
    {decryption : SecureDataFrame → Option Bytes}
    (hdecryption : ∀ x ∈ all, ∀ data, Carries x data → ∃ message,
      codec.messageFromFrame x.frame = some message ∧ decryption data = some message) :
    InOrder codec all (q.start decryption) delivered opened done := by
  unfold Opening.start
  split
  next data waiting hnone hwaiting =>
    have hdelivered := h.delivered
    rw [hnone, hwaiting] at hdelivered
    obtain ⟨x, hx, hcarries⟩ := h.carried done.length data (by simp [hdelivered])
    obtain ⟨message, hmessage, hdecrypt⟩ := hdecryption x (List.mem_of_getElem? hx) data hcarries
    -- The counter is higher than those of the frames before.
    have hlt : q.highestReceived < data.counter := by
      rcases h.highest with hhighest | ⟨y, hy, hhighest⟩
      · omega
      · have hbefore := (before_of_mem_take hall hy hx).lt (hcarries.1 ▸ data.counter_lt)
        rw [hhighest, ← hcarries.1]
        exact Int.ofNat_lt.2 hbefore
    rw [if_neg (not_le.2 hlt), hdecrypt]
    refine ⟨h.carried, by simp [hdelivered], h.opened, h.highest, ?_⟩
    rintro _ _ ⟨⟩
    exact ⟨hlt, x, hx, hcarries.1, message, rfl, hmessage⟩
  next => exact h

theorem InOrder.finish (h : InOrder codec all q delivered opened done) :
    ∃ done', InOrder codec all q.finish delivered (opened ++ (q.result codec).toList) done' := by
  rcases hrunning : q.running with _ | ⟨data, result⟩
  · grind [Opening.finish, Opening.result]
  · obtain ⟨hlt, x, hx, hcounter, message, rfl, hmessage⟩ := h.running data result hrunning
    have hdelivered := h.delivered
    have htake : all.take (done.length + 1) = all.take done.length ++ [x] := by
      rw [List.take_add_one, hx, Option.toList_some]
    refine ⟨done ++ [data], ?_⟩
    simp only [Opening.finish, Opening.result, hrunning, codec.decode_encode hmessage]
    refine ⟨h.carried, by simpa [hrunning] using hdelivered, ?_, ?_, by simp⟩
    · simp [h.opened, htake]
    · refine .inr ⟨x, by simp [htake], ?_⟩
      rw [max_eq_right hlt.le, hcounter]

variable {ends : Side → Channel Key} {s : State Key Frame} {side : Side}

theorem Side.other_other (side : Side) : side.other.other = side := by cases side <;> rfl

variable [DecidableEq Key]

/-- What one end has sealed, the other one decrypts. -/
theorem decryption_of_carries (hmatch : Matching ends) (hsent : Sent codec ends s)
    {x : Sealed Frame} (hx : x ∈ s.sealed side.other) {data : SecureDataFrame}
    (hcarries : Carries x data) :
    ∃ message, codec.messageFromFrame x.frame = some message ∧
      decryption ends s.log side data = some message := by
  obtain ⟨e, he, message, hmessage, hencryption⟩ := hsent.logged _ x hx
  refine ⟨message, hmessage, ?_⟩
  have hsome : (decryption ends s.log side data).isSome := by
    rw [decryption, decrypt, Option.isSome_map, List.find?_isSome]
    refine ⟨e, he, ?_⟩
    have hpeer := hmatch.peer side.other
    rw [Side.other_other] at hpeer
    simp [hencryption, encryption, hmatch.key, hmatch.peer side, hpeer, hcarries.1, hcarries.2]
  obtain ⟨message', hdecrypt⟩ := Option.isSome_iff_exists.1 hsome
  -- What was decrypted has the counter of the frame, so it is the frame.
  obtain ⟨y, hy, hcounter, -, hmessage'⟩ := authentic_of_decryption hmatch hsent hdecrypt
  have hyx : y = x := eq_of_counter_eq (hsent.counters_ordered _) hy hx
    (hcounter ▸ data.counter_lt) (hcounter.trans hcarries.1.symm)
  rw [hyx, hmessage] at hmessage'
  rw [hdecrypt, hmessage']

/-- A frame that is given to an end is the next one that the other end sealed. -/
def NextSealed (side : Side) (s : State Key Frame) (e : Event Frame) : Prop :=
  ∀ data, e = .callOpen side data →
    ∃ x, (s.sealed side.other)[(s.delivered side).length]? = some x ∧ Carries x data

theorem step_inOrder (hmatch : Matching ends) (hsent : Sent codec ends s) {e : Event Frame}
    (hnext : NextSealed side s e)
    (h : ∃ done, InOrder codec (s.sealed side.other) (s.opening side) (s.delivered side)
      (s.opened side) done) :
    ∃ done, InOrder codec ((step codec ends s e).sealed side.other)
      ((step codec ends s e).opening side) ((step codec ends s e).delivered side)
      ((step codec ends s e).opened side) done := by
  obtain ⟨done, h⟩ := h
  suffices ∃ done, InOrder codec (s.sealed side.other) ((step codec ends s e).opening side)
      ((step codec ends s e).delivered side) ((step codec ends s e).opened side) done from
    this.imp fun _ h => h.mono (sealed_extends e side.other)
  cases (openingStep e side : OpeningStep codec ends s _ side e) with
  | same hopening hopened hdelivered =>
    rw [hopening, hopened, hdelivered]
    exact ⟨done, h⟩
  | call hopening hopened hdelivered =>
    obtain ⟨x, hx, hcarries⟩ := hnext _ rfl
    rw [hopening, hopened, hdelivered]
    exact ⟨done, h.call hx hcarries⟩
  | start hopening hopened hdelivered =>
    rw [hopening, hopened, hdelivered]
    exact ⟨done, h.start (hsent.counters_ordered _) fun x hx _ =>
      decryption_of_carries hmatch hsent hx⟩
  | finish hopening hopened hdelivered =>
    rw [hopening, hopened, hdelivered]
    exact h.finish

end InOrder

/-! ## Runs -/

section Runs

variable {Key Frame : Type} [DecidableEq Key]

/-- For every run of two matching ends, and for either of them: what it opens is a subsequence of
    what the other end sealed; a step that changes its counter opens a frame that the other end
    sealed; and if it is given the frames that the other end sealed in order, and all of its calls
    have settled, then it has opened all of them. -/
theorem secureChannel_delivery (codec : FrameCodec Frame) (ends : Side → Channel Key)
    (hmatch : Matching ends) (events : List (Event Frame)) (side : Side) :
    let s := run (step codec ends) (.init Key Frame) events
    s.opened side <+ (s.sealed side.other).map Sealed.frame ∧
    (∀ e, ((step codec ends s e).opening side).highestReceived ≠
        (s.opening side).highestReceived →
      e = .finishOpen side ∧ ∃ data message,
        (s.opening side).running = some (data, some message) ∧
          ∃ x ∈ s.sealed side.other, Carries x data) ∧
    (Along (step codec ends) (NextSealed side) (.init Key Frame) events →
      (s.delivered side).length = (s.sealed side.other).length →
      (s.opening side).running = none → (s.opening side).waiting = [] →
        s.opened side = (s.sealed side.other).map Sealed.frame) := by
  intro s
  have hinv : Sent codec ends s ∧
      Received codec (s.sealed side.other) (s.opening side) (s.opened side) :=
    run_invariant (P := fun s => Sent codec ends s ∧
        Received codec (s.sealed side.other) (s.opening side) (s.opened side))
      ⟨sent_init, received_init⟩
      (fun t e h => ⟨step_sent h.1 e, step_received hmatch h.1 h.2 e⟩) events
  obtain ⟨hsent, hreceived⟩ := hinv
  refine ⟨?_, ?_, ?_⟩
  · obtain ⟨accepted, hsub, hopened, -⟩ := hreceived.opened
    rw [hopened]
    exact hsub.map _
  · intro e hne
    obtain ⟨rfl, data, message, hrunning⟩ := finishOpen_of_highestReceived_ne hne
    obtain ⟨-, x, hx, hcounter, hciphertext, -⟩ := hreceived.running data message hrunning
    exact ⟨rfl, data, message, hrunning, x, hx, hcounter, hciphertext⟩
  · intro halong hlength hrunning hwaiting
    have hinv : Sent codec ends s ∧ ∃ done, InOrder codec (s.sealed side.other) (s.opening side)
        (s.delivered side) (s.opened side) done :=
      run_along (P := fun s => Sent codec ends s ∧ ∃ done, InOrder codec (s.sealed side.other)
          (s.opening side) (s.delivered side) (s.opened side) done)
        ⟨sent_init, [], inOrder_init⟩
        (fun t e h hnext => ⟨step_sent h.1 e, step_inOrder hmatch h.1 hnext h.2⟩) halong
    obtain ⟨-, done, h⟩ := hinv
    have hdone : done = s.delivered side := by simpa [hrunning, hwaiting] using h.delivered.symm
    rw [h.opened, hdone, hlength, List.take_length]

/-- The ends of a channel, with the names of the directions as keys. -/
def sampleEnds : Side → Channel Side
  | .left =>
    { deviceId := .pad [0], peer := .pad [1]
      sendKey := .left, receiveKey := .right }
  | .right =>
    { deviceId := .pad [1], peer := .pad [0]
      sendKey := .right, receiveKey := .left }

/-- The frames are bytes. -/
def sampleCodec : FrameCodec Bytes := .bytes

theorem sampleEnds_matching : Matching sampleEnds where
  distinct := by decide
  peer side := by cases side <;> rfl
  key side := by cases side <;> rfl

/-- Two frames are sealed while the first one is being opened. -/
def sampleEvents : List (Event Bytes) :=
  [.callSeal .left [1], .callSeal .left [2], .startSeal .left, .finishSeal .left [7],
    .callOpen .right ⟨0, [7], by decide⟩, .startSeal .left, .startOpen .right,
    .finishSeal .left [8], .finishOpen .right, .callOpen .right ⟨1, [8], by decide⟩,
    .startOpen .right, .finishOpen .right]

theorem sampleEvents_nextSealed :
    Along (step sampleCodec sampleEnds) (NextSealed .right) (.init Side Bytes) sampleEvents := by
  simp only [sampleEvents, along_cons]
  refine ⟨nofun, nofun, nofun, nofun, ?_, nofun, nofun, nofun, nofun, ?_, nofun, nofun, along_nil⟩
  · rintro _ ⟨⟩
    exact ⟨_, rfl, rfl, rfl⟩
  · rintro _ ⟨⟩
    exact ⟨_, rfl, rfl, rfl⟩

theorem secureChannel_delivery_sample :
    (run (step sampleCodec sampleEnds) (.init Side Bytes) sampleEvents).opened .right =
      [[1], [2]] :=
  (secureChannel_delivery sampleCodec sampleEnds sampleEnds_matching sampleEvents .right).2.2
    sampleEvents_nextSealed rfl rfl rfl

end Runs

end WireMesh.TypeScript.SecureChannel
