import Mathlib.Data.List.DropRight
import Mathlib.Data.List.Sort
import WireMesh.Machine
import WireMesh.OrderedMap
import WireMesh.RoomPath

/-!
# Conversations and their history

What `conversations.ts` shows of a conversation, and what `message-store.ts` keeps of it. A message
is stored under its room, the time when it was sent and its id. The reducer gets it live, from a
history that is restored, or from both, and drops what it has.

The time is what the sender says it is, any number. The numbers other than NaN are a linear order
`Time`, in which zero and its negative are one.

* `mem_list_iff`: the history of a room is what was appended to it.
* `history_reload_shows_same`: so a reload shows the same messages, if a message that comes again is
  the same message and the times are not NaN.
* `history_reload_differs`: a message that comes again with another time.
-/

namespace WireMesh.TypeScript.WebConsole

/-! ## Messages -/

inductive Direction
  | sent
  | received
deriving DecidableEq

structure StoredMessage (Time : Type) where
  direction : Direction
  text : String
  messageId : Bytes
  /-- The number, unless it is NaN. -/
  sentAt : Option Time
deriving DecidableEq

/-- What a JavaScript engine provides. Of what a comparator returns, only the sign matters. -/
structure Engine (Time : Type) where
  /-- `String(x)`, where `none` is NaN. -/
  numberText : Option Time → String
  slash_notMem_numberText : ∀ x, '/' ∉ (numberText x).toList
  localeCompare : String → String → ℤ
  localeCompare_neg_iff : ∀ s t, localeCompare s t < 0 ↔ 0 < localeCompare t s
  localeCompare_trans : ∀ s t u,
    localeCompare s t ≤ 0 → localeCompare t u ≤ 0 → localeCompare s u ≤ 0
  eq_of_localeCompare : ∀ a b : Bytes,
    localeCompare (bytesToHex a) (bytesToHex b) = 0 → a = b
  /-- `Array.prototype.sort`, whose order is unspecified if the comparator is inconsistent. -/
  sort : (StoredMessage Time → StoredMessage Time → ℤ) → List (StoredMessage Time) →
    List (StoredMessage Time)
  sort_perm : ∀ compare messages, (sort compare messages).Perm messages
  sort_pairwise : ∀ compare messages,
    (∀ a ∈ messages, ∀ b ∈ messages, compare a b < 0 ↔ 0 < compare b a) →
    (∀ a ∈ messages, ∀ b ∈ messages, ∀ c ∈ messages,
      compare a b ≤ 0 → compare b c ≤ 0 → compare a c ≤ 0) →
    (sort compare messages).Pairwise fun a b => compare a b ≤ 0

variable {Time : Type} (engine : Engine Time)

/-! ## The store -/

def sentAtKeyWidth : ℕ := 16

def padStart (s : List Char) (width : ℕ) : List Char := List.replicate (width - s.length) '0' ++ s

/-- The last segment of a key. -/
def keySegment (message : StoredMessage Time) : List Char :=
  padStart (engine.numberText message.sentAt).toList sentAtKeyWidth ++
    '-' :: (bytesToHex message.messageId).toList

def keyRoot : List Char := "message/".toList

def keyPrefixOf (roomPath : String) : List Char := keyRoot ++ (roomPath.toList ++ ['/'])

def messageKey (roomPath : String) (message : StoredMessage Time) : String :=
  .ofList (keyPrefixOf roomPath ++ keySegment engine message)

abbrev MessageStore (Time : Type) := OrderedMap String (StoredMessage Time)

def append (store : MessageStore Time) (roomPath : String) (message : StoredMessage Time) :
    MessageStore Time :=
  store.set (messageKey engine roomPath message) message

def list (store : MessageStore Time) (roomPath : String) : List (StoredMessage Time) :=
  ((store.keys.filter fun key => (keyPrefixOf roomPath).isPrefixOf key.toList).insertionSort
    (· ≤ ·)).filterMap store.get

/-! ## Keys -/

section Keys

variable {engine} {roomPath roomPath' : String} {m m' : StoredMessage Time}

/-- The path of a room. -/
def IsRoomPath (s : String) : Prop := ∃ parsed, ParsedRoomPath.parse s = some parsed

theorem notMem_bytesToHex {c : Char} (hc : ∀ n < 16, n.digitChar ≠ c) (b : Bytes) :
    c ∉ (bytesToHex b).toList := by
  rw [bytesToHex, String.toList_ofList, List.mem_flatMap]
  rintro ⟨byte, -, hmem⟩
  have hbyte := byte.toNat_lt
  simp only [hexDigits, List.mem_cons, List.not_mem_nil, or_false] at hmem
  rcases hmem with rfl | rfl
  · exact hc _ (by omega) rfl
  · exact hc _ (by omega) rfl

theorem slash_notMem_keySegment (m : StoredMessage Time) : '/' ∉ keySegment engine m := by
  have hhex := notMem_bytesToHex (show ∀ n < 16, n.digitChar ≠ '/' by decide) m.messageId
  have hpadded : '/' ∉ padStart (engine.numberText m.sentAt).toList sentAtKeyWidth := by
    rw [padStart, List.mem_append, not_or]
    refine ⟨fun h => ?_, engine.slash_notMem_numberText _⟩
    exact absurd (List.eq_of_mem_replicate h) (by decide)
  simp only [keySegment, List.mem_append, List.mem_cons, not_or]
  exact ⟨hpadded, by decide, hhex⟩

theorem slash_notMem_of_isLocalName {s : String} (h : isLocalName s = true) : '/' ∉ s.toList := by
  intro hmem
  simp only [isLocalName, Bool.and_eq_true, List.all_eq_true] at h
  exact absurd (h.2 '/' hmem) (by decide)

theorem rtakeWhile_last {c : Char} {s t : List Char} (ht : c ∉ t) :
    (s ++ c :: t).rtakeWhile (· ≠ c) = t := by
  have hne : ∀ d ∈ t.reverse, decide (d ≠ c) = true :=
    fun d hd => decide_eq_true fun h => ht (h ▸ List.mem_reverse.1 hd)
  rw [List.rtakeWhile, List.reverse_append, List.reverse_cons, List.append_assoc,
    List.takeWhile_append_of_pos hne]
  simp

/-- The id stands after the last dash: the text of the time may have one, too. -/
theorem messageId_eq_of_keySegment (h : keySegment engine m = keySegment engine m') :
    m.messageId = m'.messageId := by
  have hhex (b : Bytes) : '-' ∉ (bytesToHex b).toList :=
    notMem_bytesToHex (show ∀ n < 16, n.digitChar ≠ '-' by decide) b
  have hlast := congrArg (List.rtakeWhile (· ≠ '-')) h
  rw [keySegment, keySegment, rtakeWhile_last (hhex _), rtakeWhile_last (hhex _)] at hlast
  exact bytesToHex_injective (String.toList_injective hlast)

/-- Of the keys of two rooms, none begins as the other's do: the parts of the paths are as long as
    each other or without a slash. -/
theorem roomPath_eq {rest : List Char} (h : IsRoomPath roomPath) (h' : IsRoomPath roomPath')
    (heq : roomPath.toList ++ '/' :: rest = roomPath'.toList ++ '/' :: keySegment engine m) :
    roomPath = roomPath' := by
  obtain ⟨parsed, hparsed⟩ := h
  obtain ⟨parsed', hparsed'⟩ := h'
  obtain ⟨hpath, hparts⟩ := ParsedRoomPath.parse_eq_some_iff.1 hparsed
  obtain ⟨hpath', hparts'⟩ := ParsedRoomPath.parse_eq_some_iff.1 hparsed'
  have hsegment : '/' ∉ keySegment engine m := slash_notMem_keySegment m
  subst hpath hpath'
  cases parsed' with
  | ownerNamed owner' localName' =>
    have hlength {s s' : String} (hs : isDeviceIdHex s = true) (hs' : isDeviceIdHex s' = true) :
        s.toList.length = s'.toList.length := by
      simp only [isDeviceIdHex, Bool.and_eq_true, decide_eq_true_eq] at hs hs'
      exact hs.1.trans hs'.1.symm
    cases parsed with
    | ownerNamed owner localName =>
      simp only [ParsedRoomPath.path, String.toList_append, List.append_assoc] at heq
      obtain ⟨howner, hrest⟩ := List.append_inj heq (hlength hparts.1 hparts'.1)
      have hlocal := slash_notMem_of_isLocalName hparts'.2
      have hname := ((List.append_cons_inj_of_notMem hlocal hsegment).1
        (List.cons.inj hrest).2.symm).1
      rw [ParsedRoomPath.path, ParsedRoomPath.path, String.toList_injective howner,
        String.toList_injective hname]
    | dm first second =>
      simp only [ParsedRoomPath.path, String.toList_append, List.append_assoc] at heq
      -- After the first device comes a plus, not a slash.
      obtain ⟨-, hrest⟩ := List.append_inj heq (hlength hparts.1 hparts'.1)
      exact absurd (List.cons.inj hrest).1 (by decide)
  | dm first' second' =>
    have hhex {s : String} (hs : isDeviceIdHex s = true) : '/' ∉ s.toList :=
      ParsedRoomPath.notMem_of_isDeviceIdHex hs (by decide)
    have hpath : '/' ∉ (ParsedRoomPath.dm first' second').path.toList := by
      simp [ParsedRoomPath.path, hhex hparts'.1, hhex hparts'.2.1]
    exact String.toList_injective
      ((List.append_cons_inj_of_notMem hpath hsegment).1 heq.symm).1.symm

theorem keyPrefixOf_append_inj {t t' : List Char} :
    keyPrefixOf roomPath ++ t = keyPrefixOf roomPath' ++ t' ↔
      roomPath.toList ++ '/' :: t = roomPath'.toList ++ '/' :: t' := by
  have hassoc (s : String) (t : List Char) :
      keyPrefixOf s ++ t = keyRoot ++ (s.toList ++ '/' :: t) := by
    rw [keyPrefixOf, List.append_assoc, List.append_assoc, List.singleton_append]
  rw [hassoc, hassoc]
  exact ⟨List.append_cancel_left, congrArg _⟩

theorem messageKey_inj (h : IsRoomPath roomPath) (h' : IsRoomPath roomPath')
    (heq : messageKey engine roomPath m = messageKey engine roomPath' m') :
    roomPath = roomPath' ∧ m.messageId = m'.messageId := by
  have hkeys : roomPath.toList ++ '/' :: keySegment engine m =
      roomPath'.toList ++ '/' :: keySegment engine m' :=
    keyPrefixOf_append_inj.1 (String.ofList_injective heq)
  obtain rfl := roomPath_eq h h' hkeys
  exact ⟨rfl, messageId_eq_of_keySegment
    (List.cons.inj (List.append_cancel_left hkeys)).2⟩

theorem isPrefixOf_messageKey (h : IsRoomPath roomPath) (h' : IsRoomPath roomPath') :
    (keyPrefixOf roomPath).isPrefixOf (messageKey engine roomPath' m).toList = true ↔
      roomPath = roomPath' := by
  rw [List.isPrefixOf_iff_prefix, messageKey, String.toList_ofList]
  constructor
  · rintro ⟨rest, hrest⟩
    exact roomPath_eq h h' (keyPrefixOf_append_inj.1 hrest)
  · rintro rfl
    exact List.prefix_append _ _

end Keys

/-! ## The order of messages -/

variable [LinearOrder Time]

def compareMessages (a b : StoredMessage Time) : ℤ :=
  match a.sentAt, b.sentAt with
  | some x, some y =>
    if x ≠ y then if x < y then -1 else 1
    else engine.localeCompare (bytesToHex a.messageId) (bytesToHex b.messageId)
  -- A difference with NaN is NaN, which a sort takes for zero.
  | _, _ => 0

/-- Adds the messages that are not there yet. Messages that are added together are not compared. -/
def mergeMessages (existing incoming : List (StoredMessage Time)) : List (StoredMessage Time) :=
  let known := existing.map fun m => bytesToHex m.messageId
  let added := incoming.filter fun m => bytesToHex m.messageId ∉ known
  if added = [] then existing
  else engine.sort (compareMessages engine) (existing ++ added)

/-! ## The reducer -/

structure Conversation (Time : Type) where
  messages : List (StoredMessage Time)
  unread : ℕ
deriving DecidableEq

def blank : Conversation Time := ⟨[], 0⟩

inductive Action (Time : Type)
  | opened (roomPath : String)
  | restored (roomPath : String) (messages : List (StoredMessage Time))
  | message (roomPath : String) (message : StoredMessage Time)
  | read (roomPath : String)

/-- A conversation that is not known stays so. -/
def update (state : OrderedMap String (Conversation Time)) (roomPath : String)
    (change : Conversation Time → Conversation Time) : OrderedMap String (Conversation Time) :=
  match state.get roomPath with
  | none => state
  | some entry => state.set roomPath (change entry)

def reduceConversations (state : OrderedMap String (Conversation Time)) :
    Action Time → OrderedMap String (Conversation Time)
  | .opened roomPath => state.set roomPath ((state.get roomPath).getD blank)
  | .restored roomPath messages =>
    let entry := (state.get roomPath).getD blank
    state.set roomPath { entry with messages := mergeMessages engine entry.messages messages }
  | .message roomPath message =>
    update state roomPath fun entry =>
      let messages := mergeMessages engine entry.messages [message]
      { messages
        unread := if messages ≠ entry.messages ∧ message.direction = .received then entry.unread + 1
          else entry.unread }
  | .read roomPath => update state roomPath fun entry => { entry with unread := 0 }

/-! ## Runs -/

structure Console (Time : Type) where
  store : MessageStore Time
  conversations : OrderedMap String (Conversation Time)
  /-- What was appended, and what the reducer has got of known conversations. -/
  appended : List (String × StoredMessage Time)
  dispatched : List (String × StoredMessage Time)

namespace Console

def new : Console Time := ⟨.empty, .empty, [], []⟩

inductive Event (Time : Type)
  | append (roomPath : String) (message : StoredMessage Time)
  | dispatch (action : Action Time)

/-- The messages that an action brings to a conversation. -/
def brought (conversations : OrderedMap String (Conversation Time)) : Action Time →
    List (String × StoredMessage Time)
  | .restored roomPath messages => messages.map (roomPath, ·)
  | .message roomPath message =>
    if (conversations.get roomPath).isSome then [(roomPath, message)] else []
  | _ => []

def next (s : Console Time) : Event Time → Console Time
  | .append roomPath message =>
    { s with
      store := WebConsole.append engine s.store roomPath message
      appended := s.appended ++ [(roomPath, message)] }
  | .dispatch action =>
    { s with
      conversations := reduceConversations engine s.conversations action
      dispatched := s.dispatched ++ brought s.conversations action }

end Console

/-! ## What the order is -/

section Order

variable {engine} {a b : StoredMessage Time} {x y : Time}

theorem compareMessages_of_time (ha : a.sentAt = some x) (hb : b.sentAt = some y) :
    compareMessages engine a b =
      if x ≠ y then if x < y then -1 else 1
      else engine.localeCompare (bytesToHex a.messageId) (bytesToHex b.messageId) := by
  rw [compareMessages, ha, hb]

theorem compareMessages_nonpos_iff (ha : a.sentAt = some x) (hb : b.sentAt = some y) :
    compareMessages engine a b ≤ 0 ↔ x < y ∨ x = y ∧
      engine.localeCompare (bytesToHex a.messageId) (bytesToHex b.messageId) ≤ 0 := by
  rw [compareMessages_of_time ha hb]
  split_ifs with hne hlt
  · simp [hlt]
  · simp [hlt, hne]
  · simp [not_not.1 hne]

theorem compareMessages_neg_iff (ha : a.sentAt = some x) (hb : b.sentAt = some y) :
    compareMessages engine a b < 0 ↔ 0 < compareMessages engine b a := by
  rw [compareMessages_of_time ha hb, compareMessages_of_time hb ha]
  rcases lt_trichotomy x y with hlt | rfl | hlt
  · simp [hlt.ne, hlt.ne', hlt, hlt.not_gt]
  · simpa using engine.localeCompare_neg_iff _ _
  · simp [hlt.ne, hlt.ne', hlt, hlt.not_gt]

theorem compareMessages_trans {c : StoredMessage Time} {z : Time} (ha : a.sentAt = some x)
    (hb : b.sentAt = some y) (hc : c.sentAt = some z) (hab : compareMessages engine a b ≤ 0)
    (hbc : compareMessages engine b c ≤ 0) : compareMessages engine a c ≤ 0 := by
  rw [compareMessages_nonpos_iff ha hb] at hab
  rw [compareMessages_nonpos_iff hb hc] at hbc
  rw [compareMessages_nonpos_iff ha hc]
  rcases hab with hab | ⟨rfl, hab⟩ <;> rcases hbc with hbc | ⟨rfl, hbc⟩
  · exact .inl (hab.trans hbc)
  · exact .inl hab
  · exact .inl hbc
  · exact .inr ⟨rfl, engine.localeCompare_trans _ _ _ hab hbc⟩

/-- Messages that come in one order and in the other have the same id. -/
theorem messageId_eq_of_compareMessages (ha : a.sentAt = some x) (hb : b.sentAt = some y)
    (hab : compareMessages engine a b ≤ 0) (hba : compareMessages engine b a ≤ 0) :
    a.messageId = b.messageId := by
  have hneg : compareMessages engine a b < 0 ↔ 0 < compareMessages engine b a :=
    compareMessages_neg_iff ha hb
  have heq : compareMessages engine a b = 0 := by omega
  rw [compareMessages_of_time ha hb] at heq
  split_ifs at heq
  · cases heq
  · exact engine.eq_of_localeCompare _ _ heq

end Order

def Sorted (l : List (StoredMessage Time)) : Prop :=
  l.Pairwise fun a b => compareMessages engine a b ≤ 0

/-! ## Merging -/

section Merge

variable {engine} {existing incoming : List (StoredMessage Time)} {m : StoredMessage Time}

/-- Messages with one id are one message. -/
def SameById (l : List (StoredMessage Time)) : Prop :=
  ∀ m ∈ l, ∀ m' ∈ l, m.messageId = m'.messageId → m = m'

theorem mergeMessages_perm :
    (mergeMessages engine existing incoming).Perm (existing ++ incoming.filter fun m =>
      bytesToHex m.messageId ∉ existing.map fun m => bytesToHex m.messageId) := by
  rw [mergeMessages]
  split_ifs with hnone
  · rw [hnone, List.append_nil]
  · exact engine.sort_perm _ _

theorem mem_mergeMessages (h : SameById (existing ++ incoming)) :
    m ∈ mergeMessages engine existing incoming ↔ m ∈ existing ∨ m ∈ incoming := by
  rw [mergeMessages_perm.mem_iff, List.mem_append, List.mem_filter]
  refine ⟨fun hm => hm.imp_right And.left, fun hm => ?_⟩
  rcases hm with hm | hm
  · exact .inl hm
  · by_cases hknown : bytesToHex m.messageId ∈ existing.map fun m => bytesToHex m.messageId
    · obtain ⟨m', hm', hid⟩ := List.mem_map.1 hknown
      have heq := h m' (List.mem_append_left _ hm') m (List.mem_append_right _ hm)
        (bytesToHex_injective hid)
      exact .inl (heq ▸ hm')
    · exact .inr ⟨hm, by simpa using hknown⟩

theorem sorted_mergeMessages (h : Sorted engine existing)
    (htime : ∀ m ∈ existing ++ incoming, ∃ x, m.sentAt = some x) :
    Sorted engine (mergeMessages engine existing incoming) := by
  rw [mergeMessages]
  split_ifs
  · exact h
  · have hadded {m : StoredMessage Time} (hm : m ∈ existing ++ incoming.filter fun m =>
        bytesToHex m.messageId ∉ existing.map fun m => bytesToHex m.messageId) :
        ∃ x, m.sentAt = some x :=
      htime m ((List.filter_sublist.append_left existing).subset hm)
    refine engine.sort_pairwise _ _ (fun a ha b hb => ?_) fun a ha b hb c hc hab hbc => ?_
    · obtain ⟨x, hx⟩ := hadded ha
      obtain ⟨y, hy⟩ := hadded hb
      exact compareMessages_neg_iff hx hy
    · obtain ⟨x, hx⟩ := hadded ha
      obtain ⟨y, hy⟩ := hadded hb
      obtain ⟨z, hz⟩ := hadded hc
      exact compareMessages_trans hx hy hz hab hbc

theorem nodup_mergeMessages (h : (existing.map StoredMessage.messageId).Nodup)
    (hincoming : (incoming.map StoredMessage.messageId).Nodup) :
    ((mergeMessages engine existing incoming).map StoredMessage.messageId).Nodup := by
  rw [(mergeMessages_perm.map _).nodup_iff, List.map_append]
  refine h.append (hincoming.sublist (List.filter_sublist.map _)) fun id hid hid' => ?_
  obtain ⟨m, hm, rfl⟩ := List.mem_map.1 hid
  obtain ⟨m', hm', heq⟩ := List.mem_map.1 hid'
  have hnew := of_decide_eq_true (List.mem_filter.1 hm').2
  rw [heq] at hnew
  exact hnew (List.mem_map_of_mem hm)

/-- Sorted messages with distinct ids are determined by what they are. -/
theorem eq_of_mem_iff {l l' : List (StoredMessage Time)} (hl : Sorted engine l)
    (hl' : Sorted engine l') (htime : ∀ m ∈ l, ∃ x, m.sentAt = some x)
    (hnodup : (l.map StoredMessage.messageId).Nodup)
    (hnodup' : (l'.map StoredMessage.messageId).Nodup) (h : ∀ m, m ∈ l ↔ m ∈ l') : l = l' := by
  have hperm : l.Perm l' :=
    (List.perm_ext_iff_of_nodup hnodup.of_map hnodup'.of_map).2 h
  refine List.Perm.eq_of_pairwise (fun a b ha hb hab hba => ?_) hl hl' hperm
  obtain ⟨x, hx⟩ := htime a ha
  obtain ⟨y, hy⟩ := htime b ((h b).2 hb)
  exact List.inj_on_of_nodup_map hnodup ha ((h b).2 hb)
    (messageId_eq_of_compareMessages hx hy hab hba)

end Merge

/-! ## What is shown -/

namespace Console

/-- Messages of rooms with times, where one that comes again is the same. -/
@[grind cases]
structure Consistent (all : List (String × StoredMessage Time)) : Prop where
  room : ∀ e ∈ all, IsRoomPath e.1
  time : ∀ e ∈ all, ∃ x, e.2.sentAt = some x
  same : ∀ roomPath m m', (roomPath, m) ∈ all → (roomPath, m') ∈ all →
    m.messageId = m'.messageId → m = m'

/-- The event is about such messages, and no message is twice in a history. -/
def Allowed (all : List (String × StoredMessage Time)) : Event Time → Prop
  | .append roomPath message => (roomPath, message) ∈ all
  | .dispatch (.restored roomPath messages) => (∀ m ∈ messages, (roomPath, m) ∈ all) ∧
      messages.Nodup
  | .dispatch (.message roomPath message) => (roomPath, message) ∈ all
  | .dispatch _ => True

/-- A conversation shows what it has got, each once and in order. -/
@[grind cases]
structure Shows (dispatched : List (String × StoredMessage Time)) (roomPath : String)
    (messages : List (StoredMessage Time)) : Prop where
  mem_iff : ∀ m, m ∈ messages ↔ (roomPath, m) ∈ dispatched
  sorted : Sorted engine messages
  nodup : (messages.map StoredMessage.messageId).Nodup

@[grind cases]
structure Good (all : List (String × StoredMessage Time)) (s : Console Time) : Prop where
  appended : ∀ e ∈ s.appended, e ∈ all
  dispatched : ∀ e ∈ s.dispatched, e ∈ all
  stored : ∀ key m, s.store.get key = some m ↔
    ∃ roomPath, (roomPath, m) ∈ s.appended ∧ key = messageKey engine roomPath m
  shown : ∀ roomPath, Shows engine s.dispatched roomPath
    ((s.conversations.get roomPath).elim [] Conversation.messages)

variable {engine} {all : List (String × StoredMessage Time)} {s : Console Time}

theorem good_new : Good engine all new := by
  refine ⟨by simp [new], by simp [new], fun key m => ?_, fun roomPath => ?_⟩
  · simp [new]
  · exact ⟨by simp [new], .nil, List.nodup_nil⟩

theorem Good.append (h : Good engine all s) (hall : Consistent all) {roomPath : String}
    {m : StoredMessage Time} (hm : (roomPath, m) ∈ all) :
    Good engine all (Console.next engine s (.append roomPath m)) := by
  refine ⟨?_, h.dispatched, fun key m' => ?_, h.shown⟩
  · simpa [Console.next, or_imp, forall_and, hm] using h.appended
  · simp only [Console.next, WebConsole.append, OrderedMap.get_set, List.mem_append,
      List.mem_singleton, Prod.mk.injEq]
    split_ifs with hkey
    · constructor
      · rintro ⟨⟩
        exact ⟨roomPath, .inr ⟨rfl, rfl⟩, hkey⟩
      · rintro ⟨roomPath', hmem, hkey'⟩
        have hmem' : (roomPath', m') ∈ all :=
          hmem.elim (h.appended _) (by rintro ⟨rfl, rfl⟩; exact hm)
        obtain ⟨rfl, hid⟩ := messageKey_inj (hall.room _ hm) (hall.room _ hmem')
          (hkey.symm.trans hkey')
        exact congrArg some (hall.same _ _ _ hm hmem' hid)
    · rw [h.stored]
      refine exists_congr fun roomPath' => ⟨fun h => ⟨.inl h.1, h.2⟩, ?_⟩
      rintro ⟨hmem | ⟨rfl, rfl⟩, hkey'⟩
      · exact ⟨hmem, hkey'⟩
      · exact absurd hkey' hkey

/-- A conversation that gets messages shows them, and the others stay. -/
theorem Shows.merge {dispatched : List (String × StoredMessage Time)} {roomPath : String}
    {messages incoming : List (StoredMessage Time)} (h : Shows engine dispatched roomPath messages)
    (hall : Consistent all) (hdispatched : ∀ e ∈ dispatched, e ∈ all)
    (hincoming : ∀ m ∈ incoming, (roomPath, m) ∈ all) (hnodup : incoming.Nodup) :
    Shows engine (dispatched ++ incoming.map (roomPath, ·)) roomPath
      (mergeMessages engine messages incoming) := by
  have hmem : ∀ m ∈ messages ++ incoming, (roomPath, m) ∈ all := by
    intro m hm
    rcases List.mem_append.1 hm with hm | hm
    · exact hdispatched _ ((h.mem_iff m).1 hm)
    · exact hincoming m hm
  refine ⟨fun m => ?_, sorted_mergeMessages h.sorted fun m hm => hall.time _ (hmem m hm),
    nodup_mergeMessages h.nodup ?_⟩
  · rw [mem_mergeMessages fun m hm m' hm' => hall.same _ _ _ (hmem m hm) (hmem m' hm'), h.mem_iff]
    simp
  · refine List.Nodup.map_on (fun m hm m' hm' hid => ?_) hnodup
    exact hall.same _ _ _ (hincoming m hm) (hincoming m' hm') hid

theorem Shows.other {dispatched : List (String × StoredMessage Time)} {roomPath roomPath' : String}
    {messages : List (StoredMessage Time)} (h : Shows engine dispatched roomPath messages)
    (hne : roomPath ≠ roomPath') (incoming : List (StoredMessage Time)) :
    Shows engine (dispatched ++ incoming.map (roomPath', ·)) roomPath messages := by
  refine ⟨fun m => ?_, h.sorted, h.nodup⟩
  rw [h.mem_iff]
  simp [hne.symm]

/-- An entry that is set is shown in its room, and the other rooms stay. -/
theorem Good.set (h : Good engine all s) {dispatched : List (String × StoredMessage Time)}
    {roomPath : String} {entry : Conversation Time} (hdispatched : ∀ e ∈ dispatched, e ∈ all)
    (hroom : Shows engine dispatched roomPath entry.messages)
    (hother : ∀ roomPath', roomPath' ≠ roomPath → Shows engine dispatched roomPath'
      ((s.conversations.get roomPath').elim [] Conversation.messages)) :
    Good engine all
      { s with conversations := s.conversations.set roomPath entry, dispatched } := by
  refine ⟨h.appended, hdispatched, h.stored, fun roomPath' => ?_⟩
  simp only [OrderedMap.get_set]
  split_ifs with heq
  · subst heq
    exact hroom
  · exact hother roomPath' heq

theorem Good.keep (h : Good engine all s) {roomPath : String} {entry : Conversation Time}
    (hmessages : entry.messages =
      (s.conversations.get roomPath).elim [] Conversation.messages) :
    Good engine all { s with conversations := s.conversations.set roomPath entry } :=
  h.set h.dispatched (hmessages ▸ h.shown roomPath) fun roomPath' _ => h.shown roomPath'

theorem Good.merge (h : Good engine all s) (hall : Consistent all) {roomPath : String}
    {entry : Conversation Time} {incoming : List (StoredMessage Time)}
    (hincoming : ∀ m ∈ incoming, (roomPath, m) ∈ all) (hnodup : incoming.Nodup)
    (hmessages : entry.messages = mergeMessages engine
      ((s.conversations.get roomPath).elim [] Conversation.messages) incoming) :
    Good engine all { s with
      conversations := s.conversations.set roomPath entry
      dispatched := s.dispatched ++ incoming.map (roomPath, ·) } := by
  refine h.set (List.forall_mem_append.2 ⟨h.dispatched, by simpa using hincoming⟩) ?_
    fun roomPath' hne => (h.shown roomPath').other hne incoming
  rw [hmessages]
  exact (h.shown roomPath).merge hall h.dispatched hincoming hnodup

theorem Good.dispatch (h : Good engine all s) (hall : Consistent all) {action : Action Time}
    (hallowed : Allowed all (.dispatch action)) :
    Good engine all (Console.next engine s (.dispatch action)) := by
  have helim (roomPath : String) : ((s.conversations.get roomPath).getD blank).messages =
      (s.conversations.get roomPath).elim [] Conversation.messages := by
    cases s.conversations.get roomPath <;> rfl
  cases action with
  | opened roomPath =>
    simpa [Console.next, brought, reduceConversations] using h.keep (helim roomPath)
  | restored roomPath messages => exact h.merge hall hallowed.1 hallowed.2 (by rw [helim])
  | message roomPath message =>
    cases hget : s.conversations.get roomPath with
    | none => simpa [Console.next, brought, reduceConversations, update, hget] using h
    | some entry =>
      simp only [Console.next, brought, hget, Option.isSome_some, if_true, reduceConversations,
        update]
      exact h.merge hall (List.forall_mem_singleton.2 hallowed) (List.nodup_singleton message)
        (by rw [hget]; rfl)
  | read roomPath =>
    simp only [Console.next, brought, List.append_nil, reduceConversations, update]
    split
    · exact h
    · next entry hget => exact h.keep (by rw [hget]; rfl)

theorem Good.next (h : Good engine all s) (hall : Consistent all) {e : Event Time}
    (he : Allowed all e) : Good engine all (Console.next engine s e) := by
  cases e with
  | append roomPath message => exact h.append hall he
  | dispatch action => exact h.dispatch hall he

/-- The history of a room is what was appended to it. -/
theorem Good.mem_list_iff (h : Good engine all s) (hall : Consistent all) {roomPath : String}
    (hroom : IsRoomPath roomPath) {m : StoredMessage Time} :
    m ∈ list s.store roomPath ↔ (roomPath, m) ∈ s.appended := by
  rw [list, List.mem_filterMap]
  constructor
  · rintro ⟨key, hkey, hget⟩
    obtain ⟨roomPath', hmem, rfl⟩ := (h.stored key m).1 hget
    have hpre := (List.mem_filter.1 ((List.mem_insertionSort _).1 hkey)).2
    rwa [(isPrefixOf_messageKey hroom (hall.room _ (h.appended _ hmem))).1 hpre]
  · intro hmem
    have hget := (h.stored (messageKey engine roomPath m) m).2 ⟨roomPath, hmem, rfl⟩
    refine ⟨_, (List.mem_insertionSort _).2 (List.mem_filter.2
      ⟨OrderedMap.mem_keys_iff.2 ⟨m, hget⟩, ?_⟩), hget⟩
    exact (isPrefixOf_messageKey hroom hroom).2 rfl

theorem Good.nodup_list (h : Good engine all s) (hall : Consistent all) {roomPath : String}
    (hroom : IsRoomPath roomPath) : (list s.store roomPath).Nodup := by
  have hkeys : ((s.store.keys.filter fun key =>
      (keyPrefixOf roomPath).isPrefixOf key.toList).insertionSort (· ≤ ·)).Nodup :=
    (List.perm_insertionSort _ _).nodup_iff.2 (s.store.nodup.filter _)
  refine List.pairwise_filterMap.2
    (hkeys.imp_of_mem fun {key key'} hkey hkey' hne m hm m' hm' => ?_)
  rintro rfl
  have hroomOf {key : String} (hkey : key ∈ ((s.store.keys.filter fun key =>
      (keyPrefixOf roomPath).isPrefixOf key.toList).insertionSort (· ≤ ·)))
      (hm : s.store.get key = some m) : key = messageKey engine roomPath m := by
    obtain ⟨room, hmem, rfl⟩ := (h.stored key m).1 hm
    have hpre := (List.mem_filter.1 ((List.mem_insertionSort _).1 hkey)).2
    rw [(isPrefixOf_messageKey hroom (hall.room _ (h.appended _ hmem))).1 hpre]
  exact hne ((hroomOf hkey hm).trans (hroomOf hkey' hm').symm)

end Console

open Console

/-- Whatever the order and however the messages reach the conversations, if a message that comes
    again is the same one: a conversation shows each message once and in order, and the messages
    that are shown after a reload, if what was stored is what was dispatched. -/
theorem history_reload_shows_same {all : List (String × StoredMessage Time)} (hall : Consistent all)
    {events : List (Event Time)} (hevents : ∀ e ∈ events, Allowed all e) {roomPath : String}
    (hroom : IsRoomPath roomPath) {entry : Conversation Time}
    (hentry : (Machine.run (Console.next engine) .new events).conversations.get roomPath =
      some entry) :
    let s := Machine.run (Console.next engine) .new events
    (entry.messages.map StoredMessage.messageId).Nodup ∧ Sorted engine entry.messages ∧
      ((∀ m, (roomPath, m) ∈ s.appended ↔ (roomPath, m) ∈ s.dispatched) →
        (reduceConversations engine .empty (.restored roomPath (list s.store roomPath))).get
          roomPath = some { messages := entry.messages, unread := 0 }) := by
  intro s
  have hgood : Good engine all s := Machine.run_along good_new
    (fun _ _ hs he => Good.next hs hall he) (Machine.along_of_forall fun e he _ => hevents e he)
  have hshows := hgood.shown roomPath
  rw [hentry, Option.elim_some] at hshows
  refine ⟨hshows.nodup, hshows.sorted, fun hsame => ?_⟩
  -- A fresh conversation merges the history into nothing.
  have hempty : Shows engine [] roomPath [] := ⟨by simp, .nil, List.nodup_nil⟩
  have hlist := hempty.merge hall (by simp)
    (fun m hm => hgood.appended _ ((hgood.mem_list_iff hall hroom).1 hm))
    (hgood.nodup_list hall hroom)
  have heq : mergeMessages engine [] (list s.store roomPath) = entry.messages := by
    refine eq_of_mem_iff hlist.sorted hshows.sorted (fun m hm => ?_) hlist.nodup hshows.nodup
      fun m => ?_
    · have hm : m ∈ list s.store roomPath := by simpa using (hlist.mem_iff m).1 hm
      exact hall.time _ (hgood.appended _ ((hgood.mem_list_iff hall hroom).1 hm))
    · rw [hlist.mem_iff, hshows.mem_iff, ← hsame, ← hgood.mem_list_iff hall hroom]
      simp
  rw [reduceConversations, OrderedMap.get_set, if_pos rfl]
  exact congrArg (fun messages => some (Conversation.mk messages 0)) heq

namespace Sample

def room : String := deviceIdToHex WireMesh.Sample.lowerId ++ "+" ++
  deviceIdToHex WireMesh.Sample.higherId

theorem pairwise_insertionSort {α : Type} (r : α → α → Prop) [DecidableRel r] (l : List α)
    (htotal : ∀ a ∈ l, ∀ b ∈ l, r a b ∨ r b a)
    (htrans : ∀ a ∈ l, ∀ b ∈ l, ∀ c ∈ l, r a b → r b c → r a c) :
    (l.insertionSort r).Pairwise r := by
  let s (a b : { x // x ∈ l }) : Prop := r a b
  have : Std.Total s := ⟨fun a b => htotal a a.2 b b.2⟩
  have : IsTrans _ s := ⟨fun a b c => htrans a a.2 b b.2 c c.2⟩
  have hmap := List.map_insertionSort s r Subtype.val l.attach fun _ _ _ _ => Iff.rfl
  rw [List.attach_map_subtype_val] at hmap
  rw [← hmap, List.pairwise_map]
  exact List.pairwise_insertionSort s _

/-- Times are whole numbers here, and the texts are compared code point by code point. -/
def codePoints : Engine ℕ where
  numberText time := time.elim "NaN" toString
  slash_notMem_numberText := by
    rintro (_ | n)
    · decide
    · intro h
      rw [Option.elim_some, toString_toList] at h
      exact absurd (Nat.isDigit_of_mem_toDigits (by decide) (by decide) h) (by decide)
  localeCompare s t := if s < t then -1 else if t < s then 1 else 0
  localeCompare_neg_iff s t := by
    rcases lt_trichotomy s t with h | rfl | h
    · simp [h, h.not_gt]
    · simp
    · simp [h, h.not_gt]
  localeCompare_trans s t u := by
    have hle (s t : String) : (if s < t then -1 else if t < s then 1 else 0 : ℤ) ≤ 0 ↔ s ≤ t := by
      rcases lt_trichotomy s t with h | rfl | h
      · simp [h, h.le]
      · simp
      · simp [h, h.not_gt]
    rw [hle, hle, hle]
    exact le_trans
  eq_of_localeCompare a b h := by
    split_ifs at h with hlt hgt
    · cases h
    · exact bytesToHex_injective (le_antisymm (not_lt.1 hgt) (not_lt.1 hlt))
  sort compare messages := messages.insertionSort fun a b => compare a b ≤ 0
  sort_perm compare messages := List.perm_insertionSort _ _
  sort_pairwise compare messages hneg htrans :=
    pairwise_insertionSort _ messages (fun a ha b hb => by have := hneg a ha b hb; omega) htrans

def hello : StoredMessage ℕ := ⟨.received, "hello", [1], some 5⟩
def reply : StoredMessage ℕ := ⟨.sent, "reply", [2], some 3⟩

def reloaded (events : List (Event ℕ)) : Option (Conversation ℕ) :=
  (reduceConversations codePoints .empty (.restored room
    (list (Machine.run (Console.next codePoints) .new events).store room))).get room

/-- One message live and one from the history, which has both. -/
def split : List (Event ℕ) :=
  [.dispatch (.opened room), .append room hello, .dispatch (.message room hello),
    .append room reply, .dispatch (.restored room [hello, reply])]

end Sample

theorem history_reload_shows_same_sample :
    Sample.reloaded Sample.split = some ⟨[Sample.reply, Sample.hello], 0⟩ := by
  have hroom : IsRoomPath Sample.room := ⟨.dm (deviceIdToHex WireMesh.Sample.lowerId)
    (deviceIdToHex WireMesh.Sample.higherId), by decide +kernel⟩
  have hall : Consistent [(Sample.room, Sample.hello), (Sample.room, Sample.reply)] := by
    refine ⟨by simp [hroom], by simp [Sample.hello, Sample.reply], ?_⟩
    intro roomPath m m' hm hm' hid
    simp only [List.mem_cons, Prod.mk.injEq, List.not_mem_nil, or_false] at hm hm'
    rcases hm with ⟨-, rfl⟩ | ⟨-, rfl⟩ <;> rcases hm' with ⟨-, rfl⟩ | ⟨-, rfl⟩ <;>
      simp_all [Sample.hello, Sample.reply]
  have hentry : (Machine.run (Console.next Sample.codePoints) .new
      Sample.split).conversations.get Sample.room = some ⟨[Sample.reply, Sample.hello], 1⟩ := by
    decide +kernel
  have hevents : ∀ e ∈ Sample.split,
      Allowed [(Sample.room, Sample.hello), (Sample.room, Sample.reply)] e := by
    simp [Sample.split, Allowed, Sample.hello, Sample.reply]
  refine (history_reload_shows_same Sample.codePoints hall hevents hroom hentry).2.2 fun m => ?_
  have happended : (Machine.run (Console.next Sample.codePoints) .new Sample.split).appended =
      [(Sample.room, Sample.hello), (Sample.room, Sample.reply)] := rfl
  have hdispatched : (Machine.run (Console.next Sample.codePoints) .new Sample.split).dispatched =
      [(Sample.room, Sample.hello), (Sample.room, Sample.hello), (Sample.room, Sample.reply)] := by
    decide +kernel
  rw [happended, hdispatched]
  simp

/-- The same message with two times is shown once, and twice after a reload. -/
theorem history_reload_differs :
    let again : StoredMessage ℕ := { Sample.hello with sentAt := some 6 }
    let events : List (Event ℕ) := [.dispatch (.opened Sample.room),
      .append Sample.room Sample.hello, .dispatch (.message Sample.room Sample.hello),
      .append Sample.room again, .dispatch (.message Sample.room again)]
    (Machine.run (Console.next Sample.codePoints) .new events).conversations.get Sample.room =
        some ⟨[Sample.hello], 1⟩ ∧
      Sample.reloaded events = some ⟨[Sample.hello, again], 0⟩ := by
  decide +kernel

end WireMesh.TypeScript.WebConsole
