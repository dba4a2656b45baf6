import Mathlib.Data.String.Basic
import WireMesh.Rust.Room
import WireMesh.TypeScript.Room

/-!
# The spelling of room paths

A room has one path, as `room-path.ts` spells it: the owner and a local name, or the
two devices of a direct message in ascending order.

* `parse_eq_some_iff`: what the parsers of both languages accept.
* `room_paths_one_spelling`: the paths that are spelled are accepted, and what is accepted
  is spelled so but for two devices in descending order.
* `room_path_second_spelling`: a direct message is also accepted the other way around.
-/

namespace WireMesh

/-! ## Device-ids in hexadecimal -/

theorem isHexDigit_iff {c : Char} :
    (c.isDigit || ('a' ≤ c && c ≤ 'f')) = true ↔ ∃ n < 16, n.digitChar = c := by
  constructor
  · intro h
    have hcode : c.toNat ∈ List.range' 48 10 ++ List.range' 97 6 := by
      simp only [Char.isDigit, Bool.or_eq_true, Bool.and_eq_true, decide_eq_true_eq] at h
      simp only [List.mem_append, List.mem_range'_1]
      rcases h with ⟨hlow, hhigh⟩ | ⟨hlow, hhigh⟩
      · exact .inl ⟨hlow, Nat.lt_succ_of_le hhigh⟩
      · exact .inr ⟨hlow, Nat.lt_succ_of_le hhigh⟩
    have hall : ∀ m ∈ List.range' 48 10 ++ List.range' 97 6,
        ∃ n < 16, n.digitChar = Char.ofNat m := by
      decide
    obtain ⟨n, hn, hc⟩ := hall _ hcode
    exact ⟨n, hn, hc.trans (Char.ofNat_toNat c)⟩
  · rintro ⟨n, hn, rfl⟩
    revert n
    decide

/-- Pairs of hexadecimal digits are bytes. -/
theorem exists_hexDigits {n : ℕ} {chars : List Char} (hlen : chars.length = 2 * n)
    (h : ∀ c ∈ chars, (c.isDigit || ('a' ≤ c && c ≤ 'f')) = true) :
    ∃ b : Bytes, b.length = n ∧ b.flatMap hexDigits = chars := by
  induction n generalizing chars with
  | zero => exact ⟨[], rfl, (List.eq_nil_of_length_eq_zero hlen).symm⟩
  | succ n ih =>
    obtain ⟨c, d, chars, rfl⟩ : ∃ c d rest, chars = c :: d :: rest := by
      match chars, hlen with
      | c :: d :: rest, _ => exact ⟨c, d, rest, rfl⟩
    obtain ⟨high, hhigh, rfl⟩ := isHexDigit_iff.1 (h c (by simp))
    obtain ⟨low, hlow, rfl⟩ := isHexDigit_iff.1 (h d (by simp))
    obtain ⟨b, hb, rfl⟩ := ih (by simpa [Nat.mul_add] using hlen) fun c hc => h c (by simp [hc])
    refine ⟨UInt8.ofNat (16 * high + low) :: b, by simp [hb], ?_⟩
    have hbyte : (UInt8.ofNat (16 * high + low)).toNat = 16 * high + low :=
      UInt8.toNat_ofNat_of_lt' (show 16 * high + low < 256 by omega)
    have hdiv : (16 * high + low) / 16 = high := by omega
    have hmod : (16 * high + low) % 16 = low := by omega
    rw [List.flatMap_cons, hexDigits, hbyte, hdiv, hmod]
    rfl

theorem isDeviceIdHex_iff {s : String} : isDeviceIdHex s = true ↔ ∃ d, deviceIdToHex d = s := by
  simp only [isDeviceIdHex, Bool.and_eq_true, decide_eq_true_eq, List.all_eq_true]
  constructor
  · rintro ⟨hlen, hall⟩
    obtain ⟨b, hb, hhex⟩ := exists_hexDigits (n := 32) hlen hall
    exact ⟨⟨b, hb⟩, by rw [deviceIdToHex, bytesToHex, hhex, String.ofList_toList]⟩
  · rintro ⟨d, rfl⟩
    refine ⟨by rw [deviceIdToHex, bytesToHex_length, d.size], fun c hc => isHexDigit_iff.2 ?_⟩
    rw [deviceIdToHex, bytesToHex, String.toList_ofList, List.mem_flatMap] at hc
    obtain ⟨b, -, hc⟩ := hc
    have hb := b.toNat_lt
    simp only [hexDigits, List.mem_cons, List.not_mem_nil, or_false] at hc
    rcases hc with rfl | rfl
    · exact ⟨_, by omega, rfl⟩
    · exact ⟨_, by omega, rfl⟩

/-! ## Parsing -/

/-- A list up to the first occurrence of an item, and from it on. -/
theorem takeWhile_append_cons {c : Char} {l : List Char} (h : c ∈ l) :
    l.takeWhile (· ≠ c) ++ c :: (l.dropWhile (· ≠ c)).tail = l := by
  induction l with
  | nil => cases h
  | cons d l ih =>
    by_cases hd : d = c
    · simp [hd]
    · have hmem : c ∈ l := (List.mem_cons.1 h).resolve_left fun hc => hd hc.symm
      simpa [hd] using ih hmem

theorem splitFirst_eq_some_iff {c : Char} {s before after : String} :
    splitFirst c s = some (before, after) ↔
      s.toList = before.toList ++ c :: after.toList ∧ c ∉ before.toList := by
  rw [splitFirst]
  constructor
  · intro h
    split_ifs at h with hmem
    cases h
    rw [String.toList_ofList, String.toList_ofList]
    refine ⟨(takeWhile_append_cons hmem).symm, fun hc => ?_⟩
    have hall := List.all_eq_true.1 (List.all_takeWhile (p := (· ≠ c)) (l := s.toList)) c hc
    simp at hall
  · rintro ⟨hs, hbefore⟩
    have hall : ∀ d ∈ before.toList, (decide (d ≠ c)) = true := by grind
    rw [hs, if_pos (by simp), List.takeWhile_append_of_pos hall, List.dropWhile_append_of_pos hall]
    simp

namespace ParsedRoomPath

theorem notMem_of_isDeviceIdHex {s : String} (h : isDeviceIdHex s = true) {c : Char}
    (hc : ¬(c.isDigit || ('a' ≤ c && c ≤ 'f')) = true) : c ∉ s.toList := by
  intro hmem
  simp only [isDeviceIdHex, Bool.and_eq_true, List.all_eq_true] at h
  exact hc (h.2 c hmem)

/-- The path with the shape. -/
def path : ParsedRoomPath → String
  | ownerNamed owner localName => owner ++ "/" ++ localName
  | dm first second => first ++ "+" ++ second

/-- The parts of the path are what they should be. -/
def WellFormed : ParsedRoomPath → Prop
  | ownerNamed owner localName => isDeviceIdHex owner = true ∧ isLocalName localName = true
  | dm first second => isDeviceIdHex first = true ∧ isDeviceIdHex second = true ∧ first ≠ second

theorem parseOwnerNamed_eq_some_iff {s : String} {parsed : ParsedRoomPath} :
    parseOwnerNamed s = some parsed ↔ ∃ owner localName, parsed = ownerNamed owner localName ∧
      s = parsed.path ∧ parsed.WellFormed := by
  simp only [parseOwnerNamed, Option.bind_eq_bind, Option.bind_eq_some_iff, Prod.exists,
    splitFirst_eq_some_iff, ← @String.toList_inj s]
  constructor
  · rintro ⟨owner, localName, ⟨hs, -⟩, h⟩
    split_ifs at h with hparts
    cases h
    rw [Bool.and_eq_true] at hparts
    exact ⟨owner, localName, rfl, by simpa [path] using hs, hparts⟩
  · rintro ⟨owner, localName, rfl, hs, howner, hname⟩
    exact ⟨owner, localName, ⟨by simpa [path] using hs, notMem_of_isDeviceIdHex howner (by decide)⟩,
      by simp [howner, hname]⟩

theorem parseDm_eq_some_iff {s : String} {parsed : ParsedRoomPath} :
    parseDm s = some parsed ↔ ∃ first second, parsed = dm first second ∧
      s = parsed.path ∧ parsed.WellFormed := by
  simp only [parseDm, Option.bind_eq_bind, Option.bind_eq_some_iff, Prod.exists,
    splitFirst_eq_some_iff, ← @String.toList_inj s]
  constructor
  · rintro ⟨first, second, ⟨hs, -⟩, h⟩
    split_ifs at h with hparts
    cases h
    simp only [Bool.and_eq_true, decide_eq_true_eq] at hparts
    exact ⟨first, second, rfl, by simpa [path] using hs, hparts.1.1, hparts.1.2, hparts.2⟩
  · rintro ⟨first, second, rfl, hs, hfirst, hsecond, hne⟩
    exact ⟨first, second, ⟨by simpa [path] using hs, notMem_of_isDeviceIdHex hfirst (by decide)⟩,
      by simp [hfirst, hsecond, hne]⟩

/-- What is accepted is the path of well-formed parts, in either order of the devices. -/
theorem parse_eq_some_iff {s : String} {parsed : ParsedRoomPath} :
    parse s = some parsed ↔ s = parsed.path ∧ parsed.WellFormed := by
  rw [parse]
  constructor
  · intro h
    rcases (Option.orElse_eq_some _ _ _).1 h with h | ⟨-, h⟩
    · obtain ⟨_, _, -, hs, hparts⟩ := parseOwnerNamed_eq_some_iff.1 h
      exact ⟨hs, hparts⟩
    · obtain ⟨_, _, -, hs, hparts⟩ := parseDm_eq_some_iff.1 h
      exact ⟨hs, hparts⟩
  · rintro ⟨hs, hparts⟩
    cases parsed with
    | ownerNamed owner localName =>
      have h := parseOwnerNamed_eq_some_iff.2 ⟨owner, localName, rfl, hs, hparts⟩
      exact (Option.orElse_eq_some _ _ _).2 (.inl h)
    | dm first second =>
      refine (Option.orElse_eq_some _ _ _).2 (.inr
        ⟨?_, parseDm_eq_some_iff.2 ⟨_, _, rfl, hs, hparts⟩⟩)
      -- No device-id has a slash, so the path of a direct message has none.
      have hslash : '/' ∉ s.toList := by
        have hfirst := notMem_of_isDeviceIdHex hparts.1 (c := '/') (by decide)
        have hsecond := notMem_of_isDeviceIdHex hparts.2.1 (c := '/') (by decide)
        simp [hs, path, hfirst, hsecond]
      simp [parseOwnerNamed, splitFirst, hslash]

end ParsedRoomPath

/-! ## Spelling -/

namespace TypeScript

def assertDeviceIdHex (value label : String) : Except String Unit :=
  if isDeviceIdHex value then .ok ()
  else .error ("expected " ++ label ++ " to be a 64-character lowercase hex device-id, got " ++
    jsonStringify value)

def ownerNamedRoomPath (owner localName : String) : Except String String := do
  assertDeviceIdHex owner "owner"
  if isLocalName localName then return owner ++ "/" ++ localName
  else throw ("expected localName to match [A-Za-z0-9_-]+, got " ++ jsonStringify localName)

def dmRoomPath (a b : String) : Except String String := do
  assertDeviceIdHex a "a"
  assertDeviceIdHex b "b"
  if a = b then throw ("a DM room path cannot name the same device twice (" ++ a ++ ")")
  else return if a < b then a ++ "+" ++ b else b ++ "+" ++ a

variable {owner localName a b path : String}

theorem assertDeviceIdHex_eq (h : isDeviceIdHex a = true) (label : String) :
    assertDeviceIdHex a label = .ok () := if_pos h

theorem ownerNamedRoomPath_eq (howner : isDeviceIdHex owner = true)
    (hname : isLocalName localName = true) :
    ownerNamedRoomPath owner localName =
      .ok (ParsedRoomPath.ownerNamed owner localName).path := by
  rw [ownerNamedRoomPath, assertDeviceIdHex_eq howner]
  simp [hname, ParsedRoomPath.path, Except.bind, bind, pure, Except.pure]

theorem dmRoomPath_eq (ha : isDeviceIdHex a = true) (hb : isDeviceIdHex b = true) (hne : a ≠ b) :
    dmRoomPath a b =
      .ok (if a < b then ParsedRoomPath.dm a b else ParsedRoomPath.dm b a).path := by
  rw [dmRoomPath, assertDeviceIdHex_eq ha, assertDeviceIdHex_eq hb, if_neg hne]
  split_ifs
  · rfl
  · rfl

end TypeScript

namespace ParsedRoomPath

/-- The devices of a direct message are in ascending order. -/
def Ascending : ParsedRoomPath → Prop
  | ownerNamed _ _ => True
  | dm first second => first < second

/-- The path is one that the functions of `room-path.ts` spell. -/
def Spelled (s : String) : Prop :=
  (∃ owner localName, isLocalName localName = true ∧
    TypeScript.ownerNamedRoomPath (deviceIdToHex owner) localName = .ok s) ∨
  ∃ a b, a ≠ b ∧ TypeScript.dmRoomPath (deviceIdToHex a) (deviceIdToHex b) = .ok s

theorem isDeviceIdHex_deviceIdToHex (d : DeviceId) : isDeviceIdHex (deviceIdToHex d) = true :=
  isDeviceIdHex_iff.2 ⟨d, rfl⟩

/-- What `dmRoomPath` spells is the path of the two devices in ascending order. -/
theorem dmRoomPath_spells {a b : DeviceId} (hne : a ≠ b) :
    ∃ first second, TypeScript.dmRoomPath (deviceIdToHex a) (deviceIdToHex b) =
        .ok (dm first second).path ∧ (dm first second).WellFormed ∧ (dm first second).Ascending ∧
      (first = deviceIdToHex a ∧ second = deviceIdToHex b ∨
        first = deviceIdToHex b ∧ second = deviceIdToHex a) := by
  have ha := isDeviceIdHex_deviceIdToHex a
  have hb := isDeviceIdHex_deviceIdToHex b
  have hhex : deviceIdToHex a ≠ deviceIdToHex b := fun h => hne (deviceIdToHex_inj.1 h)
  rw [TypeScript.dmRoomPath_eq ha hb hhex]
  rcases lt_or_gt_of_ne hhex with hlt | hlt
  · exact ⟨_, _, by rw [if_pos hlt], ⟨ha, hb, hhex⟩, hlt, .inl ⟨rfl, rfl⟩⟩
  · exact ⟨_, _, by rw [if_neg hlt.not_gt], ⟨hb, ha, hhex.symm⟩, hlt, .inr ⟨rfl, rfl⟩⟩

theorem spelled_iff {s : String} :
    Spelled s ↔ ∃ parsed : ParsedRoomPath, s = parsed.path ∧ parsed.WellFormed ∧
      parsed.Ascending := by
  constructor
  · rintro (⟨owner, localName, hname, h⟩ | ⟨a, b, hne, h⟩)
    · have howner := isDeviceIdHex_deviceIdToHex owner
      rw [TypeScript.ownerNamedRoomPath_eq howner hname] at h
      cases h
      exact ⟨_, rfl, ⟨howner, hname⟩, trivial⟩
    · obtain ⟨first, second, hpath, hparts, hasc, -⟩ := dmRoomPath_spells hne
      cases hpath.symm.trans h
      exact ⟨_, rfl, hparts, hasc⟩
  · rintro ⟨parsed, rfl, hparts, hasc⟩
    cases parsed with
    | ownerNamed owner localName =>
      obtain ⟨d, rfl⟩ := isDeviceIdHex_iff.1 hparts.1
      exact .inl ⟨d, localName, hparts.2, TypeScript.ownerNamedRoomPath_eq hparts.1 hparts.2⟩
    | dm first second =>
      obtain ⟨a, rfl⟩ := isDeviceIdHex_iff.1 hparts.1
      obtain ⟨b, rfl⟩ := isDeviceIdHex_iff.1 hparts.2.1
      refine .inr ⟨a, b, fun h => hparts.2.2 (h ▸ rfl), ?_⟩
      rw [TypeScript.dmRoomPath_eq hparts.1 hparts.2.1 hparts.2.2,
        if_pos (show deviceIdToHex a < deviceIdToHex b from hasc)]

/-- Two devices in descending order are accepted, and are not spelled. -/
theorem parse_iff_spelled {s : String} :
    ((∃ parsed, parse s = some parsed) ↔ Spelled s) ↔
      ∀ a b, s = deviceIdToHex a ++ "+" ++ deviceIdToHex b →
        deviceIdToHex a ≤ deviceIdToHex b := by
  rw [spelled_iff]
  constructor
  · intro h a b hs
    by_contra hlt
    have hparse : parse s = some (dm (deviceIdToHex a) (deviceIdToHex b)) :=
      parse_eq_some_iff.2 ⟨hs, isDeviceIdHex_deviceIdToHex a, isDeviceIdHex_deviceIdToHex b,
        (not_le.1 hlt).ne'⟩
    obtain ⟨parsed, hpath, hparts, hasc⟩ := h.1 ⟨_, hparse⟩
    cases (parse_eq_some_iff.2 ⟨hpath, hparts⟩).symm.trans hparse
    exact hlt (le_of_lt hasc)
  · intro h
    refine ⟨fun ⟨parsed, hparse⟩ => ?_, fun ⟨parsed, hs, hparts, _⟩ =>
      ⟨parsed, parse_eq_some_iff.2 ⟨hs, hparts⟩⟩⟩
    obtain ⟨hs, hparts⟩ := parse_eq_some_iff.1 hparse
    refine ⟨parsed, hs, hparts, ?_⟩
    cases parsed with
    | ownerNamed owner localName => trivial
    | dm first second =>
      obtain ⟨a, rfl⟩ := isDeviceIdHex_iff.1 hparts.1
      obtain ⟨b, rfl⟩ := isDeviceIdHex_iff.1 hparts.2.1
      exact lt_of_le_of_ne (h a b hs) hparts.2.2

end ParsedRoomPath

open ParsedRoomPath

/-- What either parser accepts is what is spelled, if and only if the path is not that of two
    devices in descending order. Each parser inverts the spelling, and the path of two devices is
    the only one with their ids in ascending order. -/
theorem room_paths_one_spelling (s : String) :
    ((((∃ parsed, TypeScript.parseRoomPath s = .ok parsed) ↔ Spelled s) ∧
        ((∃ parsed, Rust.parseRoomPath s = some parsed) ↔ Spelled s)) ↔
      ∀ a b, s = deviceIdToHex a ++ "+" ++ deviceIdToHex b → deviceIdToHex a ≤ deviceIdToHex b) ∧
      (∀ owner localName, isLocalName localName = true →
        ∃ path, TypeScript.ownerNamedRoomPath (deviceIdToHex owner) localName = .ok path ∧
          TypeScript.parseRoomPath path = .ok (.ownerNamed (deviceIdToHex owner) localName) ∧
          Rust.parseRoomPath path = some (.ownerNamed (deviceIdToHex owner) localName)) ∧
      ∀ a b, a ≠ b → ∃ first second path,
        (first = deviceIdToHex a ∧ second = deviceIdToHex b ∨
          first = deviceIdToHex b ∧ second = deviceIdToHex a) ∧
        TypeScript.dmRoomPath (deviceIdToHex a) (deviceIdToHex b) = .ok path ∧
        TypeScript.parseRoomPath path = .ok (.dm first second) ∧
        Rust.parseRoomPath path = some (.dm first second) ∧
        ∀ s', Rust.parseRoomPath s' = some (.dm first second) → s' = path := by
  simp only [TypeScript.parseRoomPath_eq_ok_iff, Rust.parseRoomPath]
  refine ⟨by rw [and_self_iff, parse_iff_spelled], ?_, ?_⟩
  · intro owner localName hname
    have howner := isDeviceIdHex_deviceIdToHex owner
    have h := parse_eq_some_iff.2 ⟨rfl, show WellFormed (.ownerNamed _ _) from ⟨howner, hname⟩⟩
    exact ⟨_, TypeScript.ownerNamedRoomPath_eq howner hname, h, h⟩
  · intro a b hne
    obtain ⟨first, second, hpath, hparts, -, hpair⟩ := dmRoomPath_spells hne
    have h := parse_eq_some_iff.2 ⟨rfl, hparts⟩
    exact ⟨first, second, _, hpair, hpath, h, h, fun s' h' => (parse_eq_some_iff.1 h').1⟩

namespace Sample

/-- Two device-ids, the lower first. -/
def idOf (byte : UInt8) : DeviceId := ⟨List.replicate 32 byte, List.length_replicate⟩
def lowerId : DeviceId := idOf 0
def higherId : DeviceId := idOf 1

end Sample

/-- Both parsers accept the path of a direct message with its devices the other way around, which
    is not the path that is spelled for them. -/
theorem room_path_second_spelling :
    TypeScript.parseRoomPath (deviceIdToHex Sample.higherId ++ "+" ++
        deviceIdToHex Sample.lowerId) =
      .ok (.dm (deviceIdToHex Sample.higherId) (deviceIdToHex Sample.lowerId)) ∧
    Rust.parseRoomPath (deviceIdToHex Sample.higherId ++ "+" ++ deviceIdToHex Sample.lowerId) =
      some (.dm (deviceIdToHex Sample.higherId) (deviceIdToHex Sample.lowerId)) ∧
    TypeScript.dmRoomPath (deviceIdToHex Sample.higherId) (deviceIdToHex Sample.lowerId) =
      .ok (deviceIdToHex Sample.lowerId ++ "+" ++ deviceIdToHex Sample.higherId) ∧
    ¬Spelled (deviceIdToHex Sample.higherId ++ "+" ++ deviceIdToHex Sample.lowerId) := by
  have hwrong : ParsedRoomPath.parse (deviceIdToHex Sample.higherId ++ "+" ++
      deviceIdToHex Sample.lowerId) =
        some (.dm (deviceIdToHex Sample.higherId) (deviceIdToHex Sample.lowerId)) := by
    decide +kernel
  refine ⟨TypeScript.parseRoomPath_eq_ok_iff.2 hwrong, hwrong, ?_, ?_⟩
  · decide +kernel
  · rw [spelled_iff]
    rintro ⟨parsed, hs, hparts, hasc⟩
    cases (parse_eq_some_iff.2 ⟨hs, hparts⟩).symm.trans hwrong
    exact absurd (show deviceIdToHex Sample.higherId < deviceIdToHex Sample.lowerId from hasc)
      (by decide +kernel)

end WireMesh
