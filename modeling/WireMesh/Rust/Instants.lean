import Mathlib.Tactic.IntervalCases
import WireMesh.Calendar
import WireMesh.Rust.Predicates

/-!
# The time an instant names (Rust)

The text of an instant in the form of `Date.prototype.toISOString`, and the time
that `parse_instant_epoch_millis` reads from it.

* `daysFromCivil_eq`: the closed form counts the days of the calendar.
* `parse_instant_counts_millis`: an instant is read as the milliseconds from the
  epoch to it, so that instants are read in the order of the calendar.
-/

namespace WireMesh.Rust

open Calendar

/-! ## The text of an instant -/

/-- The last digits of a number, as many as given. -/
def padded : ℕ → ℕ → List Char
  | 0, _ => []
  | width + 1, n => padded width (n / 10) ++ [Nat.digitChar (n % 10)]

/-- An instant in the form `YYYY-MM-DDTHH:MM:SS.sssZ`. -/
def toISOString (i : Instant) : String := String.ofList <|
  padded 4 i.year ++ '-' :: padded 2 i.month ++ '-' :: padded 2 i.day ++
  'T' :: padded 2 i.hour ++ ':' :: padded 2 i.minute ++ ':' :: padded 2 i.second ++
  '.' :: padded 3 i.millis ++ ['Z']

def digitByte (n : ℕ) : UInt8 := .ofNat (0x30 + n % 10)

/-- The bytes of the last digits of a number. -/
def paddedBytes : ℕ → ℕ → Bytes
  | 0, _ => []
  | width + 1, n => paddedBytes width (n / 10) ++ [digitByte n]

/-- The byte of a digit is one, and no sign. -/
theorem digitByte_spec (n : ℕ) : 0x30 ≤ digitByte n ∧ digitByte n ≤ 0x39 ∧
    (digitByte n).toNat - 0x30 = n % 10 ∧ digitByte n ≠ 0x2d ∧ digitByte n ≠ 0x2b := by
  have : n % 10 < 10 := Nat.mod_lt _ (by decide)
  unfold digitByte
  interval_cases n % 10 <;> decide

theorem foldlM_paddedBytes (width n k : ℕ) :
    (paddedBytes width n).foldlM (fun n b =>
      if 0x30 ≤ b ∧ b ≤ 0x39 then some (10 * n + (b.toNat - 0x30)) else none) k =
    some (k * 10 ^ width + n % 10 ^ width) := by
  induction width generalizing n with
  | zero => simp [paddedBytes, Nat.mod_one]
  | succ width ih =>
    obtain ⟨hle, hge, hval, -⟩ := digitByte_spec n
    have hmod : n % 10 ^ (width + 1) = n % 10 + 10 * (n / 10 % 10 ^ width) := by
      rw [Nat.pow_succ', Nat.mod_mul]
    simp [paddedBytes, ih, hle, hge, hval, hmod]
    ring

theorem parseDigits_paddedBytes {width n : ℕ} (h : n < 10 ^ (width + 1)) :
    parseDigits (paddedBytes (width + 1) n) = some n := by
  have hfold := foldlM_paddedBytes (width + 1) n 0
  rw [Nat.mod_eq_of_lt h, Nat.zero_mul, Nat.zero_add] at hfold
  rw [parseDigits.eq_2 _ (by simp [paddedBytes])]
  exact hfold

theorem not_sign_mem (width n : ℕ) :
    0x2d ∉ paddedBytes width n ∧ 0x2b ∉ paddedBytes width n := by
  induction width generalizing n with
  | zero => simp [paddedBytes]
  | succ width ih =>
    have := digitByte_spec n
    have := ih (n / 10)
    grind [paddedBytes]

theorem ne_sign_cons {width n : ℕ} {rest : Bytes} :
    paddedBytes width n ≠ 0x2d :: rest ∧ paddedBytes width n ≠ 0x2b :: rest := by
  obtain ⟨hminus, hplus⟩ := not_sign_mem width n
  exact ⟨fun h => hminus (h ▸ List.mem_cons_self), fun h => hplus (h ▸ List.mem_cons_self)⟩

theorem parseInt_paddedBytes {width n : ℕ} (h : n < 10 ^ (width + 1)) :
    parseInt (paddedBytes (width + 1) n) = some (n : ℤ) := by
  rw [parseInt.eq_3 _ (fun _ => ne_sign_cons.1) fun _ => ne_sign_cons.2, parseDigits_paddedBytes h]
  rfl

theorem parseUInt_paddedBytes {width n : ℕ} (h : n < 10 ^ (width + 1)) :
    parseUInt (paddedBytes (width + 1) n) = some n := by
  rw [parseUInt.eq_2 _ fun _ => ne_sign_cons.2, parseDigits_paddedBytes h]

theorem utf8_ofList_append (a b : List Char) :
    Cbor.utf8 (String.ofList (a ++ b)) = Cbor.utf8 (String.ofList a) ++
        Cbor.utf8 (String.ofList b) := by
  simp [Cbor.utf8]

theorem utf8_padded (width n : ℕ) :
    Cbor.utf8 (String.ofList (padded width n)) = paddedBytes width n := by
  induction width generalizing n with
  | zero => rfl
  | succ width ih =>
    rw [padded, paddedBytes, utf8_ofList_append, ih]
    congr 1
    have : n % 10 < 10 := Nat.mod_lt _ (by decide)
    unfold digitByte
    interval_cases n % 10 <;> decide

/-! ## The days of the calendar -/

/-- The era of a year, rounded down. -/
theorem era_eq (y : ℤ) : (if 0 ≤ y then y else y - 399).tdiv 400 = y / 400 := by
  split
  case isTrue h => exact Int.tdiv_eq_ediv_of_nonneg h
  case isFalse h =>
    have hneg : y - 399 = -(399 - y) := by omega
    rw [hneg, Int.neg_tdiv, Int.tdiv_eq_ediv_of_nonneg (by omega)]
    omega

/-- The days of the years of the Gregorian calendar before the March of a year, but for a
    constant. -/
def marchDays (y : ℤ) : ℤ := 365 * y + y / 4 - y / 100 + y / 400

theorem marchDays_eq (y : ℤ) :
    y / 400 * 146097 + ((y - y / 400 * 400) * 365 + (y - y / 400 * 400).tdiv 4 -
      (y - y / 400 * 400).tdiv 100) = marchDays y := by
  have hyoe : 0 ≤ y - y / 400 * 400 := by omega
  rw [Int.tdiv_eq_ediv_of_nonneg hyoe, Int.tdiv_eq_ediv_of_nonneg hyoe, marchDays]
  omega

theorem daysOfYears_eq_marchDays (year : ℕ) :
    (daysOfYears year : ℤ) = marchDays (year - 1) + 366 := by
  have := daysOfYears_add year
  rw [marchDays]
  omega

/-- The closed form counts from the epoch with the lengths of the months. -/
theorem daysFromCivil_eq (i : Instant) :
    daysFromCivil i.year i.month i.day = i.dayNumber - daysOfYears 1970 := by
  have hepoch : daysOfYears 1970 = 719528 := by have := daysOfYears_add 1970; omega
  have hyear := daysOfYears_eq_marchDays i.year
  -- the year from March on is counted with the whole of the year before it
  have hmarch : (daysOfYears i.year : ℤ) + daysOfMonths i.year 12 = marchDays i.year + 366 := by
    simpa [daysOfYears] using daysOfYears_eq_marchDays (i.year + 1)
  have hera := marchDays_eq (if i.month ≤ 2 then (i.year : ℤ) - 1 else i.year)
  have h1 := i.one_le_month; have h2 := i.month_le; have h3 := i.one_le_day
  simp only [daysFromCivil, Instant.dayNumber, era_eq, hepoch]
  generalize i.month = m at *
  simp only [daysOfMonths, monthLength] at hmarch
  interval_cases m <;> simp [daysOfMonths, monthLength, -Nat.cast_ite] at hera ⊢ <;> omega

/-! ## Parsing -/

theorem utf8_toISOString (i : Instant) : Cbor.utf8 (toISOString i) =
    paddedBytes 4 i.year ++ 0x2d :: paddedBytes 2 i.month ++ 0x2d :: paddedBytes 2 i.day ++
    0x54 :: paddedBytes 2 i.hour ++ 0x3a :: paddedBytes 2 i.minute ++ 0x3a ::
    paddedBytes 2 i.second ++ 0x2e :: paddedBytes 3 i.millis ++ [0x5a] := by
  have hcons (c : Char) (cs : List Char) : Cbor.utf8 (String.ofList (c :: cs)) =
      Cbor.utf8 (String.ofList [c]) ++ Cbor.utf8 (String.ofList cs) := utf8_ofList_append [c] cs
  simp only [toISOString, utf8_ofList_append, utf8_padded, hcons _ (padded _ _)]
  rfl

theorem parseInstantEpochMillis_toISOString {i : Instant} (hyear : i.year ≤ 9999) :
    parseInstantEpochMillis (toISOString i) = some (i.number - Instant.epoch.number : ℤ) := by
  have h31 : i.day ≤ 31 := i.day_le.trans (monthLength_le _ _)
  have h1 := i.one_le_month; have h2 := i.month_le; have h3 := i.one_le_day
  have h4 := i.hour_lt; have h5 := i.minute_lt; have h6 := i.second_lt; have h7 := i.millis_lt
  have hyear := parseInt_paddedBytes (show i.year < 10 ^ (3 + 1) by omega)
  have hmonth := parseUInt_paddedBytes (show i.month < 10 ^ (1 + 1) by omega)
  have hday := parseUInt_paddedBytes (show i.day < 10 ^ (1 + 1) by omega)
  have hhour := parseInt_paddedBytes (show i.hour < 10 ^ (1 + 1) by omega)
  have hminute := parseInt_paddedBytes (show i.minute < 10 ^ (1 + 1) by omega)
  have hsecond := parseInt_paddedBytes (show i.second < 10 ^ (1 + 1) by omega)
  have hmillis := parseInt_paddedBytes (show i.millis < 10 ^ (2 + 1) by omega)
  have hguard : 1 ≤ i.month ∧ i.month ≤ 12 ∧ 1 ≤ i.day ∧ i.day ≤ 31 ∧ (i.hour : ℤ) < 24 ∧
      (i.minute : ℤ) < 60 ∧ (i.second : ℤ) < 60 := by omega
  simp only [paddedBytes, List.nil_append, List.cons_append]
    at hyear hmonth hday hhour hminute hsecond hmillis
  simp only [parseInstantEpochMillis, guard, utf8_toISOString, paddedBytes, List.nil_append,
    List.cons_append, List.length_cons, List.length_nil, zero_add, Nat.reduceAdd, Nat.reduceLT,
    getElem?_pos, List.getElem_cons_succ, List.getElem_cons_zero, Nat.lt_add_one, and_self,
    ↓reduceIte, Option.pure_def, List.take_succ_cons, List.take_zero, List.drop_zero,
    List.drop_succ_cons, hyear, hmonth, hday, hhour, hminute, hsecond, hmillis,
    Option.failure_eq_none, Option.bind_eq_bind, Option.bind_some, hguard, and_true,
    Option.some.injEq]
  rw [daysFromCivil_eq, Instant.number_epoch, Instant.number, Instant.millisOfDay]
  push_cast
  ring

/-- An instant with a year of four digits is read as the number of milliseconds from the epoch
    to it, and earlier instants as smaller numbers. -/
theorem parse_instant_counts_millis (i : Instant) (hi : i.year ≤ 9999) :
    parseInstantEpochMillis (toISOString i) = some (i.number - Instant.epoch.number : ℤ) ∧
    ∀ j : Instant, j.year ≤ 9999 → i.fields < j.fields →
      ∃ m ∈ parseInstantEpochMillis (toISOString i),
        ∃ n ∈ parseInstantEpochMillis (toISOString j), m < n := by
  refine ⟨parseInstantEpochMillis_toISOString hi, fun j hj hlt => ?_⟩
  have := Instant.number_lt_number hlt
  exact ⟨_, parseInstantEpochMillis_toISOString hi, _, parseInstantEpochMillis_toISOString hj,
    by omega⟩

theorem parse_instant_counts_millis_sample :
    parseInstantEpochMillis "1970-01-01T00:00:00.000Z" = some 0 ∧
    ∃ n ∈ parseInstantEpochMillis "2000-02-29T23:00:00.000Z", 0 < n := by
  let leapDay : Instant :=
    { Instant.epoch with
      year := 2000, month := 2, day := 29, hour := 23
      one_le_month := by decide, month_le := by decide, one_le_day := by decide
      day_le := by decide, hour_lt := by decide }
  obtain ⟨hepoch, hlater⟩ := parse_instant_counts_millis .epoch (by decide)
  obtain ⟨m, hm, n, hn, hlt⟩ := hlater leapDay (by decide) (by decide)
  rw [show toISOString .epoch = "1970-01-01T00:00:00.000Z" by decide] at hepoch hm
  rw [show toISOString leapDay = "2000-02-29T23:00:00.000Z" by decide] at hn
  rw [Int.sub_self] at hepoch
  exact ⟨hepoch, n, hn, Option.some.inj (hm.symm.trans hepoch) ▸ hlt⟩

end WireMesh.Rust
