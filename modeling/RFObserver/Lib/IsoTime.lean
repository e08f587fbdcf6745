import Mathlib.Data.Char
import Mathlib.Data.List.Lex
import Mathlib.Tactic
import RFObserver.Lib.Calendar
import RFObserver.Lib.RoundHalfEven

/-! Times with microseconds and a UTC offset, their ISO 8601 text, and the order
of such texts. -/

namespace IsoTime

section Digits

def digitChar (d : Nat) : Char := Char.ofNat (48 + d % 10)

def digitValue (c : Char) : Option Nat := if 48 ≤ c.toNat ∧ c.toNat < 58 then some (c.toNat - 48) else none

/-- `n` in decimal with `w` digits, the lowest ones. -/
def digits : Nat → Nat → List Char
  | 0, _ => []
  | w + 1, n => digitChar (n / 10 ^ w) :: digits w n

/-- A number of exactly `w` digits, after the digits read so far. -/
def number (read : Nat) : Nat → List Char → Option (Nat × List Char)
  | 0, t => some (read, t)
  | _ + 1, [] => none
  | w + 1, c :: t => (digitValue c).bind fun d => number (read * 10 + d) w t

theorem digitChar_toNat (d : Nat) : (digitChar d).toNat = 48 + d % 10 := by
  have small : d % 10 < 10 := Nat.mod_lt _ (by omega)
  unfold digitChar
  interval_cases d % 10 <;> rfl

theorem digitValue_digitChar (d : Nat) : digitValue (digitChar d) = some (d % 10) := by
  have small : d % 10 < 10 := Nat.mod_lt _ (by omega)
  rw [digitValue, digitChar_toNat, if_pos (by omega)]
  simp

theorem digitChar_lt {d e : Nat} : digitChar d < digitChar e ↔ d % 10 < e % 10 := by
  have order : digitChar d < digitChar e ↔ (digitChar d).toNat < (digitChar e).toNat := Iff.rfl
  rw [order, digitChar_toNat, digitChar_toNat]
  omega

@[simp] theorem digits_length (w n : Nat) : (digits w n).length = w := by
  induction w with
  | zero => rfl
  | succ w ih => simp [digits, ih]

theorem mod_pow_succ (n w : Nat) : n % 10 ^ (w + 1) = n / 10 ^ w % 10 * 10 ^ w + n % 10 ^ w := by
  rw [Nat.mod_pow_succ]
  ring

theorem number_digits (read w n : Nat) (t : List Char) :
    number read w (digits w n ++ t) = some (read * 10 ^ w + n % 10 ^ w, t) := by
  induction w generalizing read with
  | zero => simp [number, digits, Nat.mod_one]
  | succ w ih =>
    simp only [digits, List.cons_append, number, digitValue_digitChar, Option.bind_some, ih, mod_pow_succ n w]
    congr 2
    ring

theorem number_small {w n : Nat} (small : n < 10 ^ w) (t : List Char) : number 0 w (digits w n ++ t) = some (n, t) := by
  rw [number_digits, Nat.mod_eq_of_lt small, Nat.zero_mul, Nat.zero_add]

end Digits

section Order
variable {a b c d : List Char}

/-- Texts with heads of one length. -/
theorem append_lt_append (same : a.length = b.length) : a ++ c < b ++ d ↔ a < b ∨ a = b ∧ c < d := by
  induction a generalizing b with
  | nil =>
    cases List.length_eq_zero_iff.mp same.symm
    simp
  | cons x a ih =>
    cases b with
    | nil => simp at same
    | cons y b =>
      have rest := ih (by simpa using same)
      simp only [List.cons_append, List.cons_lt_cons_iff, rest, List.cons.injEq]
      tauto

theorem digits_lt {w n m : Nat} : digits w n < digits w m ↔ n % 10 ^ w < m % 10 ^ w := by
  induction w with
  | zero => simp [digits, Nat.mod_one]
  | succ w ih =>
    have high : digitChar (n / 10 ^ w) = digitChar (m / 10 ^ w) ↔ n / 10 ^ w % 10 = m / 10 ^ w % 10 := by
      rw [← Char.toNat_inj, digitChar_toNat, digitChar_toNat]
      omega
    have positive : 0 < 10 ^ w := Nat.pow_pos (by omega)
    have lowN := Nat.mod_lt n positive
    have lowM := Nat.mod_lt m positive
    simp only [digits, List.cons_lt_cons_iff, digitChar_lt, high, ih, mod_pow_succ]
    constructor
    · rintro (lower | ⟨same, lower⟩)
      · have := Nat.mul_le_mul_right (10 ^ w) (Nat.succ_le_of_lt lower)
        rw [Nat.succ_mul] at this
        omega
      · rw [same]
        omega
    · intro lower
      rcases Nat.lt_trichotomy (n / 10 ^ w % 10) (m / 10 ^ w % 10) with less | same | more
      · exact Or.inl less
      · rw [same] at lower
        exact Or.inr ⟨same, by omega⟩
      · have := Nat.mul_le_mul_right (10 ^ w) (Nat.succ_le_of_lt more)
        rw [Nat.succ_mul] at this
        omega

theorem digits_inj {w n m : Nat} : digits w n = digits w m ↔ n % 10 ^ w = m % 10 ^ w := by
  constructor
  · intro same
    have forth := number_digits 0 w n []
    rw [same, number_digits] at forth
    simpa using forth.symm
  · intro same
    refine le_antisymm (not_lt.mp fun less => ?_) (not_lt.mp fun less => ?_)
    · have := digits_lt.mp less
      omega
    · have := digits_lt.mp less
      omega

end Order

/-- A time of day on a date, at an offset of so many seconds from UTC or naive. -/
structure DateTime where
  date : Calendar.Date
  hour : Nat
  minute : Nat
  second : Nat
  micro : Nat
  offset : Option ℤ
  time : hour < 24 ∧ minute < 60 ∧ second < 60 ∧ micro < 10 ^ 6
  zone : ∀ o ∈ offset, -86400 < o ∧ o < 86400
  deriving DecidableEq

namespace DateTime

variable (t : DateTime)

/-- The seconds and the microseconds on the clock since the day before January 1 of year 1. -/
def seconds : Nat := t.date.ordinal * 86400 + t.hour * 3600 + t.minute * 60 + t.second
def wall : Nat := t.seconds * 10 ^ 6 + t.micro

/-- The instant in microseconds; a naive time counts as UTC. -/
def instant : ℤ := t.wall - t.offset.getD 0 * 10 ^ 6

def head : List Char :=
  digits 4 t.date.year ++ '-' :: digits 2 t.date.month ++ '-' :: digits 2 t.date.day ++ 'T' :: digits 2 t.hour ++
    ':' :: digits 2 t.minute ++ ':' :: digits 2 t.second

def fraction : List Char := if t.micro = 0 then [] else '.' :: digits 6 t.micro

def zoneText : Option ℤ → List Char
  | none => []
  | some o =>
    (if o < 0 then '-' else '+') :: digits 2 (o.natAbs / 3600) ++ ':' :: digits 2 (o.natAbs / 60 % 60) ++
      if o.natAbs % 60 = 0 then [] else ':' :: digits 2 (o.natAbs % 60)

def isoformat : List Char := t.head ++ t.fraction ++ zoneText t.offset

end DateTime

section Parsing

def expect (c : Char) : List Char → Option (List Char)
  | x :: t => if x = c then some t else none
  | [] => none

/-- `HH[:MM[:SS[.fff[fff]]]]`, the whole text. -/
def clock (t : List Char) : Option (Nat × Nat × Nat × Nat) :=
  (number 0 2 t).bind fun (h, t) =>
    if t = [] then some (h, 0, 0, 0) else
    (expect ':' t).bind fun t => (number 0 2 t).bind fun (m, t) =>
      if t = [] then some (h, m, 0, 0) else
      (expect ':' t).bind fun t => (number 0 2 t).bind fun (s, t) =>
        if t = [] then some (h, m, s, 0) else
        (expect '.' t).bind fun t =>
          if t.length = 6 then (number 0 6 t).map fun u => (h, m, s, u.1)
          else if t.length = 3 then (number 0 3 t).map fun u => (h, m, s, u.1 * 1000)
          else none

/-- Nothing, or a sign and `HH:MM[:SS]`. -/
def zoneOf : List Char → Option (Option ℤ)
  | [] => some none
  | sign :: t =>
    if t.length = 5 ∨ t.length = 8 then
      (clock t).map fun (h, m, s, _) =>
        some ((if sign = '-' then -1 else 1) * ((h * 3600 + m * 60 + s : Nat) : ℤ))
    else none

def DateTime.of? (y mo d h mi s u : Nat) (z : Option ℤ) : Option DateTime :=
  if valid : (((1 ≤ y ∧ y ≤ 9999) ∧ (1 ≤ mo ∧ mo ≤ 12) ∧ (1 ≤ d ∧ d ≤ Calendar.daysInMonth y mo)) ∧
      (h < 24 ∧ mi < 60 ∧ s < 60 ∧ u < 10 ^ 6) ∧ ∀ o ∈ z, -86400 < o ∧ o < 86400) then
    some ⟨⟨y, mo, d, valid.1.1, valid.1.2.1, valid.1.2.2⟩, h, mi, s, u, z, valid.2.1, valid.2.2⟩
  else none

/-- A date, any separator and a time of day with or without an offset, or a date alone. -/
def fromisoformat (t : List Char) : Option DateTime :=
  (number 0 4 t).bind fun (y, t) => (expect '-' t).bind fun t => (number 0 2 t).bind fun (mo, t) =>
    (expect '-' t).bind fun t => (number 0 2 t).bind fun (d, t) =>
      match t with
      | [] => DateTime.of? y mo d 0 0 0 0 none
      | _ :: t =>
        let parts := t.span fun c => c ≠ '+' && c ≠ '-'
        (clock parts.1).bind fun (h, mi, s, u) => (zoneOf parts.2).bind fun z => DateTime.of? y mo d h mi s u z

end Parsing

section RoundTrip

theorem digits_bare {w n : Nat} : ∀ c ∈ digits w n, c ≠ '+' ∧ c ≠ '-' := by
  intro c member
  induction w with
  | zero => cases member
  | succ w ih =>
    rcases List.mem_cons.mp member with rfl | later
    · have value := digitChar_toNat (n / 10 ^ w)
      constructor <;> intro same <;> rw [same] at value <;> simp at value <;> omega
    · exact ih later

@[simp] theorem expect_self (c : Char) (t : List Char) : expect c (c :: t) = some t := by
  simp [expect]

theorem digits_append_ne_nil {w n : Nat} (t : List Char) (positive : 0 < w) : digits w n ++ t ≠ [] := by
  intro empty
  have := congrArg List.length empty
  simp at this
  omega

namespace DateTime

variable (t : DateTime)

def clockText : List Char :=
  digits 2 t.hour ++ ':' :: (digits 2 t.minute ++ ':' :: (digits 2 t.second ++ t.fraction))

theorem isoformat_eq : t.isoformat = digits 4 t.date.year ++ '-' :: (digits 2 t.date.month ++ '-' ::
    (digits 2 t.date.day ++ 'T' :: (t.clockText ++ zoneText t.offset))) := by
  simp [isoformat, head, clockText]

theorem clock_clockText : clock t.clockText = some (t.hour, t.minute, t.second, t.micro) := by
  obtain ⟨hour, minute, second, micro⟩ := t.time
  unfold clock clockText
  rw [number_small (by omega : t.hour < 10 ^ 2)]
  simp only [Option.bind_some, reduceCtorEq, if_false, expect_self]
  rw [number_small (by omega : t.minute < 10 ^ 2)]
  simp only [Option.bind_some, reduceCtorEq, if_false, expect_self]
  rw [number_small (by omega : t.second < 10 ^ 2)]
  unfold fraction
  by_cases whole : t.micro = 0
  · simp [whole]
  · have read := number_small micro []
    rw [List.append_nil] at read
    simp [whole, read]

theorem clockText_bare : ∀ c ∈ t.clockText, (c ≠ '+' && c ≠ '-') = true := by
  intro c member
  simp only [clockText, fraction, List.mem_append, List.mem_cons] at member
  have bare : c ≠ '+' ∧ c ≠ '-' := by
    rcases member with digit | rfl | digit | rfl | digit | part
    · exact digits_bare c digit
    · decide
    · exact digits_bare c digit
    · decide
    · exact digits_bare c digit
    · by_cases whole : t.micro = 0
      · simp [whole] at part
      · rw [if_neg whole] at part
        rcases List.mem_cons.mp part with rfl | digit
        · decide
        · exact digits_bare c digit
  simpa using bare

theorem zoneText_starts {o : Option ℤ} : ∀ c ∈ (zoneText o).head?, (c ≠ '+' && c ≠ '-') = false := by
  cases o with
  | none => simp [zoneText]
  | some o =>
    intro c first
    by_cases west : o < 0
    · simp only [zoneText, west, if_true, List.cons_append, List.head?_cons, Option.mem_some_iff] at first
      subst first
      decide
    · simp only [zoneText, west, if_false, List.cons_append, List.head?_cons, Option.mem_some_iff] at first
      subst first
      decide

theorem span_head {p : Char → Bool} {a b : List Char} (all : ∀ c ∈ a, p c = true) (stop : ∀ c ∈ b.head?, p c = false) :
    (a ++ b).span p = (a, b) := by
  rw [List.span_eq_takeWhile_dropWhile]
  have first : b.takeWhile p = [] ∧ b.dropWhile p = b := by
    cases b with
    | nil => exact ⟨rfl, rfl⟩
    | cons c b =>
      have stops := stop c rfl
      simp [stops]
  rw [List.takeWhile_append_of_pos all, List.dropWhile_append_of_pos all, first.1, first.2, List.append_nil]

theorem zoneOf_sign (sign : Char) {n : Nat} (inRange : n < 86400) :
    zoneOf (sign :: digits 2 (n / 3600) ++ ':' :: digits 2 (n / 60 % 60) ++
      if n % 60 = 0 then [] else ':' :: digits 2 (n % 60)) = some (some ((if sign = '-' then -1 else 1) * (n : ℤ))) := by
  have hours := number_small (by omega : n / 3600 < 10 ^ 2)
  have minutes := number_small (by omega : n / 60 % 60 < 10 ^ 2)
  have seconds := number_small (by omega : n % 60 < 10 ^ 2) []
  rw [List.append_nil] at seconds
  by_cases whole : n % 60 = 0
  · have sum : n / 3600 * 3600 + n / 60 % 60 * 60 + 0 = n := by omega
    simp only [whole, if_true, List.append_nil, List.cons_append, zoneOf, List.length_append, List.length_cons,
      digits_length, Nat.reduceAdd, true_or, clock, hours, Option.bind_some, reduceCtorEq, if_false, expect_self]
    rw [← List.append_nil (digits 2 (n / 60 % 60)), minutes]
    simp only [Option.bind_some, if_true, Option.map_some, sum]
  · have sum : n / 3600 * 3600 + n / 60 % 60 * 60 + n % 60 = n := by omega
    simp only [whole, if_false, List.append_assoc, List.cons_append, zoneOf, List.length_append, List.length_cons,
      digits_length, Nat.reduceAdd, or_true, if_true, clock, hours, minutes, seconds, Option.bind_some, reduceCtorEq,
      expect_self, Option.map_some, sum]

theorem zoneOf_zoneText {o : Option ℤ} (inRange : ∀ z ∈ o, -86400 < z ∧ z < 86400) : zoneOf (zoneText o) = some o := by
  cases o with
  | none => rfl
  | some z =>
    have bounds := inRange z rfl
    have read := fun sign => zoneOf_sign sign (by omega : z.natAbs < 86400)
    rw [zoneText, read]
    by_cases west : z < 0
    · simp only [west, if_true, Option.some.injEq]
      omega
    · have value : (z.natAbs : ℤ) = z := by omega
      simp [west, value]

theorem of?_self : DateTime.of? t.date.year t.date.month t.date.day t.hour t.minute t.second t.micro t.offset = some t := by
  rw [of?, dif_pos ⟨⟨t.date.years, t.date.months, t.date.days⟩, t.time, t.zone⟩]

/-- A date, a clock's text and a zone are read one after another. -/
theorem fromisoformat_clock {text : List Char} (bare : ∀ c ∈ text, (c ≠ '+' && c ≠ '-') = true)
    (read : clock text = some (t.hour, t.minute, t.second, t.micro)) :
    fromisoformat (digits 4 t.date.year ++ '-' :: (digits 2 t.date.month ++ '-' ::
      (digits 2 t.date.day ++ 'T' :: (text ++ zoneText t.offset)))) = some t := by
  have year : t.date.year < 10 ^ 4 := by have := t.date.years.2; omega
  have month : t.date.month < 10 ^ 2 := by have := t.date.months.2; omega
  have day : t.date.day < 10 ^ 2 := by
    have := t.date.days.2
    have : Calendar.daysInMonth t.date.year t.date.month ≤ 31 := by
      unfold Calendar.daysInMonth
      split <;> (try split) <;> omega
    omega
  unfold fromisoformat
  rw [number_small year]
  simp only [Option.bind_some, expect_self]
  rw [number_small month]
  simp only [Option.bind_some, expect_self]
  rw [number_small day]
  simp only [Option.bind_some, span_head bare zoneText_starts, read, zoneOf_zoneText t.zone, of?_self]

/-- Reading a time's ISO text gives the time. -/
theorem fromisoformat_isoformat : fromisoformat t.isoformat = some t := by
  rw [isoformat_eq, t.fromisoformat_clock t.clockText_bare t.clock_clockText]

/-- The clock's text with milliseconds. -/
def millisText : List Char :=
  digits 2 t.hour ++ ':' :: (digits 2 t.minute ++ ':' :: (digits 2 t.second ++ '.' :: digits 3 (t.micro / 1000)))

theorem millisText_bare : ∀ c ∈ t.millisText, (c ≠ '+' && c ≠ '-') = true := by
  intro c member
  simp only [millisText, List.mem_append, List.mem_cons] at member
  have bare : c ≠ '+' ∧ c ≠ '-' := by
    rcases member with digit | rfl | digit | rfl | digit | rfl | digit
    · exact digits_bare c digit
    · decide
    · exact digits_bare c digit
    · decide
    · exact digits_bare c digit
    · decide
    · exact digits_bare c digit
  simpa using bare

theorem clock_millisText (whole : t.micro % 1000 = 0) : clock t.millisText = some (t.hour, t.minute, t.second, t.micro) := by
  obtain ⟨hour, minute, second, micro⟩ := t.time
  have part := number_small (by omega : t.micro / 1000 < 10 ^ 3) []
  rw [List.append_nil] at part
  unfold clock millisText
  rw [number_small (by omega : t.hour < 10 ^ 2)]
  simp only [Option.bind_some, reduceCtorEq, if_false, expect_self]
  rw [number_small (by omega : t.minute < 10 ^ 2)]
  simp only [Option.bind_some, reduceCtorEq, if_false, expect_self]
  rw [number_small (by omega : t.second < 10 ^ 2)]
  simp only [Option.bind_some, reduceCtorEq, if_false, expect_self, digits_length, Nat.reduceEqDiff, if_true, part,
    Option.map_some, Option.some.injEq, Prod.mk.injEq, true_and]
  omega

/-- Reading a text with milliseconds gives the time, when it has no smaller part. -/
theorem fromisoformat_millis (whole : t.micro % 1000 = 0) :
    fromisoformat (t.head ++ '.' :: digits 3 (t.micro / 1000) ++ zoneText t.offset) = some t := by
  have same : t.head ++ '.' :: digits 3 (t.micro / 1000) ++ zoneText t.offset = digits 4 t.date.year ++ '-' ::
      (digits 2 t.date.month ++ '-' :: (digits 2 t.date.day ++ 'T' :: (t.millisText ++ zoneText t.offset))) := by
    simp [head, millisText]
  rw [same, t.fromisoformat_clock t.millisText_bare (t.clock_millisText whole)]

end DateTime

end RoundTrip

namespace DateTime

/-- The time that the clock shows after so many microseconds, at an offset. -/
def ofWall (n : Nat) (offset : Option ℤ) : Option DateTime :=
  let day := n / 10 ^ 6 / 86400
  if inRange : (1 ≤ day ∧ day ≤ Calendar.maxOrdinal) ∧ ∀ o ∈ offset, -86400 < o ∧ o < 86400 then
    some ⟨.ofOrdinal day inRange.1.1 inRange.1.2, n / 10 ^ 6 % 86400 / 3600, n / 10 ^ 6 % 3600 / 60, n / 10 ^ 6 % 60,
      n % 10 ^ 6, offset, by omega, inRange.2⟩
  else none

theorem wall_ofWall {n : Nat} {offset : Option ℤ} {t : DateTime} (shown : ofWall n offset = some t) :
    t.wall = n ∧ t.offset = offset := by
  unfold ofWall at shown
  obtain ⟨inRange, ⟨⟩⟩ := Option.dite_none_right_eq_some.mp shown
  refine ⟨?_, rfl⟩
  unfold wall seconds
  simp only [Calendar.Date.ordinal_ofOrdinal]
  omega

theorem ofWall_wall (t : DateTime) : ofWall t.wall t.offset = some t := by
  obtain ⟨hour, minute, second, micro⟩ := t.time
  have sec : t.wall / 10 ^ 6 = t.seconds := by unfold wall; omega
  have day : t.seconds / 86400 = t.date.ordinal := by unfold seconds; omega
  unfold ofWall
  rw [dif_pos ⟨by rw [sec, day]; exact ⟨t.date.ordinal_pos, t.date.ordinal_le⟩, t.zone⟩]
  have date : Calendar.Date.ofOrdinal (t.wall / 10 ^ 6 / 86400) (by rw [sec, day]; exact t.date.ordinal_pos)
      (by rw [sec, day]; exact t.date.ordinal_le) = t.date :=
    Calendar.Date.ordinal_injective (by rw [Calendar.Date.ordinal_ofOrdinal, sec, day])
  obtain ⟨d, h, mi, s, u, o, time, zone⟩ := t
  simp only [Option.some.injEq, DateTime.mk.injEq]
  refine ⟨date, ?_, ?_, ?_, ?_, trivial⟩ <;> simp only [wall, seconds] at * <;> omega

def epochSeconds : ℤ := 719163 * 86400

/-- Seconds since 1970, exactly. -/
def timestamp (t : DateTime) : ℚ := ((t.instant - epochSeconds * 10 ^ 6 : ℤ) : ℚ) / 10 ^ 6

/-- The time at an offset, to the nearest microsecond. -/
def fromtimestamp (x : ℚ) (offset : ℤ) : Option DateTime :=
  let n := roundHalfEven (x * 10 ^ 6) + epochSeconds * 10 ^ 6 + offset * 10 ^ 6
  if 0 ≤ n then ofWall n.toNat (some offset) else none

theorem round_timestamp (t : DateTime) : roundHalfEven (t.timestamp * 10 ^ 6) = t.instant - epochSeconds * 10 ^ 6 := by
  have exactly : t.timestamp * 10 ^ 6 = ((t.instant - epochSeconds * 10 ^ 6 : ℤ) : ℚ) := by
    unfold timestamp
    field_simp
  apply RoundHalfEven.eq_of_near
  rw [exactly]
  simp

/-- The time of an aware time's timestamp, at its own offset. -/
theorem fromtimestamp_timestamp {t : DateTime} {o : ℤ} (aware : t.offset = some o) :
    fromtimestamp t.timestamp o = some t := by
  have shown : roundHalfEven (t.timestamp * 10 ^ 6) + epochSeconds * 10 ^ 6 + o * 10 ^ 6 = t.wall := by
    rw [round_timestamp, instant, aware, Option.getD_some]
    ring
  unfold fromtimestamp
  simp only [shown]
  rw [if_pos (Int.natCast_nonneg _), Int.toNat_natCast, ← aware]
  exact t.ofWall_wall

end DateTime

/-- The ISO text of a UTC time. -/
def utcText (x : ℚ) : List Char := (DateTime.fromtimestamp x 0).elim [] DateTime.isoformat

end IsoTime
