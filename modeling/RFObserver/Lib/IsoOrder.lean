import RFObserver.Lib.IsoTime

/-! The order of ISO texts against the order of the times. -/

namespace IsoTime

section Fields

/-- Digits with more after them. -/
theorem digits_append_lt {w n m : Nat} {s t : List Char} (small : n < 10 ^ w) (small' : m < 10 ^ w) :
    digits w n ++ s < digits w m ++ t ↔ n < m ∨ n = m ∧ s < t := by
  rw [append_lt_append (by simp), digits_lt, digits_inj, Nat.mod_eq_of_lt small, Nat.mod_eq_of_lt small']

theorem cons_lt_self (c : Char) {s t : List Char} : c :: s < c :: t ↔ s < t := by
  simp

end Fields

namespace DateTime

variable {t u : DateTime}

theorem small (t : DateTime) : t.date.year < 10 ^ 4 ∧ t.date.month < 10 ^ 2 ∧ t.date.day < 10 ^ 2 ∧ t.hour < 10 ^ 2 ∧
    t.minute < 10 ^ 2 ∧ t.second < 10 ^ 2 := by
  have year := t.date.years.2
  have month := t.date.months.2
  have day := t.date.days.2
  have days : Calendar.daysInMonth t.date.year t.date.month ≤ 31 := by
    unfold Calendar.daysInMonth
    split <;> (try split) <;> omega
  have time := t.time
  omega

/-- The text from the fraction of the second on. -/
def tail (t : DateTime) : List Char := t.fraction ++ zoneText t.offset

/-- Texts are in the order of their seconds, and in one second of their tails. -/
theorem isoformat_lt_iff_tail : t.isoformat < u.isoformat ↔
    t.seconds < u.seconds ∨ t.seconds = u.seconds ∧ t.tail < u.tail := by
  obtain ⟨y, mo, d, h, mi, s⟩ := t.small
  obtain ⟨y', mo', d', h', mi', s'⟩ := u.small
  have text : t.isoformat < u.isoformat ↔ t.date.Before u.date ∨ (t.date.year = u.date.year ∧
      t.date.month = u.date.month ∧ t.date.day = u.date.day) ∧ (t.hour < u.hour ∨ t.hour = u.hour ∧
        (t.minute < u.minute ∨ t.minute = u.minute ∧ (t.second < u.second ∨ t.second = u.second ∧ t.tail < u.tail))) := by
    simp only [isoformat, head, tail, List.append_assoc, List.cons_append, digits_append_lt y y', digits_append_lt mo mo',
      digits_append_lt d d', digits_append_lt h h', digits_append_lt mi mi', digits_append_lt s s', cons_lt_self,
      Calendar.Date.Before, and_or_left, or_assoc, and_assoc]
  have same : (t.date.year = u.date.year ∧ t.date.month = u.date.month ∧ t.date.day = u.date.day) ↔
      t.date.ordinal = u.date.ordinal := by
    constructor
    · rintro ⟨year, month, day⟩
      rw [Calendar.Date.eq_of_fields year month day]
    · intro ordinal
      rw [Calendar.Date.ordinal_injective ordinal]
      exact ⟨rfl, rfl, rfl⟩
  rw [text, same, ← Calendar.Date.ordinal_lt_iff]
  have time := t.time
  have time' := u.time
  unfold seconds
  by_cases tails : t.tail < u.tail
  · simp only [tails, and_true]
    omega
  · simp only [tails, and_false, or_false]
    omega

theorem wall_lt_iff : t.wall < u.wall ↔ t.seconds < u.seconds ∨ t.seconds = u.seconds ∧ t.micro < u.micro := by
  have := t.time
  have := u.time
  unfold wall
  omega

/-- UTC comes first among the offsets. -/
theorem zoneText_zero_lt {o : ℤ} (inRange : -86400 < o ∧ o < 86400) (offset : o ≠ 0) :
    zoneText (some 0) < zoneText (some o) := by
  have zero : zoneText (some 0) = '+' :: (digits 2 0 ++ ':' :: (digits 2 0 ++ [])) := rfl
  rw [zero, zoneText]
  by_cases west : o < 0
  · rw [if_pos west, List.cons_append, List.cons_append]
    exact List.cons_lt_cons_iff.mpr (Or.inl (by decide))
  · rw [if_neg west, List.cons_append, List.cons_append, cons_lt_self, List.append_assoc, List.cons_append,
      digits_append_lt (by omega) (by omega), cons_lt_self, digits_append_lt (by omega) (by omega)]
    by_cases whole : o.natAbs % 60 = 0
    · omega
    · rw [if_neg whole]
      have after : [] < ':' :: digits 2 (o.natAbs % 60) := List.nil_lt_cons ..
      simp only [after, and_true]
      omega

theorem utc_zone_lt_iff (u : DateTime) : zoneText (some 0) < zoneText u.offset ↔ ∃ o ∈ u.offset, o ≠ 0 := by
  cases its : u.offset with
  | none => simp [zoneText]
  | some o =>
    by_cases utc : o = 0
    · simp [utc]
    · simp [utc, zoneText_zero_lt (u.zone o its) utc]

/-- A fraction comes after every offset's sign. -/
theorem zone_lt_fraction (o : Option ℤ) (s : List Char) : zoneText o < '.' :: s := by
  cases o with
  | none => exact List.nil_lt_cons ..
  | some o =>
    by_cases west : o < 0
    · rw [zoneText, if_pos west]
      exact List.cons_lt_cons_iff.mpr (Or.inl (by decide))
    · rw [zoneText, if_neg west]
      exact List.cons_lt_cons_iff.mpr (Or.inl (by decide))

theorem tail_lt_iff (utc : t.offset = some 0) :
    t.tail < u.tail ↔ t.micro < u.micro ∨ t.micro = u.micro ∧ ∃ o ∈ u.offset, o ≠ 0 := by
  have micro := t.time.2.2.2
  have micro' := u.time.2.2.2
  have zones := utc_zone_lt_iff u
  unfold tail fraction
  rw [utc]
  by_cases whole : t.micro = 0
  · by_cases whole' : u.micro = 0
    · simp [whole, whole', zones]
    · have first := zone_lt_fraction (some 0) (digits 6 u.micro ++ zoneText u.offset)
      simp only [whole, whole', if_true, if_false, List.nil_append, List.cons_append, first, true_iff]
      omega
  · by_cases whole' : u.micro = 0
    · have last := lt_asymm (zone_lt_fraction u.offset (digits 6 t.micro ++ zoneText (some 0)))
      simp only [whole, whole', if_true, if_false, List.nil_append, List.cons_append, last, false_iff]
      rintro (less | ⟨same, -⟩) <;> omega
    · rw [if_neg whole, if_neg whole', List.cons_append, List.cons_append, cons_lt_self, digits_append_lt micro micro',
        zones]

/-- A UTC text comes before another text when it shows an earlier time, or the
same time and the other is at another offset. -/
theorem isoformat_lt_iff (utc : t.offset = some 0) :
    t.isoformat < u.isoformat ↔ t.wall < u.wall ∨ t.wall = u.wall ∧ ∃ o ∈ u.offset, o ≠ 0 := by
  have micro := t.time.2.2.2
  have micro' := u.time.2.2.2
  have same : t.wall = u.wall ↔ t.seconds = u.seconds ∧ t.micro = u.micro := by
    unfold wall
    omega
  rw [isoformat_lt_iff_tail, tail_lt_iff utc, wall_lt_iff, same]
  by_cases moved : ∃ o ∈ u.offset, o ≠ 0
  · simp only [moved, and_true]
    omega
  · simp only [moved, and_false, or_false]

theorem isoformat_lt_utc (utc : t.offset = some 0) (utc' : u.offset = some 0 ∨ u.offset = none) :
    t.isoformat < u.isoformat ↔ t.wall < u.wall := by
  rw [isoformat_lt_iff utc]
  rcases utc' with same | naive
  · simp [same]
  · simp [naive]

theorem isoformat_injective (same : t.isoformat = u.isoformat) : t = u :=
  Option.some_inj.mp ((fromisoformat_isoformat t).symm.trans (same ▸ fromisoformat_isoformat u))

theorem lt_of_take_lt {s t : List Char} {n : Nat} (less : s.take n < t.take n) : s < t := by
  induction n generalizing s t with
  | zero => simp at less
  | succ n ih =>
    cases s with
    | nil => cases t <;> simp at less ⊢
    | cons c s =>
      cases t with
      | nil => simp at less
      | cons d t =>
        rw [List.take_succ_cons, List.take_succ_cons, List.cons_lt_cons_iff] at less
        exact List.cons_lt_cons_iff.mpr (less.imp_right fun ⟨same, rest⟩ => ⟨same, ih rest⟩)

/-- The first characters of texts are in the order of the texts. -/
theorem take_le_take {s t : List Char} (le : s ≤ t) (n : Nat) : s.take n ≤ t.take n :=
  not_lt.mp fun less => absurd (lt_of_take_lt less) (not_lt.mpr le)

/-- The text of a minute: what two times of one minute begin with. -/
theorem take_minute (t : DateTime) : t.isoformat.take 16 = digits 4 t.date.year ++ '-' :: (digits 2 t.date.month ++
    '-' :: (digits 2 t.date.day ++ 'T' :: (digits 2 t.hour ++ ':' :: digits 2 t.minute))) := by
  have split : t.isoformat = (digits 4 t.date.year ++ '-' :: (digits 2 t.date.month ++ '-' :: (digits 2 t.date.day ++
      'T' :: (digits 2 t.hour ++ ':' :: digits 2 t.minute)))) ++ (':' :: digits 2 t.second ++ t.tail) := by
    simp [isoformat, head, tail]
  rw [split, List.take_left' (by simp)]

theorem take_minute_eq (same : t.seconds / 60 = u.seconds / 60) : t.isoformat.take 16 = u.isoformat.take 16 := by
  have time := t.time
  have time' := u.time
  unfold seconds at same
  have day : t.date.ordinal = u.date.ordinal := by omega
  have hour : t.hour = u.hour := by omega
  have minute : t.minute = u.minute := by omega
  rw [take_minute, take_minute, Calendar.Date.ordinal_injective day, hour, minute]

end DateTime

end IsoTime
