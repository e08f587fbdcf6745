import RFObserver.Schedules.ParseExact

/-! A schedule's stored form, with each instant as a number and as a text. -/

namespace RFObserver
open IsoTime ParseSchedule

/-- `2026-10-28T18:30:00.250Z`; none is for a year outside 1 to 9999. -/
def isoMs (ms : ℤ) : Option (List Char) :=
  (DateTime.fromtimestamp (ms / 1000 : ℤ) 0).map fun dt => dt.head ++ '.' :: digits 3 (ms % 1000).toNat ++ ['Z']

/-- The stored form, as `to_json` builds it; a label, a source and a time of
creation may be missing from one that it did not build. -/
structure ScheduleDict where
  id : List Char
  startMs : ℤ
  durationMs : ℤ
  everyMs : Option ℤ
  count : Option ℤ
  untilMs : Option ℤ
  label : Option (List Char)
  source : Option (List Char)
  createdMs : Option ℤ
  start : List Char
  until_ : Option (List Char)
  runs : ℤ

def ParsedSchedule.toJson (s : ParsedSchedule) : Option ScheduleDict :=
  (isoMs s.startMs).bind fun start =>
    (match s.untilMs with
      | none => some none
      | some u => (isoMs u).map some).bind fun until_ => s.totalRuns.map fun runs =>
        ⟨s.id, s.startMs, s.durationMs, s.everyMs, s.count, s.untilMs, some s.label, some s.source, some s.createdMs,
          start, until_, runs⟩

/-- `value or fallback` -/
def orElse (value : Option (List Char)) (fallback : List Char) : List Char :=
  match value with
  | some (c :: rest) => c :: rest
  | _ => fallback

def ParsedSchedule.fromJson (d : ScheduleDict) : ParsedSchedule where
  id := d.id
  startMs := d.startMs
  durationMs := d.durationMs
  everyMs := d.everyMs
  count := d.count
  untilMs := d.untilMs
  label := orElse d.label []
  source := orElse d.source "api".toList
  createdMs := d.createdMs.getD 0

/-- The first and the last millisecond of the years 1 to 9999. -/
def InYears (ms : ℤ) : Prop := -62135596800000 ≤ ms ∧ ms ≤ 253402300799999

/-- The instant's text reads back. -/
def ReadsBack (ms : ℤ) : Prop := ∃ text, isoMs ms = some text ∧ ∀ name, parseInstant (.str text) name = .ok ms

/-- The schedule has a stored form, which reads back. -/
def ParsedSchedule.Survives (s : ParsedSchedule) : Prop := ∃ d, s.toJson = some d ∧ ParsedSchedule.fromJson d = s

theorem round_seconds (n : ℤ) : roundHalfEven ((n : ℚ) * 10 ^ 6) = n * 10 ^ 6 := by
  have whole : (n : ℚ) * 10 ^ 6 = ((n * 10 ^ 6 : ℤ) : ℚ) := by
    push_cast
    rfl
  rw [whole, RoundHalfEven.of_int]

theorem whole_seconds {ms : ℤ} (inYears : InYears ms) : ∃ dt, DateTime.fromtimestamp (ms / 1000 : ℤ) 0 = some dt ∧
    dt.wall = ((ms / 1000 + DateTime.epochSeconds) * 10 ^ 6 : ℤ) ∧ dt.offset = some 0 := by
  obtain ⟨low, high⟩ := inYears
  have positive : 0 ≤ ms / 1000 * 10 ^ 6 + DateTime.epochSeconds * 10 ^ 6 + 0 * 10 ^ 6 := by
    unfold DateTime.epochSeconds
    omega
  unfold DateTime.fromtimestamp
  simp only [round_seconds, if_pos positive]
  obtain ⟨n, nEq⟩ := Int.eq_ofNat_of_zero_le positive
  rw [nEq, Int.toNat_natCast]
  have day : 1 ≤ n / 10 ^ 6 / 86400 ∧ n / 10 ^ 6 / 86400 ≤ Calendar.maxOrdinal := by
    unfold DateTime.epochSeconds at nEq
    unfold Calendar.maxOrdinal
    omega
  obtain ⟨dt, shown⟩ : ∃ dt, DateTime.ofWall n (some 0) = some dt := by
    unfold DateTime.ofWall
    rw [dif_pos ⟨day, by simp⟩]
    exact ⟨_, rfl⟩
  obtain ⟨wall, offset⟩ := DateTime.wall_ofWall shown
  refine ⟨dt, shown, ?_, offset⟩
  rw [wall]
  omega

theorem inYears_of_text {ms : ℤ} {text : List Char} (written : isoMs ms = some text) : InYears ms := by
  obtain ⟨dt, shown, -⟩ := Option.map_eq_some_iff.mp written
  unfold DateTime.fromtimestamp at shown
  simp only [round_seconds] at shown
  split_ifs at shown with positive
  unfold DateTime.ofWall at shown
  obtain ⟨⟨⟨low, high⟩, -⟩, -⟩ := Option.dite_none_right_eq_some.mp shown
  unfold DateTime.epochSeconds at low high
  unfold Calendar.maxOrdinal at high
  unfold InYears
  omega

theorem zonedTime_text (t : DateTime) (utc : t.offset = some 0) (whole : t.micro % 1000 = 0) :
    zonedTime (t.head ++ '.' :: digits 3 (t.micro / 1000) ++ ['Z']) = some t := by
  have first : ∀ c ∈ (t.head ++ '.' :: digits 3 (t.micro / 1000) ++ ['Z']).head?, Settings.isSpace c = false := by
    intro c isFirst
    have digit : c = digitChar (t.date.year / 1000) := by
      simpa [DateTime.head, digits] using (Option.mem_def.mp isFirst).symm
    have value := digitChar_toNat (t.date.year / 1000)
    unfold Settings.isSpace
    rw [digit, value]
    refine decide_eq_false ?_
    omega
  have last : (t.head ++ '.' :: digits 3 (t.micro / 1000) ++ ['Z']).getLast? = some 'Z' := List.getLast?_concat
  have bare : Settings.strip (t.head ++ '.' :: digits 3 (t.micro / 1000) ++ ['Z']) =
      t.head ++ '.' :: digits 3 (t.micro / 1000) ++ ['Z'] := by
    refine Settings.strip_eq first fun c isLast => ?_
    rw [last] at isLast
    obtain rfl := Option.some.inj isLast
    decide
  have zone : DateTime.zoneText t.offset = "+00:00".toList := by
    rw [utc]
    decide
  unfold zonedTime
  simp only [bare, last, true_or, if_true, List.dropLast_concat]
  rw [← zone, t.fromisoformat_millis whole, Option.filter_some, utc]
  rfl

/-- The text of a whole number of milliseconds. -/
theorem readsBack_of_inYears {ms : ℤ} (inYears : InYears ms) : ReadsBack ms := by
  obtain ⟨dt, shown, wall, offset⟩ := whole_seconds inYears
  obtain ⟨hour, minute, second, micro⟩ := dt.time
  obtain ⟨part, partEq⟩ : ∃ part, (ms % 1000).toNat = part := ⟨_, rfl⟩
  let t : DateTime := { dt with micro := part * 1000, time := ⟨hour, minute, second, by omega⟩ }
  have zoned : zonedTime (dt.head ++ '.' :: digits 3 part ++ ['Z']) = some t := by
    have read := zonedTime_text t offset (Nat.mul_mod_left part 1000)
    have same : t.micro / 1000 = part := Nat.mul_div_cancel part (by norm_num)
    have head : t.head = dt.head := rfl
    rw [same, head] at read
    exact read
  have instant : t.timestamp = (ms : ℚ) / 1000 := by
    have seconds : (dt.seconds : ℤ) = ms / 1000 + DateTime.epochSeconds := by
      have parts : dt.wall = dt.seconds * 10 ^ 6 + dt.micro := rfl
      omega
    have moved : t.instant - DateTime.epochSeconds * 10 ^ 6 = ms * 1000 := by
      have parts : t.instant = ((dt.seconds * 10 ^ 6 + part * 1000 : Nat) : ℤ) - dt.offset.getD 0 * 10 ^ 6 := rfl
      rw [parts, offset, Option.getD_some]
      push_cast
      rw [seconds]
      omega
    rw [DateTime.timestamp, moved]
    push_cast
    ring
  refine ⟨_, by rw [isoMs, shown, Option.map_some, partEq], fun name => ?_⟩
  refine parseInstant_ok.mpr ⟨_, t, rfl, zoned, ?_⟩
  rw [instantMs, instant]
  refine Binary64.round_thousandths ?_
  rw [abs_lt]
  obtain ⟨low, high⟩ := inYears
  omega

theorem readsBack_iff {ms : ℤ} : ReadsBack ms ↔ InYears ms :=
  ⟨fun ⟨_, written, _⟩ => inYears_of_text written, readsBack_of_inYears⟩

theorem toJson_isSome {s : ParsedSchedule} (checked : s.toRunTimes.Checked) :
    (∃ d, s.toJson = some d) ↔ InYears s.startMs ∧ ∀ u ∈ s.untilMs, InYears u := by
  obtain ⟨runs, counted⟩ := checked.total_some
  have written : ∀ ms, (∃ text, isoMs ms = some text) ↔ InYears ms := fun ms =>
    ⟨fun ⟨_, text⟩ => inYears_of_text text, fun inYears => (readsBack_of_inYears inYears).imp fun _ => And.left⟩
  unfold ParsedSchedule.toJson
  rw [counted, ← written]
  simp only [Option.bind_eq_some_iff, Option.map_some]
  constructor
  · rintro ⟨d, start, isStart, until_, isUntil, -⟩
    refine ⟨⟨start, isStart⟩, fun u given => ?_⟩
    rw [Option.mem_def.mp given] at isUntil
    obtain ⟨text, isText, -⟩ := Option.map_eq_some_iff.mp isUntil
    exact inYears_of_text isText
  · rintro ⟨⟨start, isStart⟩, later⟩
    cases given : s.untilMs with
    | none => exact ⟨_, start, isStart, none, rfl, rfl⟩
    | some u =>
      obtain ⟨text, isText⟩ := (written u).mpr (later u given)
      exact ⟨_, start, isStart, some text, by simp [isText], rfl⟩

theorem fromJson_toJson {s : ParsedSchedule} {d : ScheduleDict} (named : s.source ≠ []) (stored : s.toJson = some d) :
    ParsedSchedule.fromJson d = s := by
  unfold ParsedSchedule.toJson at stored
  simp only [Option.bind_eq_some_iff, Option.map_eq_some_iff] at stored
  obtain ⟨start, -, until_, -, runs, -, rfl⟩ := stored
  obtain ⟨r, id, label, source, created⟩ := s
  obtain ⟨c, rest, rfl⟩ := List.exists_cons_of_ne_nil named
  cases label <;> rfl

/-- One window at the start of the year 10000. -/
def farWindow : JsonBody := ⟨[("start_ms", .int 253402300800000), ("duration_ms", .int 1)], by decide⟩

end RFObserver
