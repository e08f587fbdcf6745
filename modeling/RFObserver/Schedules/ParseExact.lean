import RFObserver.Schedules.Parse

namespace RFObserver
namespace ParseSchedule

variable {body : JsonBody} {nowMs graceMs : ℤ} {source : ScheduleSource} {newId : List Char} {allowPast : Bool}

/-- The runs are not too many, and one of them is not over. -/
structure Admissible (r : RunTimes) (nowMs graceMs : ℤ) (allowPast : Bool) : Prop where
  few : ∀ k : Nat, r.IsRun k → (k : ℤ) < maxRuns
  due : allowPast = false → ∃ k : Nat, r.IsRun k ∧ nowMs - graceMs ≤ r.runStartMs k

/-- A body that documents a schedule. -/
structure Documented (body : JsonBody) (nowMs graceMs : ℤ) (allowPast : Bool) : Prop where
  named : Named body
  labelled : Labelled body
  times : ∃ r, Documents body r ∧ Admissible r nowMs graceMs allowPast

/-- 1 to `maxRuns` runs, each over when the next one starts. -/
def RunsApart (r : RunTimes) : Prop :=
  ∃ n, r.totalRuns = some n ∧ 1 ≤ n ∧ n ≤ maxRuns ∧ (∀ k : Nat, r.IsRun k ↔ (k : ℤ) < n) ∧
    ∀ j k : Nat, r.IsRun j → r.IsRun k → j < k → r.runStartMs j + r.durationMs ≤ r.runStartMs k

/-- The documented schedules are accepted, everything else is a `ScheduleError`,
and what is accepted has runs that do not overlap. -/
structure ParsesDocumented (body : JsonBody) (nowMs graceMs : ℤ) (source : ScheduleSource) (newId : List Char)
    (allowPast : Bool) : Prop where
  accepts : (∃ s, parseSchedule body nowMs graceMs source newId allowPast = .ok s) ↔
    Documented body nowMs graceMs allowPast
  raises : parseSchedule body nowMs graceMs source newId allowPast ≠ .error .raised
  apart : ∀ s, parseSchedule body nowMs graceMs source newId allowPast = .ok s → RunsApart s.toRunTimes

/-- An id of 1 to 64 good characters and a line end. -/
def NewlineId (body : JsonBody) : Prop := ∃ text, body.given "id" = some (.str (text ++ ['\n'])) ∧ IsId text

/-- The quotients judge the schedule as exact ones would: none is rounded to 0
or to the other side of a run, and none is beyond the largest double. -/
structure WellJudged (r : RunTimes) (nowMs graceMs : ℤ) (allowPast : Bool) : Prop where
  counted : allowPast = true ∨ nowMs - graceMs ≤ r.startMs → r.CountNormal
  due : allowPast = false → (∀ k : Nat, r.IsRun k → (k : ℤ) < maxRuns) → ∃ found,
    r.firstRunFrom (nowMs - graceMs) = some found ∧
      (found.isSome ↔ ∃ k : Nat, r.IsRun k ∧ nowMs - graceMs ≤ r.runStartMs k)
  shown : allowPast = false → r.everyMs = none → r.startMs < nowMs - graceMs →
    Binary64.div (nowMs - r.startMs) 1000 ≠ none ∧ Binary64.div graceMs 1000 ≠ none

/-- The numbers of the schedule are refused. -/
def Refused (r : RunTimes) (nowMs graceMs : ℤ) (allowPast : Bool) : Prop :=
  (∃ n, r.totalRuns = some n ∧ maxRuns < n) ∨
    (allowPast = false ∧ r.firstRunFrom (nowMs - graceMs) = some none ∧
      (r.everyMs = none → Binary64.div (nowMs - r.startMs) 1000 ≠ none ∧ Binary64.div graceMs 1000 ≠ none))

theorem parseSchedule_ok {s : ParsedSchedule} : parseSchedule body nowMs graceMs source newId allowPast = .ok s ↔
    readId body newId = .ok s.id ∧ Documents body s.toRunTimes ∧ readLabel body = .ok s.label ∧
      checkRuns s.toRunTimes nowMs graceMs allowPast = .ok () ∧ s.source = source.text ∧ s.createdMs = nowMs := by
  unfold parseSchedule
  simp only [bind_ok, map_ok, readTimes_ok]
  constructor
  · rintro ⟨id, isId, r, documents, label, isLabel, ⟨⟩, judged, rfl⟩
    exact ⟨isId, documents, isLabel, judged, rfl, rfl⟩
  · rintro ⟨isId, documents, isLabel, judged, sent, rfl⟩
    exact ⟨_, isId, _, documents, _, isLabel, (), judged, by rw [← sent]⟩

theorem parseSchedule_raised : parseSchedule body nowMs graceMs source newId allowPast = .error .raised ↔
    (∃ id, readId body newId = .ok id) ∧ Labelled body ∧
      ∃ r, Documents body r ∧ checkRuns r nowMs graceMs allowPast = .error .raised := by
  unfold parseSchedule
  simp only [bind_error, map_error, readTimes_ok, readId_raised, readTimes_raised, readLabel_raised, false_or,
    ← readLabel_ok]
  constructor
  · rintro ⟨id, isId, r, documents, label, isLabel, raised⟩
    exact ⟨⟨id, isId⟩, ⟨label, isLabel⟩, r, documents, raised⟩
  · rintro ⟨⟨id, isId⟩, ⟨label, isLabel⟩, r, documents, raised⟩
    exact ⟨id, isId, r, documents, label, isLabel, raised⟩

theorem Documents.unique {r r' : RunTimes} (documents : Documents body r) (documents' : Documents body r') : r = r' := by
  have same := (readTimes_ok.mpr documents).symm.trans (readTimes_ok.mpr documents')
  exact Except.ok.inj same

theorem IsId.not_newline {t : List Char} : ¬ IsId (t ++ ['\n']) := fun good =>
  absurd (good.2.2 '\n' (by simp)) (by decide)

/-- An id is read when it is documented, or has a line end too many. -/
theorem readId_ok (fresh : IsId newId) : (∃ id, readId body newId = .ok id) ↔ Named body ∨ NewlineId body := by
  unfold readId Named NewlineId
  cases given : body.given "id" with
  | none => simp [idMatch_iff, fresh]
  | some value =>
    cases value with
    | str text =>
      simp only [Option.getD_some, reduceCtorEq, Option.some.injEq, JsonValue.str.injEq, exists_eq_left', false_or]
      have read : idMatch text = true ↔ IsId text ∨ ∃ t, text = t ++ ['\n'] ∧ IsId t := idMatch_iff
      split_ifs with good
      · refine iff_of_true ⟨text, rfl⟩ ?_
        rcases read.mp good with plain | ⟨t, rfl, plain⟩
        · exact Or.inl plain
        · exact Or.inr ⟨t, rfl, plain⟩
      · refine iff_of_false (by simp) ?_
        rintro (plain | ⟨t, rfl, plain⟩)
        · exact good (read.mpr (Or.inl plain))
        · exact good (read.mpr (Or.inr ⟨t, rfl, plain⟩))
    | _ => simp

theorem NewlineId.not_named (newline : NewlineId body) : ¬ Named body := by
  obtain ⟨t, given, -⟩ := newline
  rintro (absent | ⟨text, given', plain⟩)
  · cases given.symm.trans absent
  · cases given.symm.trans given'
    exact plain.not_newline

section Runs

variable {r : RunTimes}

theorem checkRuns_ok : checkRuns r nowMs graceMs allowPast = .ok () ↔ ∃ n, r.totalRuns = some n ∧ n ≤ maxRuns ∧
    (allowPast = false → ∃ k, r.firstRunFrom (nowMs - graceMs) = some (some k)) := by
  unfold checkRuns
  cases r.totalRuns with
  | none => simp
  | some n =>
    simp only [Option.some.injEq, exists_eq_left']
    split_ifs with many past once
    · simp [not_le.mpr many]
    · simp [not_lt.mp many, past]
    · have future : allowPast = false := Bool.eq_false_iff.mpr past
      rcases r.firstRunFrom (nowMs - graceMs) with - | - | k <;> simp [not_lt.mp many, future]
      split <;> simp
    · have future : allowPast = false := Bool.eq_false_iff.mpr past
      rcases r.firstRunFrom (nowMs - graceMs) with - | - | k <;> simp [not_lt.mp many, future]

theorem checkRuns_raised : checkRuns r nowMs graceMs allowPast = .error .raised ↔ r.totalRuns = none ∨
    ∃ n, r.totalRuns = some n ∧ n ≤ maxRuns ∧ allowPast = false ∧ (r.firstRunFrom (nowMs - graceMs) = none ∨
      (r.firstRunFrom (nowMs - graceMs) = some none ∧ r.everyMs = none ∧
        ¬ (Binary64.div (nowMs - r.startMs) 1000 ≠ none ∧ Binary64.div graceMs 1000 ≠ none))) := by
  unfold checkRuns
  cases r.totalRuns with
  | none => simp
  | some n =>
    simp only [reduceCtorEq, Option.some.injEq, exists_eq_left', false_or]
    split_ifs with many past once
    · simp [not_le.mpr many]
    · simp [past]
    · have future : allowPast = false := Bool.eq_false_iff.mpr past
      rcases r.firstRunFrom (nowMs - graceMs) with - | - | k <;> simp [not_lt.mp many, future, once]
      cases Binary64.div (nowMs - r.startMs) 1000 <;> cases Binary64.div graceMs 1000 <;> simp
    · have future : allowPast = false := Bool.eq_false_iff.mpr past
      rcases r.firstRunFrom (nowMs - graceMs) with - | - | k <;> simp [not_lt.mp many, future, once]

theorem refused_iff (checked : r.Checked) : Refused r nowMs graceMs allowPast ↔
    checkRuns r nowMs graceMs allowPast ≠ .ok () ∧ checkRuns r nowMs graceMs allowPast ≠ .error .raised := by
  obtain ⟨n, counted⟩ := checked.total_some
  rw [Ne, Ne, checkRuns_ok, checkRuns_raised, Refused, counted]
  simp only [Option.some.injEq, exists_eq_left', reduceCtorEq, false_or, not_and, not_or]
  by_cases many : maxRuns < n
  · simp [many, not_le.mpr many]
  · simp only [many, false_or, not_lt.mp many, true_implies]
    cases allowPast with
    | true => simp
    | false =>
      simp only [true_and, true_implies, not_exists]
      rcases r.firstRunFrom (nowMs - graceMs) with - | - | k <;> simp

theorem runs_apart (checked : r.Checked) (normal : r.CountNormal) {n : ℤ} (counted : r.totalRuns = some n)
    (most : n ≤ maxRuns) : RunsApart r := by
  have runs : ∀ k : Nat, r.IsRun k ↔ (k : ℤ) < n := by
    intro k
    rw [checked.isRun_iff, ← Option.some.inj ((checked.total_eq normal).symm.trans counted), Nat.cast_lt]
  have first := (runs 0).mp checked.isRun_zero
  refine ⟨n, counted, by rwa [Nat.cast_zero] at first, most, runs, fun j k isJ isK before => ?_⟩
  unfold RunTimes.runStartMs
  cases repeats : r.everyMs with
  | none =>
    have := isK.1 repeats
    omega
  | some e =>
    have longer := (checked.every e repeats).2
    have positive := checked.every_pos repeats
    have step : e ≤ ((k : ℤ) - j) * e := le_mul_of_one_le_left positive.le (by omega)
    rw [sub_mul] at step
    rw [Option.getD_some]
    omega

/-- The number of runs is small as counted when it is small. -/
theorem counted_few (checked : r.Checked) {n : ℤ} (counted : r.totalRuns = some n)
    (few : ∀ k : Nat, r.IsRun k → (k : ℤ) < maxRuns) : n ≤ maxRuns := by
  by_cases normal : r.CountNormal
  · have same := Option.some.inj ((checked.total_eq normal).symm.trans counted)
    by_contra many
    have last := few (n - 1).toNat ((checked.isRun_iff _).mpr (by unfold maxRuns at many; omega))
    unfold maxRuns at many last
    omega
  · cases (checked.tiny normal).1.symm.trans counted
    decide

theorem few_of_counted (checked : r.Checked) {n : ℤ} (counted : r.totalRuns = some n) (most : n ≤ maxRuns) :
    ∀ k : Nat, r.IsRun k → (k : ℤ) < maxRuns := by
  intro k isRun
  by_cases normal : r.CountNormal
  · have same := Option.some.inj ((checked.total_eq normal).symm.trans counted)
    have := (checked.isRun_iff k).mp isRun
    omega
  · rw [((checked.tiny normal).2.1 k).mp isRun]
    decide

theorem first_once {t : ℤ} (once : r.everyMs = none) :
    r.firstRunFrom t = if t ≤ r.startMs then some (some 0) else some none := by
  have total : r.totalRuns = some 1 := by simp [RunTimes.totalRuns, once]
  unfold RunTimes.firstRunFrom
  rw [once, total]
  rfl

theorem judged_of_well (checked : r.Checked) (well : WellJudged r nowMs graceMs allowPast) :
    (checkRuns r nowMs graceMs allowPast = .ok () ↔ Admissible r nowMs graceMs allowPast) ∧
      checkRuns r nowMs graceMs allowPast ≠ .error .raised ∧
      (checkRuns r nowMs graceMs allowPast = .ok () → RunsApart r) := by
  obtain ⟨n, counted⟩ := checked.total_some
  have verdict : checkRuns r nowMs graceMs allowPast = .ok () ↔ Admissible r nowMs graceMs allowPast := by
    rw [checkRuns_ok]
    constructor
    · rintro ⟨n', counted', most, future⟩
      obtain rfl := Option.some.inj (counted.symm.trans counted')
      have few := few_of_counted checked counted most
      refine ⟨few, fun past => ?_⟩
      obtain ⟨found, first, real⟩ := well.due past few
      obtain ⟨k, first'⟩ := future past
      obtain rfl := Option.some.inj (first.symm.trans first')
      exact real.mp rfl
    · rintro ⟨few, due⟩
      refine ⟨n, counted, counted_few checked counted few, fun past => ?_⟩
      obtain ⟨found, first, real⟩ := well.due past few
      obtain ⟨k, rfl⟩ := Option.isSome_iff_exists.mp (real.mpr (due past))
      exact ⟨k, first⟩
  refine ⟨verdict, fun raised => ?_, fun accepted => ?_⟩
  · rcases checkRuns_raised.mp raised with none_ | ⟨n', counted', most, past, none_ | ⟨ended, once, hidden⟩⟩
    · cases counted.symm.trans none_
    · obtain rfl := Option.some.inj (counted.symm.trans counted')
      obtain ⟨found, first, -⟩ := well.due past (few_of_counted checked counted most)
      cases none_.symm.trans first
    · rw [first_once once] at ended
      split_ifs at ended with early
      · cases ended
      · exact hidden (well.shown past once (not_le.mp early))
  · obtain ⟨n', counted', most, future⟩ := checkRuns_ok.mp accepted
    obtain rfl := Option.some.inj (counted.symm.trans counted')
    by_cases normal : r.CountNormal
    · exact runs_apart checked normal counted most
    · exfalso
      obtain ⟨zero, -, -⟩ := checked.tiny normal
      obtain rfl := Option.some.inj (zero.symm.trans counted)
      have past : allowPast = false := by
        by_contra now_
        exact normal (well.counted (Or.inl (Bool.not_eq_false _ ▸ now_)))
      obtain ⟨k, first⟩ := future past
      have := RunTimes.firstRunFrom_range checked first counted
      omega

theorem well_of_judged (checked : r.Checked)
    (verdict : checkRuns r nowMs graceMs allowPast = .ok () ↔ Admissible r nowMs graceMs allowPast)
    (raises : checkRuns r nowMs graceMs allowPast ≠ .error .raised)
    (apart : checkRuns r nowMs graceMs allowPast = .ok () → RunsApart r) : WellJudged r nowMs graceMs allowPast where
  counted := by
    intro open_
    by_contra normal
    obtain ⟨zero, single, -⟩ := checked.tiny normal
    have few : ∀ k : Nat, r.IsRun k → (k : ℤ) < maxRuns := few_of_counted checked zero (by decide)
    have accepted : checkRuns r nowMs graceMs allowPast = .ok () := by
      cases allowPast with
      | true => exact checkRuns_ok.mpr ⟨0, zero, by decide, fun past => by cases past⟩
      | false =>
        have early : nowMs - graceMs ≤ r.startMs := open_.resolve_left (by simp)
        exact verdict.mpr ⟨few, fun _ => ⟨0, checked.isRun_zero, by simpa [RunTimes.runStartMs] using early⟩⟩
    obtain ⟨n, counted, positive, -⟩ := apart accepted
    cases zero.symm.trans counted
    omega
  due := by
    intro past few
    obtain ⟨n, counted⟩ := checked.total_some
    have most := counted_few checked counted few
    cases first : r.firstRunFrom (nowMs - graceMs) with
    | none => exact absurd (checkRuns_raised.mpr (Or.inr ⟨n, counted, most, past, Or.inl first⟩)) raises
    | some found =>
      refine ⟨found, rfl, ?_⟩
      have same : found.isSome = true ↔ checkRuns r nowMs graceMs allowPast = .ok () := by
        rw [checkRuns_ok, Option.isSome_iff_exists]
        constructor
        · rintro ⟨k, rfl⟩
          exact ⟨n, counted, most, fun _ => ⟨k, first⟩⟩
        · rintro ⟨-, -, -, future⟩
          obtain ⟨k, first'⟩ := future past
          exact ⟨k, Option.some.inj (first.symm.trans first')⟩
      rw [same, verdict]
      exact ⟨fun admissible => admissible.due past, fun due => ⟨few, fun _ => due⟩⟩
  shown := by
    intro past once later
    by_contra hidden
    have total : r.totalRuns = some 1 := by simp [RunTimes.totalRuns, once]
    have first := (first_once (t := nowMs - graceMs) once).trans (if_neg (not_le.mpr later))
    exact raises (checkRuns_raised.mpr (Or.inr ⟨1, total, by decide, past, Or.inr ⟨first, once, hidden⟩⟩))

/-- Intervals below `2 ^ 1075` ms and times less than `2 ^ 53` ms apart are judged well. -/
theorem well_of_ordinary (checked : r.Checked) (intervals : ∀ e ∈ r.everyMs, e < 2 ^ 1075) (grace : 0 ≤ graceMs)
    (near : nowMs - r.startMs < 2 ^ 53) : WellJudged r nowMs graceMs allowPast := by
  have normal : r.CountNormal := by
    intro e repeats u isUntil
    rcases checked.ends (by rw [Option.mem_def.mp repeats]; simp) with ⟨-, -, -, noUntil⟩ | ⟨-, u', later, isUntil'⟩
    · cases noUntil.symm.trans isUntil
    · obtain rfl := Option.some.inj (isUntil'.symm.trans isUntil)
      exact (intervals e repeats).trans_le (le_mul_of_one_le_left (by positivity) (by omega))
  refine ⟨fun _ => normal, fun _ _ => ?_, fun _ _ later => ?_⟩
  · have first := checked.first_eq (t := nowMs - graceMs) normal (by omega) fun e repeats later =>
      (intervals e repeats).trans_le (le_mul_of_one_le_left (by positivity) (by omega))
    refine ⟨_, first, ?_⟩
    have least := checked.first_from (nowMs - graceMs)
    cases found : checked.schedule.firstRunFrom (nowMs - graceMs) with
    | none =>
      rw [found] at least
      refine iff_of_false (by simp) ?_
      rintro ⟨k, isRun, reached⟩
      have := least k isRun
      omega
    | some k =>
      rw [found] at least
      obtain ⟨n, -, isRun, reached, -⟩ := least
      exact iff_of_true rfl ⟨n, isRun, reached⟩
  · rw [Binary64.div_small (by omega) near (by norm_num), Binary64.div_small grace (by omega) (by norm_num)]
    simp

end Runs

/-- For a body with a label and times that can be read, `parse_schedule` is as
documented when the quotients judge it well, or its id is no id at all, or it
is refused beside a line end in its id. -/
theorem readable_iff (fresh : IsId newId) {r : RunTimes} (labelled : Labelled body) (documents : Documents body r) :
    ParsesDocumented body nowMs graceMs source newId allowPast ↔
      (Named body → WellJudged r nowMs graceMs allowPast) ∧ (NewlineId body → Refused r nowMs graceMs allowPast) := by
  have checked := documents.checked
  have accepted : (∃ s, parseSchedule body nowMs graceMs source newId allowPast = .ok s) ↔
      (Named body ∨ NewlineId body) ∧ checkRuns r nowMs graceMs allowPast = .ok () := by
    rw [← readId_ok fresh]
    constructor
    · rintro ⟨s, parsed⟩
      obtain ⟨isId, documents', -, judged, -, -⟩ := parseSchedule_ok.mp parsed
      exact ⟨⟨_, isId⟩, documents.unique documents' ▸ judged⟩
    · rintro ⟨⟨id, isId⟩, judged⟩
      obtain ⟨label, isLabel⟩ := readLabel_ok.mpr labelled
      exact ⟨⟨r, id, label, source.text, nowMs⟩, parseSchedule_ok.mpr ⟨isId, documents, isLabel, judged, rfl, rfl⟩⟩
  have raised : parseSchedule body nowMs graceMs source newId allowPast = .error .raised ↔
      (Named body ∨ NewlineId body) ∧ checkRuns r nowMs graceMs allowPast = .error .raised := by
    rw [parseSchedule_raised, readId_ok fresh]
    refine and_congr_right fun _ => ⟨?_, fun raised => ⟨labelled, r, documents, raised⟩⟩
    rintro ⟨-, r', documents', raised⟩
    exact documents.unique documents' ▸ raised
  have documented : Documented body nowMs graceMs allowPast ↔ Named body ∧ Admissible r nowMs graceMs allowPast := by
    constructor
    · rintro ⟨named, -, r', documents', admissible⟩
      exact ⟨named, documents.unique documents' ▸ admissible⟩
    · rintro ⟨named, admissible⟩
      exact ⟨named, labelled, r, documents, admissible⟩
  have apart : (∀ s, parseSchedule body nowMs graceMs source newId allowPast = .ok s → RunsApart s.toRunTimes) ↔
      ((∃ s, parseSchedule body nowMs graceMs source newId allowPast = .ok s) → RunsApart r) := by
    have times : ∀ s, parseSchedule body nowMs graceMs source newId allowPast = .ok s → s.toRunTimes = r := fun s parsed =>
      (parseSchedule_ok.mp parsed).2.1.unique documents
    constructor
    · rintro all ⟨s, parsed⟩
      exact times s parsed ▸ all s parsed
    · intro one s parsed
      exact times s parsed ▸ one ⟨s, parsed⟩
  have whole : ParsesDocumented body nowMs graceMs source newId allowPast ↔
      (((Named body ∨ NewlineId body) ∧ checkRuns r nowMs graceMs allowPast = .ok () ↔
        Named body ∧ Admissible r nowMs graceMs allowPast) ∧
      ¬ ((Named body ∨ NewlineId body) ∧ checkRuns r nowMs graceMs allowPast = .error .raised) ∧
      ((Named body ∨ NewlineId body) ∧ checkRuns r nowMs graceMs allowPast = .ok () → RunsApart r)) := by
    rw [← accepted, ← documented, ← raised, ← apart]
    exact ⟨fun parses => ⟨parses.accepts, parses.raises, parses.apart⟩, fun ⟨a, b, c⟩ => ⟨a, b, c⟩⟩
  rw [whole]
  by_cases named : Named body
  · have plain : ¬ NewlineId body := fun newline => newline.not_named named
    simp only [named, plain, true_or, true_and, true_implies, false_implies, and_true]
    constructor
    · rintro ⟨verdict, raises, apart⟩
      exact well_of_judged checked verdict raises apart
    · exact judged_of_well checked
  · by_cases newline : NewlineId body
    · simp only [named, newline, or_true, true_and, false_and, iff_false, false_implies, true_implies,
        refused_iff checked, ne_eq]
      constructor
      · rintro ⟨accepts, raises, -⟩
        exact ⟨accepts, raises⟩
      · rintro ⟨accepts, raises⟩
        exact ⟨accepts, raises, fun accepted => absurd accepted accepts⟩
    · simp [named, newline]

/-- `parse_schedule` accepts what is documented, and raises nothing else than a
`ScheduleError`, unless the id ends in a line end or a quotient misjudges. -/
theorem parses_documented_iff (body : JsonBody) (nowMs graceMs : ℤ) (source : ScheduleSource) (newId : List Char)
    (allowPast : Bool) (fresh : IsId newId) : ParsesDocumented body nowMs graceMs source newId allowPast ↔
      (Labelled body → ∀ r, Documents body r →
        (Named body → WellJudged r nowMs graceMs allowPast) ∧ (NewlineId body → Refused r nowMs graceMs allowPast)) := by
  by_cases readable : Labelled body ∧ ∃ r, Documents body r
  · obtain ⟨labelled, r, documents⟩ := readable
    rw [readable_iff fresh labelled documents]
    constructor
    · intro judged _ r' documents'
      exact documents.unique documents' ▸ judged
    · exact fun all => all labelled r documents
  · have never : ∀ s, parseSchedule body nowMs graceMs source newId allowPast ≠ .ok s := by
      intro s parsed
      obtain ⟨-, documents, isLabel, -⟩ := parseSchedule_ok.mp parsed
      exact readable ⟨readLabel_ok.mp ⟨_, isLabel⟩, _, documents⟩
    refine iff_of_true ⟨?_, ?_, fun s parsed => absurd parsed (never s)⟩ ?_
    · refine iff_of_false (fun ⟨s, parsed⟩ => never s parsed) ?_
      rintro ⟨-, labelled, r, documents, -⟩
      exact readable ⟨labelled, r, documents⟩
    · intro raised
      obtain ⟨-, labelled, r, documents, -⟩ := parseSchedule_raised.mp raised
      exact readable ⟨labelled, r, documents⟩
    · intro labelled r documents
      exact absurd ⟨labelled, r, documents⟩ readable

/-- One window of 1 ms at the start of 1970. -/
def oneWindow : JsonBody := ⟨[("start_ms", .int 0), ("duration_ms", .int 1)], by decide⟩

/-- The same with a line end in its id. -/
def lineWindow : JsonBody := ⟨[("id", .str ['a', '\n']), ("start_ms", .int 0), ("duration_ms", .int 1)], by decide⟩

/-- Half the smallest double is one in so many. -/
def aeon : ℤ := 2 ^ 1075

theorem aeon_large : 1000 ≤ aeon := by
  have : (2 : ℤ) ^ 10 ≤ 2 ^ 1075 := pow_le_pow_right₀ (by norm_num) (by norm_num)
  exact le_trans (by norm_num) this

/-- A schedule that repeats until 1 ms after its start, if it came to that. -/
def rarely : JsonBody :=
  ⟨[("start_ms", .int 0), ("duration_ms", .int 1), ("every_ms", .int aeon),
    ("until", .str "1970-01-01T00:00:00.001Z".toList)], by decide⟩

theorem parses_documented_iff_once : ParsesDocumented oneWindow 500 1000 .api ['x'] false := by
  refine (parses_documented_iff oneWindow 500 1000 .api ['x'] false (isId_single (by decide))).mpr ?_
  intro _ r documents
  have once : r.everyMs = none := by
    have every := documents.every
    cases given : r.everyMs with
    | none => rfl
    | some e =>
      rw [given] at every
      cases every
  have start : 0 ≤ r.startMs := by
    rcases documents.start with ⟨-, least⟩ | ⟨absent, -⟩
    · exact least
    · cases absent
  refine ⟨fun _ => well_of_ordinary documents.checked (fun e repeats => ?_) (by decide) (by omega), ?_⟩
  · cases once.symm.trans repeats
  · rintro ⟨text, given, -⟩
    cases given

theorem rarely_until : Instant (rarely.given "until") 1 := by
  obtain ⟨dt, zoned, second⟩ : ∃ dt, zonedTime "1970-01-01T00:00:00.001Z".toList = some dt ∧ dt.timestamp = ((1 : ℤ) : ℚ) / 1000 :=
    ⟨⟨⟨1970, 1, 1, by decide, by decide, by decide⟩, 0, 0, 0, 1000, some 0, by decide, by decide⟩, by decide +kernel,
      by decide +kernel⟩
  refine ⟨_, dt, rfl, zoned, ?_⟩
  rw [instantMs, second]
  exact Binary64.round_thousandths (by norm_num)

/-- A line end after the id goes through, and so does a schedule without runs. -/
theorem parses_documented_fails :
    ¬ ParsesDocumented lineWindow 0 0 .api ['x'] false ∧
      ¬ ParsesDocumented rarely 0 0 .api ['x'] true := by
  constructor
  · intro parses
    have accepted : ∃ s, parseSchedule lineWindow 0 0 .api ['x'] false = .ok s := ⟨_, rfl⟩
    have newline : NewlineId lineWindow := ⟨['a'], rfl, isId_single (by decide)⟩
    exact newline.not_named (parses.accepts.mp accepted).named
  · intro parses
    have documents : Documents rarely ⟨0, 1, some aeon, none, some 1⟩ :=
      ⟨Or.inl ⟨rfl, le_rfl⟩, ⟨rfl, by decide, by decide⟩, rfl, rfl, Or.inr ⟨1, rarely_until, rfl⟩,
        Or.inr ⟨_, rfl, aeon_large, lt_of_lt_of_le (by decide) aeon_large, Or.inr ⟨rfl, 1, by decide, rfl⟩⟩⟩
    have labelled : Labelled rarely := fun _ given => by cases given
    have judged := (readable_iff (isId_single (by decide)) labelled documents).mp parses
    have normal := (judged.1 (Or.inl rfl)).counted (Or.inl rfl) _ rfl 1 rfl
    change aeon < (1 - 0) * 2 ^ 1075 at normal
    rw [sub_zero, one_mul] at normal
    exact lt_irrefl _ normal

section Accepted

/-- The run arithmetic of an accepted schedule is exact at all times below
`2 ^ 51` unless its interval is so long that a quotient is rounded to 0. -/
theorem run_arithmetic_iff {s : ParsedSchedule}
    (accepted : parseSchedule body nowMs graceMs source newId allowPast = .ok s) :
    s.toRunTimes.Exact ↔ s.toRunTimes.Ordinary :=
  (parseSchedule_ok.mp accepted).2.1.checked.exact_iff_ordinary

def everySecond : JsonBody :=
  ⟨[("start_ms", .int 0), ("duration_ms", .int 500), ("every_ms", .int 1000), ("count", .int 3)], by decide⟩

theorem run_arithmetic_iff_everySecond :
    ∃ s, parseSchedule everySecond 500 1000 .api ['x'] false = .ok s ∧ s.toRunTimes.Exact := by
  have accepted : parseSchedule everySecond 500 1000 .api ['x'] false =
      .ok ⟨⟨0, 500, some 1000, some 3, none⟩, ['x'], [], "api".toList, 500⟩ := rfl
  refine ⟨_, accepted, (run_arithmetic_iff accepted).mpr fun e repeats => Or.inl ?_⟩
  obtain rfl := Option.some.inj repeats
  exact lt_of_lt_of_le (by norm_num) (pow_le_pow_right₀ (by norm_num) (show 10 ≤ 1075 by norm_num))

/-- Two runs an aeon apart. -/
def twiceRarely : JsonBody :=
  ⟨[("start_ms", .int 0), ("duration_ms", .int 1), ("every_ms", .int aeon), ("count", .int 2)], by decide⟩

/-- The first run from 1 ms on is run 0 again. -/
theorem run_arithmetic_fails :
    ∃ s, parseSchedule twiceRarely 0 0 .api ['x'] false = .ok s ∧ s.firstRunFrom 1 = some (some 0) ∧
      s.runStartMs 0 = 0 ∧ ¬ s.toRunTimes.Exact := by
  have documents : Documents twiceRarely ⟨0, 1, some aeon, some 2, none⟩ :=
    ⟨Or.inl ⟨rfl, le_rfl⟩, ⟨rfl, by decide, by decide⟩, rfl, rfl, Or.inl ⟨rfl, rfl⟩,
      Or.inr ⟨_, rfl, aeon_large, lt_of_lt_of_le (by decide) aeon_large, Or.inl ⟨2, by decide, rfl, rfl⟩⟩⟩
  have two : RunTimes.totalRuns ⟨0, 1, some aeon, some 2, none⟩ = some 2 := rfl
  have misses : RunTimes.firstRunFrom ⟨0, 1, some aeon, some 2, none⟩ 1 = some (some 0) :=
    documents.checked.first_tiny rfl two (by decide) (by decide) (by decide)
      (by rw [sub_zero, one_mul]; rfl)
  refine ⟨⟨⟨0, 1, some aeon, some 2, none⟩, ['x'], [], "api".toList, 0⟩,
    parseSchedule_ok.mpr ⟨rfl, documents, rfl, rfl, rfl, rfl⟩, misses, by simp [RunTimes.runStartMs], fun exactly => ?_⟩
  obtain ⟨found, first, least⟩ := exactly.first 1 (by norm_num)
  obtain rfl := Option.some.inj (misses.symm.trans first)
  obtain ⟨n, zero, -, reached, -⟩ := least
  obtain rfl : n = 0 := by omega
  simp [RunTimes.runStartMs] at reached

end Accepted

end ParseSchedule
end RFObserver
