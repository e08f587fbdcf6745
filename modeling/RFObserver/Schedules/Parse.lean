import Mathlib.Data.List.TakeWhile
import RFObserver.Lib.IsoTime
import RFObserver.Schedules.RunTimes
import RFObserver.Web.ConfigRoutes
import RFObserver.Web.JsonBody

/-! `parse_schedule`: a schedule from the body of a request. -/

namespace RFObserver
open Settings (strip)

def maxDurationMs : ℤ := 600000

def labelMax : Nat := 200

/-- Who sent a schedule. -/
inductive ScheduleSource
  | api | ui | fleet
  deriving DecidableEq

def ScheduleSource.text : ScheduleSource → List Char
  | .api => "api".toList
  | .ui => "ui".toList
  | .fleet => "fleet".toList

structure ParsedSchedule extends RunTimes where
  id : List Char
  label : List Char
  source : List Char
  createdMs : ℤ
  deriving DecidableEq

/-- `raised` is any exception but a `ScheduleError`. -/
inductive ParseError
  | schedule (detail : String)
  | raised
  deriving DecidableEq

/-- A double with three decimals. -/
def fixed3 (x : ℚ) : String :=
  let n := (roundHalfEven (x * 1000)).natAbs
  (if x < 0 then "-" else "") ++ toString (n / 1000) ++ "." ++ String.ofList (IsoTime.digits 3 n)

namespace ParseSchedule

def instantDetail (name : String) : ParseError :=
  .schedule (name ++ " must be an ISO 8601 time with a zone, e.g. 2026-10-28T18:30:00.250Z")

/-- `round(dt.timestamp() * 1000)` -/
def instantMs (dt : IsoTime.DateTime) : ℤ :=
  roundHalfEven (Binary64.nearest (Binary64.nearest dt.timestamp * 1000))

/-- The time of a text that carries its zone. -/
def zonedTime (text : List Char) : Option IsoTime.DateTime :=
  let text := strip text
  let text := if text.getLast? = some 'Z' ∨ text.getLast? = some 'z' then text.dropLast ++ "+00:00".toList else text
  (IsoTime.fromisoformat text).filter fun dt => dt.offset.isSome

/-- Epoch ms of an ISO 8601 string that carries its zone. -/
def parseInstant (value : JsonValue) (name : String) : Except ParseError ℤ :=
  match value with
  | .str text =>
    match zonedTime text with
    | some dt => .ok (instantMs dt)
    | none => .error (instantDetail name)
  | _ => .error (instantDetail name)

def int (body : JsonBody) (name : String) (minimum : ℤ) : Except ParseError (Option ℤ) :=
  match body.given name with
  | none => .ok none
  | some (.int n) =>
    if n < minimum then .error (.schedule (name ++ " must be at least " ++ toString minimum)) else .ok (some n)
  | some _ => .error (.schedule (name ++ " must be a whole number"))

def idChar (c : Char) : Bool := c.isAlpha || c.isDigit || c = '_' || c = '-'

/-- `_ID.match`: its `$` also stands before a newline at the end. -/
def idMatch (text : List Char) : Bool :=
  let rest := text.dropWhile idChar
  let n := (text.takeWhile idChar).length
  1 ≤ n && n ≤ 64 && (rest = [] || rest = ['\n'])

def readId (body : JsonBody) (newId : List Char) : Except ParseError (List Char) :=
  let refused := ParseError.schedule "id must be 1 to 64 letters, digits, '-' or '_'"
  match (body.given "id").getD (.str newId) with
  | .str text => if idMatch text then .ok text else .error refused
  | _ => .error refused

def readStart (body : JsonBody) : Except ParseError ℤ :=
  match body.given "start_ms" with
  | some _ => (int body "start_ms" 0).map fun n => n.getD 0
  | none =>
    match body.given "start" with
    | some value => parseInstant value "start"
    | none => .error (.schedule "start (ISO 8601 UTC) or start_ms (epoch ms) is required")

def readDuration (body : JsonBody) : Except ParseError ℤ :=
  (int body "duration_ms" 1).bind fun duration =>
    match duration with
    | none => .error (.schedule "duration_ms is required")
    | some duration =>
      if maxDurationMs < duration then .error (.schedule ("duration_ms must be at most " ++ toString maxDurationMs))
      else .ok duration

def readUntil (body : JsonBody) : Except ParseError (Option ℤ) :=
  match body.given "until" with
  | none => .ok none
  | some value => (parseInstant value "until").map some

def checkRepeat (r : RunTimes) : Except ParseError Unit :=
  match r.everyMs with
  | none => if r.count ≠ none ∨ r.untilMs ≠ none then .error (.schedule "count and until need every_ms") else .ok ()
  | some every =>
    if every < minEveryMs then .error (.schedule ("every_ms must be at least " ++ toString minEveryMs))
    else if every ≤ r.durationMs then .error (.schedule "every_ms must be longer than duration_ms")
    else if r.count.isNone = r.untilMs.isNone then
      .error (.schedule "a repeating schedule needs count or until (one of them)")
    else if ∃ u ∈ r.untilMs, u ≤ r.startMs then .error (.schedule "until must be after start")
    else .ok ()

def readTimes (body : JsonBody) : Except ParseError RunTimes :=
  (readStart body).bind fun start => (readDuration body).bind fun duration =>
    (int body "every_ms" 1).bind fun every => (int body "count" 1).bind fun count =>
      (readUntil body).bind fun until_ =>
        let r : RunTimes := ⟨start, duration, every, count, until_⟩
        (checkRepeat r).map fun _ => r

def readLabel (body : JsonBody) : Except ParseError (List Char) :=
  match body.given "label" with
  | none => .ok []
  | some value =>
    if value.truthy then
      match value with
      | .str text => .ok ((strip text).take labelMax)
      | _ => .error (.schedule "label must be text")
    else .ok []

/-- The checks of the number of runs and of the time left. -/
def checkRuns (r : RunTimes) (nowMs graceMs : ℤ) (allowPast : Bool) : Except ParseError Unit :=
  match r.totalRuns with
  | none => .error .raised
  | some total =>
    if maxRuns < total then .error (.schedule ("a schedule may have at most " ++ toString maxRuns ++ " runs"))
    else if allowPast then .ok ()
    else
      match r.firstRunFrom (nowMs - graceMs) with
      | none => .error .raised
      | some (some _) => .ok ()
      | some none =>
        if r.everyMs = none then
          match Binary64.div (nowMs - r.startMs) 1000, Binary64.div graceMs 1000 with
          | some late, some allowed => .error (.schedule ("start is " ++ fixed3 late ++ " s in the past; at most " ++
              fixed3 allowed ++ " s is allowed"))
          | _, _ => .error .raised
        else .error (.schedule "every run of this schedule is in the past")

end ParseSchedule

open ParseSchedule in
/-- A schedule from a request's body, or the reason why there is none. -/
def parseSchedule (body : JsonBody) (nowMs graceMs : ℤ) (source : ScheduleSource) (newId : List Char)
    (allowPast : Bool) : Except ParseError ParsedSchedule :=
  (readId body newId).bind fun id => (readTimes body).bind fun r => (readLabel body).bind fun label =>
    (checkRuns r nowMs graceMs allowPast).map fun _ => ⟨r, id, label, source.text, nowMs⟩

namespace ParseSchedule

/-- 1 to 64 letters, digits, hyphens and underscores. -/
def IsId (text : List Char) : Prop := 1 ≤ text.length ∧ text.length ≤ 64 ∧ ∀ c ∈ text, idChar c = true

theorem isId_single {c : Char} (valid : idChar c = true) : IsId [c] := by
  refine ⟨le_rfl, by simp, fun d member => ?_⟩
  rw [List.mem_singleton.mp member]
  exact valid

/-- A whole number as documented, or no member. -/
def Whole (body : JsonBody) (name : String) (value : Option ℤ) : Prop := body.given name = value.map .int

/-- An ISO time with a zone. -/
def Instant (value : Option JsonValue) (ms : ℤ) : Prop :=
  ∃ text dt, value = some (.str text) ∧ zonedTime text = some dt ∧ instantMs dt = ms

/-- The times a body documents. -/
structure Documents (body : JsonBody) (r : RunTimes) : Prop where
  start : (Whole body "start_ms" (some r.startMs) ∧ 0 ≤ r.startMs) ∨
    (body.given "start_ms" = none ∧ Instant (body.given "start") r.startMs)
  duration : Whole body "duration_ms" (some r.durationMs) ∧ 1 ≤ r.durationMs ∧ r.durationMs ≤ maxDurationMs
  every : Whole body "every_ms" r.everyMs
  count : Whole body "count" r.count
  until_ : (body.given "until" = none ∧ r.untilMs = none) ∨ ∃ u, Instant (body.given "until") u ∧ r.untilMs = some u
  repeats : (r.everyMs = none ∧ r.count = none ∧ r.untilMs = none) ∨
    ∃ e, r.everyMs = some e ∧ (minEveryMs : ℤ) ≤ e ∧ r.durationMs < e ∧
      ((∃ c, 1 ≤ c ∧ r.count = some c ∧ r.untilMs = none) ∨
        (r.count = none ∧ ∃ u, r.startMs < u ∧ r.untilMs = some u))

/-- The label is text, or empty. -/
def Labelled (body : JsonBody) : Prop :=
  ∀ value, body.given "label" = some value → value.truthy = false ∨ ∃ text, value = .str text

/-- The id is absent or well formed. -/
def Named (body : JsonBody) : Prop :=
  body.given "id" = none ∨ ∃ text, body.given "id" = some (.str text) ∧ IsId text

section Except

variable {α β : Type} {x : Except ParseError α}

theorem bind_ok {f : α → Except ParseError β} {b : β} : x.bind f = .ok b ↔ ∃ a, x = .ok a ∧ f a = .ok b := by
  cases x with
  | error e => simp [Except.bind]
  | ok a => simp [Except.bind]

theorem bind_error {f : α → Except ParseError β} {e : ParseError} :
    x.bind f = .error e ↔ x = .error e ∨ ∃ a, x = .ok a ∧ f a = .error e := by
  cases x with
  | error e' => simp [Except.bind]
  | ok a => simp [Except.bind]

theorem map_ok {f : α → β} {b : β} : x.map f = .ok b ↔ ∃ a, x = .ok a ∧ f a = b := by
  cases x with
  | error e => simp [Except.map]
  | ok a => simp [Except.map]

theorem map_error {f : α → β} {e : ParseError} : x.map f = .error e ↔ x = .error e := by
  cases x with
  | error e' => simp [Except.map]
  | ok a => simp [Except.map]

end Except

variable {body : JsonBody}

theorem int_ok {name : String} {minimum : ℤ} {value : Option ℤ} :
    int body name minimum = .ok value ↔ Whole body name value ∧ ∀ n ∈ value, minimum ≤ n := by
  have real := body.given_ne_null name
  unfold int Whole
  split
  · rename_i absent
    rw [absent]
    cases value <;> simp
  · rename_i n whole
    rw [whole]
    split_ifs with small
    · cases value with
      | none => simp
      | some m =>
        simp only [Option.map_some, Option.some.injEq, JsonValue.int.injEq, Option.mem_some_iff, forall_eq',
          false_iff, not_and]
        intro same
        cases same
        omega
    · cases value with
      | none => simp
      | some m =>
        simp only [Except.ok.injEq, Option.some.injEq, Option.map_some, JsonValue.int.injEq, Option.mem_some_iff,
          forall_eq', iff_self_and]
        rintro rfl
        omega
  · rename_i v notInt given
    rw [given]
    cases value with
    | none => simp
    | some m =>
      simp only [reduceCtorEq, Option.map_some, Option.some.injEq, false_iff, not_and]
      rintro rfl
      exact absurd rfl (notInt m)

theorem int_raised (body : JsonBody) (name : String) (minimum : ℤ) : int body name minimum ≠ .error .raised := by
  unfold int
  split
  · simp
  · split_ifs <;> simp
  · simp

theorem parseInstant_ok {value : JsonValue} {name : String} {ms : ℤ} :
    parseInstant value name = .ok ms ↔ Instant (some value) ms := by
  unfold parseInstant Instant
  split
  · rename_i text
    split
    · rename_i dt zoned
      simp only [Except.ok.injEq, Option.some.injEq, JsonValue.str.injEq]
      constructor
      · rintro rfl
        exact ⟨text, dt, rfl, zoned, rfl⟩
      · rintro ⟨_, dt', rfl, zoned', rfl⟩
        rw [Option.some.inj (zoned.symm.trans zoned')]
    · rename_i bad
      simp only [reduceCtorEq, Option.some.injEq, JsonValue.str.injEq, false_iff]
      rintro ⟨_, dt', rfl, zoned', -⟩
      rw [bad] at zoned'
      cases zoned'
  · rename_i notText
    simp only [reduceCtorEq, Option.some.injEq, false_iff]
    rintro ⟨text, -, rfl, -⟩
    exact notText text rfl

theorem parseInstant_raised (value : JsonValue) (name : String) : parseInstant value name ≠ .error .raised := by
  unfold parseInstant
  split
  · split <;> simp [instantDetail]
  · simp [instantDetail]

theorem readStart_ok {start : ℤ} : readStart body = .ok start ↔ (Whole body "start_ms" (some start) ∧ 0 ≤ start) ∨
    (body.given "start_ms" = none ∧ Instant (body.given "start") start) := by
  unfold readStart
  split
  · rename_i value given
    rw [map_ok]
    constructor
    · rintro ⟨n, read, rfl⟩
      obtain ⟨whole, least⟩ := int_ok.mp read
      cases n with
      | none => cases given.symm.trans whole
      | some n => exact Or.inl ⟨whole, least n rfl⟩
    · rintro (⟨whole, least⟩ | ⟨absent, -⟩)
      · exact ⟨some start, int_ok.mpr ⟨whole, fun n member => Option.some.inj member ▸ least⟩, rfl⟩
      · cases given.symm.trans absent
  · rename_i absent
    have notMs : ¬ (Whole body "start_ms" (some start) ∧ 0 ≤ start) := fun whole => by
      cases absent.symm.trans whole.1
    rw [or_iff_right notMs, and_iff_right absent]
    split
    · rename_i value given
      rw [parseInstant_ok, given]
    · rename_i none_
      rw [none_]
      simp [Instant]

theorem readStart_raised (body : JsonBody) : readStart body ≠ .error .raised := by
  unfold readStart
  split
  · exact mt map_error.mp (int_raised body "start_ms" 0)
  · split
    · exact parseInstant_raised _ _
    · simp

theorem readDuration_ok {duration : ℤ} : readDuration body = .ok duration ↔
    Whole body "duration_ms" (some duration) ∧ 1 ≤ duration ∧ duration ≤ maxDurationMs := by
  unfold readDuration
  rw [bind_ok]
  constructor
  · rintro ⟨n, read, checked⟩
    obtain ⟨whole, least⟩ := int_ok.mp read
    cases n with
    | none => cases checked
    | some n =>
      dsimp only at checked
      split_ifs at checked with long
      obtain rfl := Except.ok.inj checked
      exact ⟨whole, least n rfl, not_lt.mp long⟩
  · rintro ⟨whole, least, most⟩
    refine ⟨some duration, int_ok.mpr ⟨whole, fun n member => Option.some.inj member ▸ least⟩, ?_⟩
    exact if_neg (not_lt.mpr most)

theorem readDuration_raised (body : JsonBody) : readDuration body ≠ .error .raised := by
  unfold readDuration
  rw [Ne, bind_error, not_or]
  refine ⟨int_raised body "duration_ms" 1, ?_⟩
  rintro ⟨n, -, checked⟩
  cases n with
  | none => cases checked
  | some n =>
    dsimp only at checked
    split_ifs at checked
    cases checked

theorem readUntil_ok {until_ : Option ℤ} : readUntil body = .ok until_ ↔
    (body.given "until" = none ∧ until_ = none) ∨ ∃ u, Instant (body.given "until") u ∧ until_ = some u := by
  unfold readUntil
  split
  · rename_i absent
    rw [absent]
    simp [Instant, eq_comm]
  · rename_i value given
    rw [given, map_ok]
    simp only [parseInstant_ok, reduceCtorEq, false_and, false_or]
    exact exists_congr fun u => and_congr_right fun _ => eq_comm

theorem readUntil_raised (body : JsonBody) : readUntil body ≠ .error .raised := by
  unfold readUntil
  split
  · simp
  · rename_i value given
    exact mt map_error.mp (parseInstant_raised value "until")

theorem checkRepeat_ok {r : RunTimes} {u : Unit} :
    checkRepeat r = .ok u ↔ (r.everyMs = none ∧ r.count = none ∧ r.untilMs = none) ∨
      ∃ e, r.everyMs = some e ∧ (minEveryMs : ℤ) ≤ e ∧ r.durationMs < e ∧
        ((∃ c, r.count = some c ∧ r.untilMs = none) ∨ (r.count = none ∧ ∃ u, r.startMs < u ∧ r.untilMs = some u)) := by
  obtain ⟨start, duration, every, count, until_⟩ := r
  unfold checkRepeat
  cases every with
  | none => cases count <;> cases until_ <;> simp
  | some e =>
    simp only [reduceCtorEq, false_and, false_or, Option.some.injEq, exists_eq_left']
    split_ifs with small short both early
    · simp only [false_iff, not_and]
      intro spaced
      omega
    · simp only [false_iff, not_and]
      intro _ longer
      omega
    · cases count <;> cases until_ <;> simp at both ⊢
    · obtain ⟨u, rfl, before⟩ := early
      simp only [reduceCtorEq, false_iff, not_and, and_false, exists_false, false_or, Option.some.injEq]
      rintro _ _ ⟨-, u', after, rfl⟩
      omega
    · simp only [true_iff]
      refine ⟨not_lt.mp small, not_le.mp short, ?_⟩
      cases count with
      | none =>
        cases until_ with
        | none => simp at both
        | some u => exact Or.inr ⟨rfl, u, not_le.mp fun before => early ⟨u, rfl, before⟩, rfl⟩
      | some c =>
        cases until_ with
        | none => exact Or.inl ⟨c, rfl, rfl⟩
        | some u => simp at both

theorem checkRepeat_raised (r : RunTimes) : checkRepeat r ≠ .error .raised := by
  unfold checkRepeat
  split <;> split_ifs <;> simp

theorem readTimes_ok {r : RunTimes} : readTimes body = .ok r ↔ Documents body r := by
  unfold readTimes
  simp only [bind_ok, map_ok, readStart_ok, readDuration_ok, readUntil_ok, int_ok, checkRepeat_ok]
  constructor
  · rintro ⟨start, isStart, duration, isDuration, every, ⟨isEvery, -⟩, count, ⟨isCount, least⟩, u, isUntil, -, repeats, rfl⟩
    refine ⟨isStart, isDuration, isEvery, isCount, isUntil, repeats.imp_right ?_⟩
    rintro ⟨e, isE, spaced, longer, ends⟩
    refine ⟨e, isE, spaced, longer, ends.imp_left ?_⟩
    rintro ⟨c, isC, noUntil⟩
    exact ⟨c, least c isC, isC, noUntil⟩
  · rintro ⟨isStart, isDuration, isEvery, isCount, isUntil, repeats⟩
    refine ⟨_, isStart, _, isDuration, _, ⟨isEvery, fun e isE => ?_⟩, _, ⟨isCount, fun c isC => ?_⟩, _, isUntil, (),
      repeats.imp_right ?_, rfl⟩
    · rcases repeats with ⟨noEvery, -⟩ | ⟨e', isE', spaced, -⟩
      · cases noEvery.symm.trans isE
      · obtain rfl := Option.some.inj (isE'.symm.trans isE)
        unfold minEveryMs at spaced
        omega
    · rcases repeats with ⟨-, noCount, -⟩ | ⟨-, -, -, -, ⟨c', least, isC', -⟩ | ⟨noCount, -⟩⟩
      · cases noCount.symm.trans isC
      · exact Option.some.inj (isC'.symm.trans isC) ▸ least
      · cases noCount.symm.trans isC
    · rintro ⟨e, isE, spaced, longer, ends⟩
      refine ⟨e, isE, spaced, longer, ends.imp_left ?_⟩
      rintro ⟨c, -, isC, noUntil⟩
      exact ⟨c, isC, noUntil⟩

theorem readTimes_raised (body : JsonBody) : readTimes body ≠ .error .raised := by
  unfold readTimes
  simp only [Ne, bind_error, map_error, not_or, not_exists, not_and]
  exact ⟨readStart_raised body, fun _ _ => ⟨readDuration_raised body, fun _ _ => ⟨int_raised body "every_ms" 1,
    fun _ _ => ⟨int_raised body "count" 1, fun _ _ => ⟨readUntil_raised body, fun _ _ => checkRepeat_raised _⟩⟩⟩⟩⟩

theorem readLabel_ok : (∃ label, readLabel body = .ok label) ↔ Labelled body := by
  unfold readLabel Labelled
  split
  · rename_i absent
    simp [absent]
  · rename_i value given
    simp only [given, Option.some.injEq, forall_eq']
    split_ifs with truthy
    · simp only [truthy, reduceCtorEq, false_or]
      split
      · rename_i text
        exact ⟨fun _ => ⟨text, rfl⟩, fun _ => ⟨_, rfl⟩⟩
      · rename_i notText
        simp only [reduceCtorEq, exists_false, false_iff]
        rintro ⟨text, rfl⟩
        exact notText text rfl
    · simp [truthy]

theorem readLabel_raised (body : JsonBody) : readLabel body ≠ .error .raised := by
  unfold readLabel
  split
  · simp
  · split_ifs
    · split <;> simp
    · simp

theorem idMatch_iff {text : List Char} : idMatch text = true ↔ IsId text ∨ ∃ t, text = t ++ ['\n'] ∧ IsId t := by
  have split_ : text = text.takeWhile idChar ++ text.dropWhile idChar := (List.takeWhile_append_dropWhile ..).symm
  have valid : ∀ c ∈ text.takeWhile idChar, idChar c = true := fun c member => List.mem_takeWhile_imp member
  have newline : idChar '\n' = false := by decide
  unfold idMatch IsId
  simp only [Bool.and_eq_true, Bool.or_eq_true, decide_eq_true_eq]
  constructor
  · rintro ⟨⟨least, most⟩, done | line⟩
    · rw [done, List.append_nil] at split_
      rw [split_]
      exact Or.inl ⟨least, most, valid⟩
    · rw [line] at split_
      exact Or.inr ⟨_, split_, least, most, valid⟩
  · rintro (⟨least, most, all⟩ | ⟨t, rfl, least, most, all⟩)
    · rw [List.takeWhile_eq_self_iff.mpr all, List.dropWhile_eq_nil_iff.mpr all]
      exact ⟨⟨least, most⟩, Or.inl rfl⟩
    · rw [List.takeWhile_append_of_pos all, List.dropWhile_append_of_pos all, List.takeWhile_cons_of_neg (by simp [newline]),
        List.dropWhile_cons_of_neg (by simp [newline]), List.append_nil]
      exact ⟨⟨least, most⟩, Or.inr rfl⟩

theorem readId_raised (body : JsonBody) (newId : List Char) : readId body newId ≠ .error .raised := by
  unfold readId
  split
  · split_ifs <;> simp
  · simp

theorem timestamp_abs_le (dt : IsoTime.DateTime) : |dt.timestamp| ≤ (2 ^ 38 : ℤ) := by
  have low := dt.date.ordinal_pos
  have high := dt.date.ordinal_le
  obtain ⟨hour, minute, second, micro⟩ := dt.time
  have zone : -86400 ≤ dt.offset.getD 0 ∧ dt.offset.getD 0 ≤ 86400 := by
    cases given : dt.offset with
    | none => simp
    | some o =>
      have := dt.zone o given
      rw [Option.getD_some]
      omega
  have within : |dt.instant - IsoTime.DateTime.epochSeconds * 10 ^ 6| ≤ 2 ^ 38 * 10 ^ 6 := by
    unfold Calendar.maxOrdinal at high
    unfold IsoTime.DateTime.instant IsoTime.DateTime.wall IsoTime.DateTime.seconds IsoTime.DateTime.epochSeconds
    rw [abs_le]
    push_cast
    omega
  unfold IsoTime.DateTime.timestamp
  rw [abs_div, abs_of_pos (by norm_num : (0 : ℚ) < 10 ^ 6), div_le_iff₀ (by norm_num), ← Int.cast_abs]
  have : ((|dt.instant - IsoTime.DateTime.epochSeconds * 10 ^ 6| : ℤ) : ℚ) ≤ ((2 ^ 38 * 10 ^ 6 : ℤ) : ℚ) := by
    exact_mod_cast within
  refine this.trans_eq ?_
  norm_num

theorem instantMs_abs_le (dt : IsoTime.DateTime) : |instantMs dt| ≤ 2 ^ 50 := by
  have seconds := Binary64.nearest_abs_le (timestamp_abs_le dt) (by norm_num)
  have thousand : |Binary64.nearest dt.timestamp * 1000| ≤ (2 ^ 38 * 1000 : ℤ) := by
    rw [abs_mul, abs_of_pos (by norm_num : (0 : ℚ) < 1000)]
    push_cast at seconds ⊢
    linarith
  have ms := Binary64.nearest_abs_le thousand (by norm_num)
  have error := RoundHalfEven.abs_error_le (Binary64.nearest (Binary64.nearest dt.timestamp * 1000))
  rw [abs_le] at ms error
  have bound : ((2 ^ 38 * 1000 : ℤ) : ℚ) + 1 / 2 ≤ (2 ^ 50 : ℤ) := by norm_num
  have low : ((-2 ^ 50 : ℤ) : ℚ) ≤ instantMs dt := by
    rw [instantMs]
    push_cast at *
    linarith
  have high : (instantMs dt : ℚ) ≤ (2 ^ 50 : ℤ) := by
    rw [instantMs]
    push_cast at *
    linarith
  exact abs_le.mpr ⟨by exact_mod_cast low, by exact_mod_cast high⟩

theorem Instant.bounded {value : Option JsonValue} {ms : ℤ} (instant : Instant value ms) : |ms| ≤ 2 ^ 50 := by
  obtain ⟨-, dt, -, -, rfl⟩ := instant
  exact instantMs_abs_le dt

theorem Documents.checked {r : RunTimes} (documents : Documents body r) : r.Checked where
  low := by
    rcases documents.start with ⟨-, least⟩ | ⟨-, instant⟩
    · omega
    · have := abs_le.mp instant.bounded
      omega
  high := by
    intro u isUntil
    rcases documents.until_ with ⟨-, noUntil⟩ | ⟨u', instant, isUntil'⟩
    · cases noUntil.symm.trans isUntil
    · obtain rfl := Option.some.inj (isUntil'.symm.trans isUntil)
      have := abs_le.mp instant.bounded
      omega
  duration := documents.duration.2.1
  once := by
    intro once
    rcases documents.repeats with ⟨-, noCount, noUntil⟩ | ⟨e, repeats, -⟩
    · exact ⟨noCount, noUntil⟩
    · cases once.symm.trans repeats
  every := by
    intro e isEvery
    rcases documents.repeats with ⟨once, -⟩ | ⟨e', repeats, spaced, longer, -⟩
    · cases once.symm.trans isEvery
    · obtain rfl := Option.some.inj (repeats.symm.trans isEvery)
      exact ⟨spaced, longer⟩
  ends := by
    intro repeats
    rcases documents.repeats with ⟨once, -⟩ | ⟨-, -, -, -, ends⟩
    · exact absurd once repeats
    · exact ends

end ParseSchedule
end RFObserver
