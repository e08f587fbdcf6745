import RFObserver.Fleet.Captures
import RFObserver.Web.DetectionRoutes

/-! Runs of pages of the fleet's captures, each with the cursor of the one
before, whichever sensors answer each. -/

namespace RFObserver
open FleetCursor DetectionRoutes

/-- A sensor of the registry with its captures in its own order, no more than
there are numbers to count them by. -/
structure CaptureSensor where
  sensor : SensorMeta
  enabled : Bool
  captures : List ListedCapture
  countable : captures.length < 10 ^ maxStrDigits

namespace CaptureSensor

def id (s : CaptureSensor) : String := s.sensor.id

/-- `/captures/list` with its X-Total-Count. -/
def list (s : CaptureSensor) (offset limit : Nat) : List ListedCapture × Option Nat :=
  ((s.captures.drop offset).take limit, some s.captures.length)

end CaptureSensor

structure CaptureRegistry where
  sensors : List CaptureSensor
  distinct : (sensors.map CaptureSensor.id).Nodup

namespace CaptureRegistry

/-- The enabled sensors, or one. -/
def asked (registry : CaptureRegistry) (sensor : Option String) : List CaptureSensor :=
  registry.sensors.filter fun s => s.enabled && (sensor = none ∨ sensor = some "" ∨ sensor = some s.id)

end CaptureRegistry

structure CapturesPage where
  captures : List FleetCapture
  cursor : List Char
  shown : Nat
  total : Nat
  more : Bool
  sensor : Option String
  errors : List String
  deriving DecidableEq

section Page

variable (registry : CaptureRegistry) (sensor : Option String) (limit : ℤ)

/-- A page; `answers` are the sensors that answer. -/
def fleetCaptures (answers : String → Bool) (cursor : Option (List Char)) : Option CapturesPage :=
  (parseCursor cursor).bind fun offsets =>
    let limit := pageLimit limit
    let sensors := registry.asked sensor
    let offset := fun s : CaptureSensor => (offsets.get? s.id).getD 0
    let perSensor := sensors.map fun s =>
      SensorPage.mk s.sensor (if answers s.id then (s.list (offset s) limit).1 else []) (offset s)
    -- without the header a sensor counts for what it has given
    let totals := (sensors.filter fun s => answers s.id).map fun s =>
      (s.list (offset s) limit).2.getD (offset s + (s.list (offset s) limit).1.length)
    let merged := mergePage perSensor limit
    let shown := (merged.2.map Prod.snd).sum
    let total := totals.sum
    (formatCursor merged.2).map fun text =>
      ⟨merged.1, text, shown, total, decide (shown < total), sensor.filter (· ≠ ""),
        (sensors.filter fun s => !answers s.id).map CaptureSensor.id⟩

/-- Page after page, each asked for with the cursor of the one before. -/
def capturePages (cursor : Option (List Char)) : List (String → Bool) → Option (List CapturesPage)
  | [] => some []
  | answers :: rest => (fleetCaptures registry sensor limit answers cursor).bind fun page =>
      (capturePages (some page.cursor) rest).map (page :: ·)

/-- The captures of one sensor among some that were shown. -/
def shownOf (id : String) (rows : List FleetCapture) : List ListedCapture :=
  (rows.filter fun r => r.sensor.id = id).map FleetCapture.capture

def NewestFirst (l : List ListedCapture) : Prop := l.Pairwise fun a b => b.startKey ≤ a.startKey

/-- A page is right after `before` was shown. -/
structure PageRight (before : List FleetCapture) (answers : String → Bool) (page : CapturesPage) : Prop where
  once : ∀ s ∈ registry.asked sensor, shownOf s.id (before ++ page.captures) <+: s.captures
  full : page.captures.length < pageLimit limit →
    ∀ s ∈ registry.asked sensor, answers s.id = true → shownOf s.id (before ++ page.captures) = s.captures
  more : page.more = true ↔ ∃ s ∈ registry.asked sensor,
    answers s.id = true ∧ shownOf s.id (before ++ page.captures) ≠ s.captures
  newest : (∀ s ∈ registry.asked sensor, NewestFirst s.captures) → NewestFirst (page.captures.map FleetCapture.capture)
  cursor : ∃ d, parseCursor (some page.cursor) = some d ∧
    d.entries = (registry.asked sensor).map fun s => (s.id, (shownOf s.id (before ++ page.captures)).length)

/-- Every page with the answers to it and what was shown before it. -/
def Along (right : List FleetCapture → (String → Bool) → CapturesPage → Prop) :
    List FleetCapture → List (String → Bool) → List CapturesPage → Prop
  | _, [], [] => True
  | before, answers :: rest, page :: pages => right before answers page ∧ Along right (before ++ page.captures) rest pages
  | _, _, _ => False

/-- Paging from the start shows each sensor's captures once, in its own order,
and says when there are more; where every sensor answers all of it is in order. -/
def PagedOnce (answers : List (String → Bool)) : Prop :=
  ∃ pages, capturePages registry sensor limit none answers = some pages ∧
    Along (PageRight registry sensor limit) [] answers pages ∧
    ((∀ s ∈ registry.asked sensor, NewestFirst s.captures) → (∀ a ∈ answers, ∀ s ∈ registry.asked sensor, a s.id = true) →
      NewestFirst ((pages.flatMap CapturesPage.captures).map FleetCapture.capture))

/-- The captures of the sensors that answer, beyond those shown before. -/
def leftOver (before : List FleetCapture) (answers : String → Bool) : Nat :=
  (((registry.asked sensor).filter fun s => answers s.id).map fun s => s.captures.length - (shownOf s.id before).length).sum

/-- The captures shown before of the sensors that do not answer. -/
def shownOfSilent (before : List FleetCapture) (answers : String → Bool) : Nat :=
  (((registry.asked sensor).filter fun s => !answers s.id).map fun s => (shownOf s.id before).length).sum

/-- Where a page leaves captures for later, they are more than those of the
sensors that do not answer. -/
def PageCounted (before : List FleetCapture) (answers : String → Bool) (_ : CapturesPage) : Prop :=
  pageLimit limit < leftOver registry sensor before answers →
    shownOfSilent registry sensor before answers + pageLimit limit < leftOver registry sensor before answers

end Page

section Merged

variable {perSensor : List SensorPage} {limit i : Nat} {p : SensorPage}

theorem shownOf_append (id : String) (rows rows' : List FleetCapture) :
    shownOf id (rows ++ rows') = shownOf id rows ++ shownOf id rows' := by
  rw [shownOf, List.filter_append, List.map_append]
  rfl

variable (limit) in
/-- The rows of a sensor are those taken of its list. -/
theorem shownOf_mergePage (distinct : (perSensor.map fun p => p.sensor.id).Nodup) (at_ : perSensor[i]? = some p) :
    shownOf p.sensor.id (mergePage perSensor limit).1 =
      HeadMerge.taken i (HeadMerge.merge ListedCapture.startKey limit (perSensor.map SensorPage.entries)) := by
  unfold mergePage
  simp only
  generalize HeadMerge.merge ListedCapture.startKey limit (perSensor.map SensorPage.entries) = out
  induction out with
  | nil => rfl
  | cons r out ih =>
    obtain ⟨j, e⟩ := r
    by_cases here : j = i
    · subst here
      rw [List.filterMap_cons_some (by rw [at_]; rfl), HeadMerge.taken_cons_self, ← ih, shownOf,
        List.filter_cons_of_pos (by simp)]
      rfl
    · rw [HeadMerge.taken_cons_ne here, ← ih]
      cases other : perSensor[j]? with
      | none => rw [List.filterMap_cons_none (by rw [other]; rfl)]
      | some q =>
        have differ : q.sensor.id ≠ p.sensor.id := by
          intro same
          have bound : j < (perSensor.map fun p => p.sensor.id).length := by
            rw [List.length_map]
            exact (List.getElem?_eq_some_iff.mp other).1
          refine here ((List.getElem?_inj bound distinct).mp ?_)
          rw [List.getElem?_map, List.getElem?_map, other, at_, Option.map_some, Option.map_some, same]
        rw [List.filterMap_cons_some (by rw [other]; rfl), shownOf, List.filter_cons_of_neg (by simpa using differ)]
        rfl

theorem mem_mergePage {r : FleetCapture} (member : r ∈ (mergePage perSensor limit).1) :
    ∃ p ∈ perSensor, r.sensor = p.sensor := by
  obtain ⟨t, -, found⟩ := List.mem_filterMap.mp member
  obtain ⟨p, at_, rfl⟩ := Option.map_eq_some_iff.mp found
  exact ⟨p, List.mem_of_getElem? at_, rfl⟩

theorem length_mergePage : (mergePage perSensor limit).1.length =
    min limit ((perSensor.map fun p => p.entries.length).sum) := by
  have all : ∀ r ∈ HeadMerge.merge ListedCapture.startKey limit (perSensor.map SensorPage.entries),
      ((perSensor[r.1]?).map fun p => FleetCapture.mk p.sensor r.2).isSome = true := by
    intro r member
    have bound := HeadMerge.index_lt member
    rw [List.length_map] at bound
    rw [List.getElem?_eq_getElem bound]
    rfl
  have length := HeadMerge.length_merge ListedCapture.startKey limit (perSensor.map SensorPage.entries)
  rw [List.map_map] at length
  rw [mergePage, List.length_filterMap_eq_countP, List.countP_eq_length.mpr all, length]
  rfl

theorem sum_same (sensors : List CaptureSensor) (id : String) :
    (sensors.map fun s => if s.id = id then 1 else 0).sum = (sensors.map CaptureSensor.id).count id := by
  induction sensors with
  | nil => rfl
  | cons s sensors ih =>
    rw [List.map_cons, List.sum_cons, ih, List.map_cons, List.count_cons, add_comm]
    simp only [beq_iff_eq]

theorem mergePage_captures : (mergePage perSensor limit).1.map FleetCapture.capture =
    (HeadMerge.merge ListedCapture.startKey limit (perSensor.map SensorPage.entries)).map Prod.snd := by
  rw [mergePage, List.map_filterMap, ← List.filterMap_eq_map (f := Prod.snd)]
  refine List.filterMap_congr fun r member => ?_
  have bound := HeadMerge.index_lt member
  rw [List.length_map] at bound
  rw [List.getElem?_eq_getElem bound]
  rfl

/-- Rows of known sensors are counted once each. -/
theorem sum_shownOf {sensors : List CaptureSensor} {rows : List FleetCapture} (distinct : (sensors.map CaptureSensor.id).Nodup)
    (known : ∀ r ∈ rows, r.sensor.id ∈ sensors.map CaptureSensor.id) :
    (sensors.map fun s => (shownOf s.id rows).length).sum = rows.length := by
  induction rows with
  | nil =>
    refine List.sum_eq_zero fun x member => ?_
    obtain ⟨s, -, rfl⟩ := List.mem_map.mp member
    rfl
  | cons r rows ih =>
    obtain ⟨first, rest⟩ := List.forall_mem_cons.mp known
    have each : ∀ s : CaptureSensor, (shownOf s.id (r :: rows)).length =
        (if s.id = r.sensor.id then 1 else 0) + (shownOf s.id rows).length := by
      intro s
      rw [shownOf, shownOf, List.length_map, List.length_map]
      by_cases same : s.id = r.sensor.id
      · rw [if_pos same, List.filter_cons_of_pos (by simp [same]), List.length_cons, add_comm]
      · rw [if_neg same, List.filter_cons_of_neg (by simpa using fun eq => same (Eq.symm eq)), zero_add]
    have one : (sensors.map fun s : CaptureSensor => if s.id = r.sensor.id then 1 else 0).sum = 1 := by
      rw [sum_same, List.count_eq_one_of_mem distinct first]
    simp only [each]
    rw [List.sum_map_add, one, ih rest, List.length_cons, add_comm]

end Merged

section Step

variable {registry : CaptureRegistry} {sensor : Option String} {limit : ℤ} {answers : String → Bool}
  {before : List FleetCapture} {cursor : Option (List Char)} {s : CaptureSensor}

/-- A cursor says how much of each list was shown. -/
def Reached (registry : CaptureRegistry) (sensor : Option String) (before : List FleetCapture) (cursor : Option (List Char)) :
    Prop :=
  ∃ offsets, parseCursor cursor = some offsets ∧ ∀ s ∈ registry.asked sensor,
    (offsets.get? s.id).getD 0 = (shownOf s.id before).length ∧ shownOf s.id before <+: s.captures

/-- What the sensors give to the page after `before`. -/
def given (registry : CaptureRegistry) (sensor : Option String) (limit : ℤ) (answers : String → Bool)
    (before : List FleetCapture) : List SensorPage :=
  (registry.asked sensor).map fun s => ⟨s.sensor,
    if answers s.id then (s.captures.drop (shownOf s.id before).length).take (pageLimit limit) else [],
    (shownOf s.id before).length⟩

/-- What the page after `before` shows. -/
def shownNext (registry : CaptureRegistry) (sensor : Option String) (limit : ℤ) (answers : String → Bool)
    (before : List FleetCapture) : List FleetCapture :=
  (mergePage (given registry sensor limit answers before) (pageLimit limit)).1

theorem asked_distinct (registry : CaptureRegistry) (sensor : Option String) :
    ((registry.asked sensor).map CaptureSensor.id).Nodup :=
  registry.distinct.sublist (List.filter_sublist.map _)

theorem given_distinct : ((given registry sensor limit answers before).map fun p => p.sensor.id).Nodup := by
  rw [given, List.map_map]
  exact asked_distinct registry sensor

variable (limit answers before) in
theorem given_at {i : Nat} (at_ : (registry.asked sensor)[i]? = some s) :
    (given registry sensor limit answers before)[i]? = some ⟨s.sensor,
      if answers s.id then (s.captures.drop (shownOf s.id before).length).take (pageLimit limit) else [],
      (shownOf s.id before).length⟩ := by
  rw [given, List.getElem?_map, at_, Option.map_some]

variable (limit answers before) in
/-- A page goes on in a sensor's own order. -/
theorem shownNext_eq (isAsked : s ∈ registry.asked sensor) : shownOf s.id (shownNext registry sensor limit answers before) =
    (if answers s.id then (s.captures.drop (shownOf s.id before).length).take (pageLimit limit) else []).take
      (shownOf s.id (shownNext registry sensor limit answers before)).length := by
  obtain ⟨i, at_⟩ := List.getElem?_of_mem isAsked
  have its := given_at limit answers before at_
  have rows := shownOf_mergePage (pageLimit limit) given_distinct its
  rw [shownNext]
  change shownOf s.id _ = _ at rows
  rw [rows]
  exact HeadMerge.taken_eq_take (by rw [List.getElem?_map, its]; rfl) _

theorem shownNext_silent (isAsked : s ∈ registry.asked sensor) (silent : answers s.id = false) :
    shownOf s.id (shownNext registry sensor limit answers before) = [] := by
  rw [shownNext_eq limit answers before isAsked, silent]
  exact List.take_nil

variable (limit answers) in
theorem shownNext_once (isAsked : s ∈ registry.asked sensor) (once : shownOf s.id before <+: s.captures) :
    shownOf s.id (before ++ shownNext registry sensor limit answers before) <+: s.captures := by
  rw [shownOf_append]
  obtain ⟨after, split⟩ := once
  cases answer : answers s.id with
  | false =>
    rw [shownNext_silent isAsked answer, List.append_nil]
    exact ⟨after, split⟩
  | true =>
    have next := shownNext_eq limit answers before isAsked
    have rest : s.captures.drop (shownOf s.id before).length = after := by rw [← split, List.drop_left]
    rw [answer, if_pos rfl, List.take_take, rest] at next
    rw [next, ← split, List.prefix_append_right_inj]
    exact List.take_prefix _ _

theorem shownNext_known : ∀ r ∈ shownNext registry sensor limit answers before,
    r.sensor.id ∈ (registry.asked sensor).map CaptureSensor.id := by
  intro r member
  obtain ⟨p, isGiven, same⟩ := mem_mergePage member
  obtain ⟨s, isAsked, rfl⟩ := List.mem_map.mp isGiven
  rw [same]
  exact List.mem_map_of_mem isAsked

variable (registry sensor limit answers before) in
theorem entries_next : (mergePage (given registry sensor limit answers before) (pageLimit limit)).2 =
    (registry.asked sensor).map fun s => (s.id, (shownOf s.id (before ++ shownNext registry sensor limit answers before)).length) := by
  refine List.ext_getElem? fun i => ?_
  cases at_ : (registry.asked sensor)[i]? with
  | none =>
    have short := List.getElem?_eq_none_iff.mp at_
    rw [List.getElem?_eq_none (by simpa [mergePage, given] using short), List.getElem?_map, at_, Option.map_none]
  | some s =>
    have its := given_at limit answers before at_
    have rows := shownOf_mergePage (pageLimit limit) given_distinct its
    rw [List.getElem?_map, at_, Option.map_some, shownOf_append, List.length_append]
    change shownOf s.id _ = _ at rows
    rw [shownNext, rows, mergePage, List.getElem?_mapIdx, its, Option.map_some]
    rfl

variable (registry sensor limit answers before) in
theorem sum_next : ((registry.asked sensor).map fun s => (shownOf s.id (shownNext registry sensor limit answers before)).length).sum =
    (shownNext registry sensor limit answers before).length :=
  sum_shownOf (asked_distinct registry sensor) shownNext_known

variable (registry sensor limit answers before) in
/-- A full page, or all that the sensors that answer have left. -/
theorem length_next : (shownNext registry sensor limit answers before).length =
    min (pageLimit limit) (leftOver registry sensor before answers) := by
  rw [shownNext, length_mergePage]
  unfold given leftOver
  rw [List.map_map]
  generalize registry.asked sensor = sensors
  induction sensors with
  | nil => rfl
  | cons s sensors ih =>
    rw [List.map_cons, List.sum_cons]
    cases answer : answers s.id with
    | false =>
      rw [List.filter_cons_of_neg (by simp [answer]), ← ih]
      simp [answer]
    | true =>
      have kept : (s :: sensors).filter (fun s => answers s.id) = s :: sensors.filter fun s => answers s.id :=
        List.filter_cons_of_pos answer
      rw [kept, List.map_cons, List.sum_cons]
      simp only [Function.comp_apply, answer, if_pos, List.length_take, List.length_drop] at ih ⊢
      omega

variable (limit answers) in
/-- The answering sensors have as much left as they had, less the page. -/
theorem leftOver_next (once : ∀ s ∈ registry.asked sensor, shownOf s.id before <+: s.captures) :
    leftOver registry sensor (before ++ shownNext registry sensor limit answers before) answers +
      (shownNext registry sensor limit answers before).length = leftOver registry sensor before answers := by
  rw [← sum_next]
  unfold leftOver
  have parts : ∀ sensors : List CaptureSensor, (∀ s ∈ sensors, s ∈ registry.asked sensor) →
      (((sensors.filter fun s => answers s.id).map fun s =>
        s.captures.length - (shownOf s.id (before ++ shownNext registry sensor limit answers before)).length).sum +
        (sensors.map fun s => (shownOf s.id (shownNext registry sensor limit answers before)).length).sum) =
      ((sensors.filter fun s => answers s.id).map fun s => s.captures.length - (shownOf s.id before).length).sum := by
    intro sensors inside
    induction sensors with
    | nil => rfl
    | cons s sensors ih =>
      obtain ⟨first, rest⟩ := List.forall_mem_cons.mp inside
      have tail := ih rest
      have bounded := (shownNext_once limit answers first (once s first)).length_le
      rw [shownOf_append, List.length_append] at bounded
      rw [List.map_cons, List.sum_cons]
      cases answer : answers s.id with
      | false =>
        have skipped : (s :: sensors).filter (fun s => answers s.id) = sensors.filter fun s => answers s.id :=
          List.filter_cons_of_neg (by simp [answer])
        rw [skipped, shownNext_silent first answer, List.length_nil, zero_add]
        exact tail
      | true =>
        have kept : (s :: sensors).filter (fun s => answers s.id) = s :: sensors.filter fun s => answers s.id :=
          List.filter_cons_of_pos answer
        rw [kept, List.map_cons, List.sum_cons, List.map_cons, List.sum_cons, shownOf_append,
          List.length_append]
        omega
  exact parts _ fun s member => member

variable (answers) in
/-- Something is left of an answering sensor when its list is not shown whole. -/
theorem leftOver_pos {rows : List FleetCapture} (once : ∀ s ∈ registry.asked sensor, shownOf s.id rows <+: s.captures) :
    0 < leftOver registry sensor rows answers ↔
      ∃ s ∈ registry.asked sensor, answers s.id = true ∧ shownOf s.id rows ≠ s.captures := by
  have short : ∀ s ∈ registry.asked sensor, shownOf s.id rows ≠ s.captures ↔
      0 < s.captures.length - (shownOf s.id rows).length := by
    intro s isAsked
    have bounded := (once s isAsked).length_le
    rw [Nat.sub_pos_iff_lt, lt_iff_le_and_ne]
    refine ⟨fun differ => ⟨bounded, fun same => differ ((once s isAsked).eq_of_length same)⟩, ?_⟩
    rintro ⟨-, differ⟩ same
    exact differ (by rw [same])
  rw [leftOver, Nat.pos_iff_ne_zero, ne_eq, List.sum_eq_zero_iff]
  push Not
  constructor
  · rintro ⟨x, member, some_⟩
    obtain ⟨s, isKept, rfl⟩ := List.mem_map.mp member
    obtain ⟨isAsked, answer⟩ := List.mem_filter.mp isKept
    exact ⟨s, isAsked, answer, (short s isAsked).mpr (Nat.pos_of_ne_zero some_)⟩
  · rintro ⟨s, isAsked, answer, differ⟩
    exact ⟨_, List.mem_map_of_mem (List.mem_filter.mpr ⟨isAsked, answer⟩), ((short s isAsked).mp differ).ne'⟩

variable (answers) in
/-- The captures of the answering sensors, and those shown of all. -/
theorem sums_eq (once : ∀ s ∈ registry.asked sensor, shownOf s.id before <+: s.captures) :
    ((registry.asked sensor).map fun s => (shownOf s.id before).length).sum + leftOver registry sensor before answers =
      (((registry.asked sensor).filter fun s => answers s.id).map fun s => s.captures.length).sum +
        shownOfSilent registry sensor before answers := by
  have parts : ∀ sensors : List CaptureSensor, (∀ s ∈ sensors, s ∈ registry.asked sensor) →
      (sensors.map fun s => (shownOf s.id before).length).sum +
        ((sensors.filter fun s => answers s.id).map fun s => s.captures.length - (shownOf s.id before).length).sum =
      ((sensors.filter fun s => answers s.id).map fun s => s.captures.length).sum +
        ((sensors.filter fun s => !answers s.id).map fun s => (shownOf s.id before).length).sum := by
    intro sensors inside
    induction sensors with
    | nil => rfl
    | cons s sensors ih =>
      obtain ⟨first, rest⟩ := List.forall_mem_cons.mp inside
      have tail := ih rest
      have bounded := (once s first).length_le
      cases answer : answers s.id with
      | false =>
        simp only [List.filter_cons, answer, Bool.not_false, Bool.false_eq_true, if_true, if_false, List.map_cons,
          List.sum_cons]
        omega
      | true =>
        simp only [List.filter_cons, answer, Bool.not_true, Bool.false_eq_true, if_true, if_false, List.map_cons,
          List.sum_cons]
        omega
  exact parts _ fun s member => member

theorem newest_next (newest : ∀ s ∈ registry.asked sensor, NewestFirst s.captures) :
    NewestFirst ((shownNext registry sensor limit answers before).map FleetCapture.capture) := by
  rw [shownNext, mergePage_captures, NewestFirst, List.pairwise_map]
  refine HeadMerge.merge_descends (fun l member => ?_) _
  obtain ⟨p, isGiven, rfl⟩ := List.mem_map.mp member
  obtain ⟨s, isAsked, rfl⟩ := List.mem_map.mp isGiven
  simp only
  split
  case isTrue => exact ((newest s isAsked).sublist (List.drop_sublist _ _)).sublist (List.take_sublist _ _)
  case isFalse => exact List.Pairwise.nil

/-- The page after `before`, with its cursor. -/
def nextPage (registry : CaptureRegistry) (sensor : Option String) (limit : ℤ) (answers : String → Bool)
    (before : List FleetCapture) (text : List Char) : CapturesPage :=
  let rows := shownNext registry sensor limit answers before
  let shown := ((registry.asked sensor).map fun s => (shownOf s.id (before ++ rows)).length).sum
  let total := (((registry.asked sensor).filter fun s => answers s.id).map fun s => s.captures.length).sum
  ⟨rows, text, shown, total, decide (shown < total), sensor.filter (· ≠ ""),
    ((registry.asked sensor).filter fun s => !answers s.id).map CaptureSensor.id⟩

variable (limit answers) in
/-- A page after a cursor that says what was shown. -/
theorem fleetCaptures_next (reached : Reached registry sensor before cursor) (plain : ∀ s ∈ registry.asked sensor, Plain s.id) :
    ∃ page, fleetCaptures registry sensor limit answers cursor = some page ∧
      page.captures = shownNext registry sensor limit answers before ∧
      Reached registry sensor (before ++ page.captures) (some page.cursor) ∧
      (PageRight registry sensor limit before answers page ↔ PageCounted registry sensor limit before answers page) := by
  obtain ⟨offsets, read, its⟩ := reached
  have once : ∀ s ∈ registry.asked sensor, shownOf s.id before <+: s.captures := fun s isAsked => (its s isAsked).2
  have onceNext : ∀ s ∈ registry.asked sensor,
      shownOf s.id (before ++ shownNext registry sensor limit answers before) <+: s.captures := fun s isAsked =>
    shownNext_once limit answers isAsked (once s isAsked)
  have perSensor : ((registry.asked sensor).map fun s => SensorPage.mk s.sensor
      (if answers s.id then (s.list ((offsets.get? s.id).getD 0) (pageLimit limit)).1 else []) ((offsets.get? s.id).getD 0)) =
        given registry sensor limit answers before :=
    List.map_congr_left fun s isAsked => by rw [(its s isAsked).1]; rfl
  have distinct : (((registry.asked sensor).map fun s =>
      (s.id, (shownOf s.id (before ++ shownNext registry sensor limit answers before)).length)).map Prod.fst).Nodup := by
    rw [List.map_map]
    exact asked_distinct registry sensor
  obtain ⟨text, written⟩ := format_isSome.mpr (show ∀ e ∈ (registry.asked sensor).map fun s =>
      (s.id, (shownOf s.id (before ++ shownNext registry sensor limit answers before)).length), e.2 < 10 ^ maxStrDigits by
    intro e member
    obtain ⟨s, isAsked, rfl⟩ := List.mem_map.mp member
    exact (onceNext s isAsked).length_le.trans_lt s.countable)
  obtain ⟨d, readNext, entries⟩ := parse_format distinct (fun e member => by
    obtain ⟨s, isAsked, rfl⟩ := List.mem_map.mp member
    exact plain s isAsked) written
  have shown := sums_eq answers once
  have counted := sum_next registry sensor limit answers before
  have some_ := leftOver_pos answers onceNext
  have less := leftOver_next limit answers once
  have length := length_next registry sensor limit answers before
  have total : ((registry.asked sensor).map fun s =>
      (shownOf s.id (before ++ shownNext registry sensor limit answers before)).length).sum =
      ((registry.asked sensor).map fun s => (shownOf s.id before).length).sum +
        (shownNext registry sensor limit answers before).length := by
    simp only [shownOf_append, List.length_append]
    rw [List.sum_map_add, counted]
  refine ⟨nextPage registry sensor limit answers before text, ?_, rfl, ⟨d, readNext, fun s isAsked => ⟨?_, onceNext s isAsked⟩⟩, ?_⟩
  · simp only [fleetCaptures, read, Option.bind_some, perSensor, entries_next, written, Option.map_some, List.map_map]
    rfl
  · have value : d.get? s.id = some (shownOf s.id (before ++ shownNext registry sensor limit answers before)).length := by
      rw [Dict.get?_eq_some, entries]
      exact List.mem_map_of_mem isAsked
    rw [value]
    rfl
  · have more : (nextPage registry sensor limit answers before text).more = true ↔
        shownOfSilent registry sensor before answers + (shownNext registry sensor limit answers before).length <
          leftOver registry sensor before answers := by
      rw [nextPage, decide_eq_true_iff]
      omega
    constructor
    · intro right many
      have counts := more.symm.trans (right.more.trans some_.symm)
      omega
    · intro covered
      refine ⟨fun s isAsked => onceNext s isAsked, fun short s isAsked answer => ?_, ?_, newest_next, d, readNext, entries⟩
      · by_contra differ
        have positive := some_.mpr ⟨s, isAsked, answer, differ⟩
        change (shownNext registry sensor limit answers before).length < _ at short
        omega
      · unfold PageCounted at covered
        exact (more.trans (by omega)).trans some_

end Step

end RFObserver
