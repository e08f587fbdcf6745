import RFObserver.Web.DetectionRoutes

/-! When following `next_before` shows every detection once, in the fleet's list
and in a sensor's own. -/

namespace RFObserver
open IsoTime CappedPages DetectionRoutes

theorem noRows_stored : ∀ d ∈ ([] : List Detection), Storable d.startTime :=
  List.forall_mem_nil _

def DetectionTable.empty : DetectionTable := ⟨[], List.nodup_nil, noRows_stored⟩

/-- A sensor of the registry, as it answers. -/
structure FleetSensor where
  sensor : SensorMeta
  enabled : Bool
  answers : Bool
  /-- False for a sensor that predates the attributed and model parameters. -/
  filters : Bool
  db : Option DetectionTable

/-- What a page of the fleet's list asks for, beside its end. -/
structure FleetQuery where
  since : List Char
  limit : ℤ
  sensor : Option String
  attributed : Option String
  model : Option String
  status : Option String

namespace FleetQuery

variable (q : FleetQuery)

def wantAttr : Option Bool := wantAttributed q.attributed q.status

/-- The enabled sensors, or one. -/
def asked (registry : List FleetSensor) : List FleetSensor :=
  registry.filter fun s => s.enabled && (q.sensor = none ∨ q.sensor = some "" ∨ q.sensor = some s.sensor.id)

/-- What a sensor makes of the parameters. -/
def sensorSide (s : FleetSensor) : DetectionFilter :=
  if s.filters then sensorFilter q.wantAttr q.model else sensorFilter none none

def fleetSide (d : Detection) : Bool :=
  matchesPage q.wantAttr (q.model.filter (· ≠ "")) (q.status.filter (· ≠ "")) d

/-- The rows of one sensor; none where it does not answer. -/
def one (until_ : List Char) (s : FleetSensor) : List Detection :=
  if s.answers then
    (detectionsJson (pageLimit q.limit) q.since until_ (q.sensorSide s) s.db).filter q.fleetSide
  else []

end FleetQuery

def fleetDetections (registry : List FleetSensor) (q : FleetQuery) (until_ : List Char) : DetectionPage :=
  let limit := pageLimit q.limit
  let sensors := q.asked registry
  DetectionPage.of (merge (sensors.map fun s => (s.sensor, q.one until_ s)) limit) limit
    ((sensors.filter fun s => !s.answers).map fun s => s.sensor.id)

def FleetRow.startTime (r : FleetRow) : ℚ := r.detection.startTime

/-- Following `next_before` from a text shows these rows once each, newest first. -/
def Shows (ask : List Char → Option DetectionPage) (until_ : List Char) (wanted : List FleetRow) : Prop :=
  ∃ n rows, follow (fun t => (ask t).map fun p => (p.rows, p.nextBefore)) n until_ = some rows ∧
    rows.Perm wanted ∧ Descends FleetRow.startTime rows

/-- A sensor's detections that pass its own filters. -/
structure Source where
  sensor : SensorMeta
  table : DetectionTable
  takes : Detection → Bool

namespace Source

def rows (s : Source) : List FleetRow :=
  (Keyset.sorted Detection.order (s.table.rows.filter s.takes)).map (FleetRow.mk s.sensor)

/-- What a list pages through. -/
def feed (sources : List Source) (wanted : Detection → Bool) (limit : Nat) : Feed FleetRow :=
  ⟨sources.map rows, fun r => wanted r.detection, limit⟩

end Source

namespace FleetSensor

/-- The detections that a sensor can answer with. -/
def table (s : FleetSensor) : DetectionTable := if s.answers then s.db.getD DetectionTable.empty else DetectionTable.empty

def source (q : FleetQuery) (since : ℚ) (s : FleetSensor) : Source :=
  ⟨s.sensor, s.table, fun d => decide (since ≤ d.startTime) && (q.sensorSide s).accepts d⟩

end FleetSensor

/-- What the fleet's list pages through: the answers of its sensors, filtered again. -/
def fleetFeed (registry : List FleetSensor) (q : FleetQuery) (since : ℚ) : Feed FleetRow :=
  Source.feed ((q.asked registry).map (FleetSensor.source q since)) q.fleetSide (pageLimit q.limit)

/-- What a sensor's own list pages through. -/
def ownFeed (sensor : SensorMeta) (table : DetectionTable) (q : ListQuery) (since : ℚ) : Feed FleetRow :=
  Source.feed [⟨sensor, table, fun d => decide (since ≤ d.startTime) && q.filter.accepts d⟩] (fun _ => true) (pageLimit q.limit)

/-- The matching detections of `[since, until)` on the sensors that answer. -/
def fleetMatching (registry : List FleetSensor) (q : FleetQuery) (since until_ : ℚ) : List FleetRow :=
  (q.asked registry).flatMap fun s => (s.table.rows.filter fun d =>
    since ≤ d.startTime ∧ d.startTime < until_ ∧ q.fleetSide d = true).map (FleetRow.mk s.sensor)

/-- The matching detections of `[since, until)` on one sensor. -/
def ownMatching (sensor : SensorMeta) (table : DetectionTable) (q : ListQuery) (since until_ : ℚ) : List FleetRow :=
  (table.rows.filter fun d => since ≤ d.startTime ∧ d.startTime < until_ ∧ q.filter.accepts d = true).map (FleetRow.mk sensor)

/-- A time of a request to the fleet, as its sensors read it. -/
def StandsFor (text : List Char) (x : ℚ) : Prop := ∃ t, Ranges.optDt text = some t ∧ (utcIso t).isSome ∧ t.timestamp = x

/-- A time of a request to a sensor's own list. -/
def GivenAs (text : List Char) (x : ℚ) : Prop := ∃ t, optUtcDt text = .ok (some t) ∧ t.timestamp = x

section Pages

variable {sources : List Source} {wanted : Detection → Bool} {limit : Nat} {u : ℚ}

theorem Source.descends (s : Source) : Descends FleetRow.startTime s.rows :=
  List.pairwise_map.mpr (s.table.descends s.takes)

theorem Source.stored {s : Source} {r : FleetRow} (member : r ∈ s.rows) : Storable r.startTime := by
  obtain ⟨d, isIn, rfl⟩ := List.mem_map.mp member
  exact s.table.stored d (List.mem_of_mem_filter (Keyset.mem_sorted.mp isIn))

/-- What one sensor shows of its newest rows. -/
theorem Source.answered (s : Source) :
    ((newestDetections limit (s.table.rows.filter fun d => s.takes d && decide (d.startTime < u))).filter wanted).map
      (FleetRow.mk s.sensor) =
      ((below FleetRow.startTime u s.rows).take limit).filter fun r => wanted r.detection := by
  rw [s.table.newest_before, Source.rows, below, below, List.filter_map, ← List.map_take, List.filter_map]
  rfl

theorem merge_eq : merge (sources.map fun s => (s.sensor,
    (newestDetections limit (s.table.rows.filter fun d => s.takes d && decide (d.startTime < u))).filter wanted)) limit =
      (Source.feed sources wanted limit).rows FleetRow.startTime u := by
  rw [merge, Feed.rows, Feed.answered, Source.feed, List.flatMap_map, List.flatMap_map]
  simp only [Source.answered]
  refine congrArg (List.take limit) (newest_congr fun r member => startKey_eq ?_)
  obtain ⟨s, -, isIn⟩ := List.mem_flatMap.mp member
  exact Source.stored (mem_below.mp (List.mem_of_mem_take (List.mem_of_mem_filter isIn))).1

theorem Source.left_perm : ((Source.feed sources wanted limit).left FleetRow.startTime u).Perm
    (sources.flatMap fun s => (s.table.rows.filter fun d => s.takes d && decide (d.startTime < u) && wanted d).map
      (FleetRow.mk s.sensor)) := by
  refine ((newest_perm _ _).filter _).trans ?_
  rw [Source.feed, List.filter_flatMap, List.flatMap_map]
  refine List.Perm.flatMap_left _ fun s _ => ?_
  rw [Source.rows, List.filter_map, List.filter_map, List.filter_filter]
  refine ((Keyset.sorted_perm _ _).filter _).map _ |>.trans (List.Perm.of_eq ?_)
  rw [List.filter_filter]
  congr 2
  funext d
  rw [Bool.eq_iff_iff]
  simp only [Function.comp_apply, Bool.and_eq_true, decide_eq_true_iff]
  exact ⟨fun ⟨⟨before, kept⟩, taken⟩ => ⟨⟨taken, before⟩, kept⟩, fun ⟨⟨taken, before⟩, kept⟩ => ⟨⟨before, kept⟩, taken⟩⟩

/-- Following the texts of the pages is following their times. -/
theorem shows_iff {ask : List Char → Option DetectionPage} {Names : List Char → ℚ → Prop} {until_ : List Char}
    {errors : List String} {rows : List FleetRow} (names : Names until_ u)
    (next : ∀ x, Storable x → Names (utcText x) x)
    (page : ∀ text x, Names text x →
      ask text = some (DetectionPage.of ((Source.feed sources wanted limit).rows FleetRow.startTime x) limit errors))
    (perm : ((Source.feed sources wanted limit).left FleetRow.startTime u).Perm rows) :
    Shows ask until_ rows ↔ (Source.feed sources wanted limit).Exact FleetRow.startTime u := by
  have same : ∀ n, follow (fun t => (ask t).map fun p => (p.rows, p.nextBefore)) n until_ =
      follow ((Source.feed sources wanted limit).page FleetRow.startTime) n u := by
    intro n
    refine follow_congr (R := Names) (fun text x named => ?_) n names
    refine ⟨_, _, _, congrArg (Option.map _) (page text x named), rfl, ?_⟩
    by_cases full : limit ≤ ((Source.feed sources wanted limit).rows FleetRow.startTime x).length
    · rw [DetectionPage.of, if_pos full, if_pos (by exact full)]
      cases last : ((Source.feed sources wanted limit).rows FleetRow.startTime x).getLast? with
      | none => exact Option.Rel.none
      | some r =>
        refine Option.Rel.some (next _ ?_)
        have member := (newest_perm _ _).subset (List.mem_of_mem_take (List.mem_of_getLast? last))
        obtain ⟨l, isSource, isIn⟩ := List.mem_flatMap.mp member
        obtain ⟨s, -, rfl⟩ := List.mem_map.mp isSource
        exact Source.stored (mem_below.mp (List.mem_of_mem_take (List.mem_of_mem_filter isIn))).1
    · rw [DetectionPage.of, if_neg full, if_neg (by exact full)]
      exact Option.Rel.none
  constructor
  · rintro ⟨n, shown, goes, isPerm, descends⟩
    exact ⟨n, shown, (same n).symm.trans goes, isPerm.trans perm.symm, descends⟩
  · rintro ⟨n, shown, goes, isPerm, descends⟩
    exact ⟨n, shown, (same n).trans goes, isPerm.trans perm, descends⟩

end Pages

section Lists

variable {text : List Char} {x s u : ℚ}

theorem standsFor_utcText (storable : Storable x) : StandsFor (utcText x) x := by
  obtain ⟨t, utc, rfl⟩ := storable
  exact ⟨t, utcText_timestamp utc ▸ optDt_isoformat utc, by rw [Ranges.utcIso_utc utc]; rfl, rfl⟩

theorem givenAs_utcText (storable : Storable x) : GivenAs (utcText x) x := by
  obtain ⟨t, utc, rfl⟩ := storable
  exact ⟨t, utcText_timestamp utc ▸ optUtcDt_isoformat utc, rfl⟩

theorem pageLimit_pos (limit : ℤ) : 0 < pageLimit limit := by
  unfold pageLimit
  omega

/-- What the fleet keeps passes the filters of the sensors. -/
theorem accepts_of_fleetSide {q : FleetQuery} {sensor : FleetSensor} {d : Detection} (kept : q.fleetSide d = true) :
    (q.sensorSide sensor).accepts d = true := by
  obtain ⟨decoded, undecoded, model, -⟩ := matchesPage_iff.mp kept
  rw [status_decoded] at decoded
  have undecoded' : q.wantAttr = some false → d.model = none ∨ d.model = some "" := by
    intro isFalse
    have no := undecoded isFalse
    rw [ne_eq, status_decoded, not_and_or, not_not, not_not] at no
    exact no
  have any : (sensorFilter none none).accepts d = true := by
    simp [sensorFilter, DetectionFilter.accepts, TuningFilter.meets, statusCondition]
  unfold FleetQuery.sensorSide
  split
  case isFalse => exact any
  case isTrue =>
    simp only [sensorFilter, DetectionFilter.accepts, TuningFilter.meets, statusCondition, decide_eq_true_iff]
    refine ⟨nofun, nofun, by simp, nofun, nofun, fun a isAttr => ?_, trivial, fun m isModel => ?_⟩
    · cases a with
      | true => exact decoded isAttr
      | false => exact undecoded' isAttr
    · obtain ⟨isSome, filled⟩ := Option.filter_eq_some_iff.mp isModel
      rw [isModel] at model
      exact ⟨model.resolve_left nofun, of_decide_eq_true filled⟩

theorem newest_empty (limit : Nat) (p : Detection → Bool) :
    newestDetections limit (DetectionTable.empty.rows.filter p) = [] := List.take_nil

theorem range_filter {rows : List Detection} {p : Detection → Bool} :
    rows.filter (fun d => s ≤ d.startTime ∧ d.startTime < u ∧ p d = true) =
      rows.filter fun d => (decide (s ≤ d.startTime) && p d) && decide (d.startTime < u) := by
  refine List.filter_congr fun d _ => ?_
  rw [Bool.eq_iff_iff]
  simp only [Bool.and_eq_true, decide_eq_true_iff]
  exact ⟨fun ⟨from_, lt, ok⟩ => ⟨⟨from_, ok⟩, lt⟩, fun ⟨⟨from_, ok⟩, lt⟩ => ⟨from_, lt, ok⟩⟩

theorem fleet_page (registry : List FleetSensor) (q : FleetQuery) (isSince : StandsFor q.since s) (named : StandsFor text x) :
    fleetDetections registry q text = DetectionPage.of ((fleetFeed registry q s).rows FleetRow.startTime x) (pageLimit q.limit)
      (((q.asked registry).filter fun s => !s.answers).map fun s => s.sensor.id) := by
  obtain ⟨t, isSince, since, rfl⟩ := isSince
  obtain ⟨v, named, before, rfl⟩ := named
  obtain ⟨a, since⟩ := Option.isSome_iff_exists.mp since
  obtain ⟨b, before⟩ := Option.isSome_iff_exists.mp before
  rw [fleetDetections, fleetFeed, ← merge_eq, List.map_map]
  refine congrArg (fun rows => DetectionPage.of (merge rows _) _ _) (List.map_congr_left fun s _ => ?_)
  refine Prod.ext rfl ?_
  simp only [FleetQuery.one, Function.comp_apply, FleetSensor.source, FleetSensor.table]
  have rows : ∀ table : DetectionTable, Ranges.detectionsJson q.since text (q.sensorSide s) table.rows =
      table.rows.filter fun d => (decide (t.timestamp ≤ d.startTime) && (q.sensorSide s).accepts d) &&
        decide (d.startTime < v.timestamp) := by
    intro table
    rw [Ranges.detections_exact isSince named table.stored since before]
    exact range_filter
  cases s.answers with
  | false => simp only [Bool.false_eq_true, if_false, newest_empty, List.filter_nil]
  | true =>
    cases s.db with
    | none => simp only [detectionsJson, if_true, Option.getD_none, newest_empty]
    | some table => simp only [detectionsJson, rows, if_true, Option.getD_some]

theorem fleet_matching (registry : List FleetSensor) (q : FleetQuery) :
    ((fleetFeed registry q s).left FleetRow.startTime u).Perm (fleetMatching registry q s u) := by
  refine Source.left_perm.trans (List.Perm.of_eq ?_)
  rw [fleetMatching, List.flatMap_map]
  congr 1
  funext sensor
  simp only [FleetSensor.source]
  congr 2
  funext d
  rw [Bool.eq_iff_iff]
  simp only [Bool.and_eq_true, decide_eq_true_iff]
  constructor
  · rintro ⟨⟨⟨from_, -⟩, before⟩, kept⟩
    exact ⟨from_, before, kept⟩
  · rintro ⟨from_, before, kept⟩
    exact ⟨⟨⟨from_, accepts_of_fleetSide kept⟩, before⟩, kept⟩

theorem own_page (sensor : SensorMeta) (table : DetectionTable) (q : ListQuery) (isSince : GivenAs q.since s)
    (named : GivenAs text x) : (detectionsList sensor (some table) q text).toOption =
      some (DetectionPage.of ((ownFeed sensor table q s).rows FleetRow.startTime x) (pageLimit q.limit) []) := by
  obtain ⟨t, isSince, rfl⟩ := isSince
  obtain ⟨v, named, rfl⟩ := named
  have rows : (queryDetections q.filter (some t) (some v) table.rows).getD [] =
      table.rows.filter fun d => (decide (t.timestamp ≤ d.startTime) && q.filter.accepts d) &&
        decide (d.startTime < v.timestamp) := by
    rw [Ranges.queryDetections_exact table.stored (Ranges.utcIso_utc (optUtcDt_utc isSince))
      (Ranges.utcIso_utc (optUtcDt_utc named)), Option.getD_some]
    exact range_filter
  rw [ownFeed, ← merge_eq]
  simp only [detectionsList, isSince, named, Except.bind, rows, Except.toOption, List.map_cons, List.map_nil,
    List.filter_true]

theorem own_matching (sensor : SensorMeta) (table : DetectionTable) (q : ListQuery) :
    ((ownFeed sensor table q s).left FleetRow.startTime u).Perm (ownMatching sensor table q s u) := by
  refine Source.left_perm.trans (List.Perm.of_eq ?_)
  rw [ownMatching, range_filter, List.flatMap_cons, List.flatMap_nil, List.append_nil]
  simp only [Bool.and_true]

theorem fleet_shows_iff (registry : List FleetSensor) (q : FleetQuery) {until_ : List Char} (isSince : StandsFor q.since s)
    (isUntil : StandsFor until_ u) :
    Shows (fun t => some (fleetDetections registry q t)) until_ (fleetMatching registry q s u) ↔
      (fleetFeed registry q s).Fits FleetRow.startTime u :=
  (shows_iff isUntil (fun _ => standsFor_utcText) (fun _ _ named => congrArg some (fleet_page registry q isSince named))
    (fleet_matching registry q)).trans (Feed.exact_iff_fits (pageLimit_pos q.limit))

theorem own_shows_iff (sensor : SensorMeta) (table : DetectionTable) (q : ListQuery) {until_ : List Char}
    (isSince : GivenAs q.since s) (isUntil : GivenAs until_ u) :
    Shows (fun t => (detectionsList sensor (some table) q t).toOption) until_ (ownMatching sensor table q s u) ↔
      (ownFeed sensor table q s).Gaps FleetRow.startTime u := by
  refine (shows_iff isUntil (fun _ => givenAs_utcText) (fun _ _ named => own_page sensor table q isSince named)
    (own_matching sensor table q)).trans ((Feed.exact_iff_fits (pageLimit_pos q.limit)).trans ?_)
  refine Feed.fits_iff_gaps (fun rows isSource => ?_) (fun _ _ _ _ => rfl) (pageLimit_pos q.limit)
  rw [List.mem_singleton.mp isSource]
  exact Source.descends _

/-- The fleet's list shows every matching detection once when no page ends
between two that share a start, and no sensor cuts off one that belongs to a
page; a sensor's own list when no page ends between two that share a start. -/
theorem listed_once_iff (registry : List FleetSensor) (q : FleetQuery) (sensor : SensorMeta) (table : DetectionTable)
    (own : ListQuery) (until_ : List Char) (s u : ℚ) :
    (StandsFor q.since s → StandsFor until_ u →
      (Shows (fun t => some (fleetDetections registry q t)) until_ (fleetMatching registry q s u) ↔
        (fleetFeed registry q s).Fits FleetRow.startTime u)) ∧
    (GivenAs own.since s → GivenAs until_ u →
      (Shows (fun t => (detectionsList sensor (some table) own t).toOption) until_ (ownMatching sensor table own s u) ↔
        (ownFeed sensor table own s).Gaps FleetRow.startTime u)) :=
  ⟨fun isSince isUntil => fleet_shows_iff registry q isSince isUntil,
    fun isSince isUntil => own_shows_iff sensor table own isSince isUntil⟩

end Lists

section Noon

/-- A detection at an hour, with its record. -/
def detectionAt (id : Nat) (x : ℚ) (attribution : Option String) : Detection :=
  ⟨id, x, 915000000, 1, ⟨none, none, none⟩, none, attribution⟩

def noonUtc : DateTime := Ranges.noon (some 0) Ranges.zone_zero 12 (by decide)

def oneUtc : DateTime := Ranges.noon (some 0) Ranges.zone_zero 13 (by decide)

/-- Two detections with the same start. -/
def tied : DetectionTable :=
  ⟨[detectionAt 1 noonUtc.timestamp none, detectionAt 2 noonUtc.timestamp none], by decide, by
    intro d member
    rcases List.mem_pair.mp member with rfl | rfl <;> exact ⟨noonUtc, rfl, rfl⟩⟩

/-- A detection that was tried, and a newer one that was not. -/
def mixed : DetectionTable :=
  ⟨[detectionAt 1 noonUtc.timestamp (some "{}"), detectionAt 2 oneUtc.timestamp none], by decide, by
    intro d member
    rcases List.mem_pair.mp member with rfl | rfl
    · exact ⟨noonUtc, rfl, rfl⟩
    · exact ⟨oneUtc, rfl, rfl⟩⟩

def sensorA : SensorMeta := ⟨"a", "a", "red"⟩

def fleetOf (table : DetectionTable) : List FleetSensor := [⟨sensorA, true, true, true, some table⟩]

def twoUtc : DateTime := Ranges.noon (some 0) Ranges.zone_zero 14 (by decide)

theorem noon_named : StandsFor noonUtc.isoformat noonUtc.timestamp ∧ GivenAs noonUtc.isoformat noonUtc.timestamp := by
  have storable : Storable noonUtc.timestamp := ⟨noonUtc, rfl, rfl⟩
  have text : utcText noonUtc.timestamp = noonUtc.isoformat := utcText_timestamp rfl
  exact text ▸ ⟨standsFor_utcText storable, givenAs_utcText storable⟩

theorem two_named : StandsFor twoUtc.isoformat twoUtc.timestamp ∧ GivenAs twoUtc.isoformat twoUtc.timestamp := by
  have storable : Storable twoUtc.timestamp := ⟨twoUtc, rfl, rfl⟩
  have text : utcText twoUtc.timestamp = twoUtc.isoformat := utcText_timestamp rfl
  exact text ▸ ⟨standsFor_utcText storable, givenAs_utcText storable⟩

def ownQuery (limit : ℤ) : ListQuery := ⟨noonUtc.isoformat, limit, none, none, none, none⟩

def fleetQuery (limit : ℤ) (status : Option String) : FleetQuery := ⟨noonUtc.isoformat, limit, none, none, none, status⟩

/-- Two detections with the same start on one page. -/
theorem listed_once_iff_tied :
    Shows (fun t => some (fleetDetections (fleetOf tied) (fleetQuery 2 none) t)) twoUtc.isoformat
      (fleetMatching (fleetOf tied) (fleetQuery 2 none) noonUtc.timestamp twoUtc.timestamp) ∧
    Shows (fun t => (detectionsList sensorA (some tied) (ownQuery 2) t).toOption) twoUtc.isoformat
      (ownMatching sensorA tied (ownQuery 2) noonUtc.timestamp twoUtc.timestamp) := by
  have few : ∀ {feed : Feed FleetRow} {rows : List FleetRow} {u : ℚ}, (feed.left FleetRow.startTime u).Perm rows →
      rows.length ≤ 2 → feed.limit = 2 → feed.Gaps FleetRow.startTime u := by
    intro feed rows u perm short limit k a _ b isNext
    have bounded := (List.getElem?_eq_some_iff.mp isNext).1
    rw [perm.length_eq, limit] at bounded
    omega
  constructor
  · refine ((listed_once_iff (fleetOf tied) (fleetQuery 2 none) sensorA tied (ownQuery 2) _ _ _).1 noon_named.1 two_named.1).mpr
      ((Feed.fits_iff_gaps (fun rows isSource => ?_) (fun _ _ _ _ => rfl) (pageLimit_pos 2)).mpr ?_)
    · rw [List.mem_singleton.mp isSource]
      exact Source.descends _
    · exact few (fleet_matching (fleetOf tied) (fleetQuery 2 none)) (by decide +kernel) rfl
  · refine ((listed_once_iff (fleetOf tied) (fleetQuery 2 none) sensorA tied (ownQuery 2) _ _ _).2 noon_named.2 two_named.2).mpr ?_
    exact few (own_matching sensorA tied (ownQuery 2)) (by decide +kernel) rfl

/-- The answer of the sensor is its newer detection, which was not tried. -/
theorem mixed_answered : (fleetFeed (fleetOf mixed) (fleetQuery 1 (some "tried")) noonUtc.timestamp).answered
    FleetRow.startTime twoUtc.timestamp = [] := by
  have sorted : Keyset.sorted Detection.order mixed.rows = mixed.rows.reverse := by
    refine (Keyset.eq_sorted (List.reverse_perm _) (List.pairwise_pair.mpr ?_)).symm
    have later : utcText noonUtc.timestamp < utcText oneUtc.timestamp := by
      rw [utcText_timestamp rfl (t := oneUtc), utcText_lt ⟨noonUtc, rfl, rfl⟩ rfl]
      decide +kernel
    exact OrderDual.toDual_lt_toDual.mpr (Prod.Lex.toLex_lt_toLex.mpr (Or.inl later))
  have asked : (fleetQuery 1 (some "tried")).asked (fleetOf mixed) = [⟨sensorA, true, true, true, some mixed⟩] := rfl
  have taken : mixed.rows.filter (FleetSensor.source (fleetQuery 1 (some "tried")) noonUtc.timestamp
      ⟨sensorA, true, true, true, some mixed⟩).takes = mixed.rows := by
    decide +kernel
  have rows : (FleetSensor.source (fleetQuery 1 (some "tried")) noonUtc.timestamp
      ⟨sensorA, true, true, true, some mixed⟩).rows = mixed.rows.reverse.map (FleetRow.mk sensorA) :=
    congrArg (List.map _) ((congrArg _ taken).trans sorted)
  rw [Feed.answered, fleetFeed, Source.feed, asked]
  simp only [List.map_cons, List.map_nil, List.flatMap_cons, List.flatMap_nil, List.append_nil, rows]
  decide +kernel

/-- The fleet stops at a newer detection that was not tried, and a sensor lists
one of two with the same start. -/
theorem listed_once_fails :
    (¬ ∀ registry q until_ s u, StandsFor q.since s → StandsFor until_ u →
      Shows (fun t => some (fleetDetections registry q t)) until_ (fleetMatching registry q s u)) ∧
    ¬ ∀ sensor table q until_ s u, GivenAs q.since s → GivenAs until_ u →
      Shows (fun t => (detectionsList sensor (some table) q t).toOption) until_ (ownMatching sensor table q s u) := by
  constructor
  · intro claimed
    have fits := (fleet_shows_iff (fleetOf mixed) (fleetQuery 1 (some "tried")) noon_named.1 two_named.1).mp
      (claimed (fleetOf mixed) (fleetQuery 1 (some "tried")) _ _ _ noon_named.1 two_named.1)
    have parts := Feed.answered_withheld_perm FleetRow.startTime
      (fleetFeed (fleetOf mixed) (fleetQuery 1 (some "tried")) noonUtc.timestamp) twoUtc.timestamp
    rw [mixed_answered, List.nil_append] at parts
    have one := (fleet_matching (s := noonUtc.timestamp) (u := twoUtc.timestamp) (fleetOf mixed)
      (fleetQuery 1 (some "tried"))).length_eq.trans (show _ = 1 by decide +kernel)
    have first := List.getElem?_eq_getElem (show 0 < _ from one ▸ Nat.one_pos)
    obtain ⟨a, isAt, newer⟩ := (fits _ (Or.inl rfl)).2 _ (parts.symm.subset (List.mem_of_getElem? first))
    cases Option.some.inj (first.symm.trans isAt)
    exact lt_irrefl _ newer
  · intro claimed
    have gaps := (own_shows_iff sensorA tied (ownQuery 1) noon_named.2 two_named.2).mp
      (claimed sensorA tied (ownQuery 1) _ _ _ noon_named.2 two_named.2)
    have perm := own_matching (s := noonUtc.timestamp) (u := twoUtc.timestamp) sensorA tied (ownQuery 1)
    have two := perm.length_eq.trans (show _ = 2 by decide +kernel)
    have first := List.getElem?_eq_getElem (show 0 < _ from two ▸ Nat.two_pos)
    have second := List.getElem?_eq_getElem (show 1 < _ from two ▸ Nat.one_lt_two)
    have start : ∀ r ∈ ownMatching sensorA tied (ownQuery 1) noonUtc.timestamp twoUtc.timestamp,
        r.startTime = noonUtc.timestamp := by
      decide +kernel
    have less := gaps 0 _ first _ second
    rw [start _ (perm.subset (List.getElem_mem _)), start _ (perm.subset (List.getElem_mem _))] at less
    exact lt_irrefl _ less

end Noon

end RFObserver
