import RFObserver.Lib.CappedPages
import RFObserver.Web.RangeRoutes

/-! Every sensor's detections as one list, newest first. -/

namespace RFObserver
open IsoTime CappedPages

structure SensorMeta where
  id : String
  label : String
  colour : String
  deriving DecidableEq

/-- A detection, tagged with its sensor. -/
structure FleetRow where
  sensor : SensorMeta
  detection : Detection
  deriving DecidableEq

/-- The epoch of a row's text; a text that is no time has 0. -/
def FleetRow.startKey (r : FleetRow) : ℚ :=
  match fromisoformat (utcText r.detection.startTime) with
  | none => 0
  | some t => (Ranges.asUtc t).timestamp

/-- The sensor-side filter for the parameters of a page: tried and not tried are
both not attributed. -/
def wantAttributed (attributed status : Option String) : Option Bool :=
  if status = some "tried" ∨ status = some "not_tried" then some false
  else if status = some "decoded" then some true
  else
    match attributed with
    | some "true" => some true
    | some "false" => some false
    | _ => none

/-- The filters of a page, applied by the fleet too. -/
def matchesPage (attributed : Option Bool) (model status : Option String) (d : Detection) : Bool :=
  if attributed = some true ∧ d.status ≠ "decoded" then false
  else if attributed = some false ∧ d.status = "decoded" then false
  else if model ≠ none ∧ d.model ≠ model then false
  else status = none ∨ status = some d.status

/-- The newest `limit` rows across sensors. -/
def merge (perSensor : List (SensorMeta × List Detection)) (limit : Nat) : List FleetRow :=
  (newest FleetRow.startKey (perSensor.flatMap fun (sensor, rows) => rows.map (FleetRow.mk sensor))).take limit

structure DetectionPage where
  rows : List FleetRow
  nextBefore : Option (List Char)
  errors : List String
  deriving DecidableEq

/-- A full page names the start of its last row. -/
def DetectionPage.of (rows : List FleetRow) (limit : Nat) (errors : List String) : DetectionPage :=
  ⟨rows, if limit ≤ rows.length then rows.getLast?.map fun r => utcText r.detection.startTime else none, errors⟩

section Keys

theorem startKey_eq {r : FleetRow} (stored : Storable r.detection.startTime) : r.startKey = r.detection.startTime := by
  obtain ⟨t, utc, same⟩ := stored
  have read : fromisoformat (utcText r.detection.startTime) = some t := by
    rw [← same, utcText_timestamp utc, DateTime.fromisoformat_isoformat]
  have aware : Ranges.asUtc t = t := if_neg (by simp [utc])
  unfold FleetRow.startKey
  rw [read]
  simp only [aware, same]

theorem status_decoded {d : Detection} : d.status = "decoded" ↔ d.model ≠ none ∧ d.model ≠ some "" := by
  unfold Detection.status
  split
  case isTrue decoded => exact ⟨fun _ => decoded, fun _ => rfl⟩
  case isFalse undecoded =>
    refine ⟨fun same => ?_, fun decoded => absurd decoded undecoded⟩
    split at same
    case isTrue => exact absurd same (by decide)
    case isFalse => exact absurd same (by decide)

theorem matchesPage_iff {attributed : Option Bool} {model status : Option String} {d : Detection} :
    matchesPage attributed model status d = true ↔ (attributed = some true → d.status = "decoded") ∧
      (attributed = some false → d.status ≠ "decoded") ∧ (model = none ∨ d.model = model) ∧
      (status = none ∨ status = some d.status) := by
  unfold matchesPage
  split_ifs with undecoded decoded other
  · exact iff_of_false nofun fun all => undecoded.2 (all.1 undecoded.1)
  · exact iff_of_false nofun fun all => all.2.1 decoded.1 decoded.2
  · refine iff_of_false nofun fun all => ?_
    rcases all.2.2.1 with none | same
    · exact other.1 none
    · exact other.2 same
  · rw [decide_eq_true_iff]
    have first : attributed = some true → d.status = "decoded" := fun isTrue => by
      by_contra no
      exact undecoded ⟨isTrue, no⟩
    have second : attributed = some false → d.status ≠ "decoded" := fun isFalse same => decoded ⟨isFalse, same⟩
    have third : model = none ∨ d.model = model := by
      by_contra no
      exact other (not_or.mp no)
    exact ⟨fun last => ⟨first, second, third, last⟩, fun all => all.2.2.2⟩

end Keys

end RFObserver
