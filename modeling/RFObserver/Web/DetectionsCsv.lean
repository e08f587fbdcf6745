import RFObserver.Storage.AvgWindowScan
import RFObserver.Web.DetectionRoutes

/-! The pages of `detections.csv`, and the two chunked scans over tables that change. -/

namespace RFObserver
open IsoTime

/-- A Start or Stop as the route reads it. -/
def UtcTime : Type := {t : DateTime // t.offset = some 0}

/-- The rows that an export is for. -/
def DetectionFilter.selects (filter : DetectionFilter) (since until_ : Option UtcTime) (d : Detection) : Bool :=
  (∀ t ∈ since, t.val.isoformat ≤ utcText d.startTime) ∧ (∀ t ∈ until_, utcText d.startTime < t.val.isoformat) ∧
    filter.accepts d = true

namespace DetectionTable

/-- `query_detections` with a limit and the last row's key, before which the
rows are; with times in UTC the query does not raise. -/
def rowsBefore (filter : DetectionFilter) (since until_ : Option UtcTime) (limit : Nat) (table : DetectionTable)
    (before : Option (List Char ×ₗ ℕ)ᵒᵈ) : List Detection :=
  newestDetections limit (((queryDetections filter (since.map (·.val)) (until_.map (·.val)) table.rows).getD []).filter
    fun d => ∀ key ∈ before, toLex (utcText d.startTime, d.id) < OrderDual.ofDual key)

/-- The rows of `detections.csv` over the tables that its pages find. -/
def csvBody (filter : DetectionFilter) (since until_ : Option UtcTime) (pageSize : Nat) (tables : ℕ → DetectionTable) :
    ℕ → Keyset.Scan Detection (List Char ×ₗ ℕ)ᵒᵈ :=
  Keyset.Scan.after Detection.order pageSize fun n cursor => (tables n).rowsBefore filter since until_ pageSize cursor

variable {filter : DetectionFilter} {since until_ : Option UtcTime}

theorem queryDetections_utc (rows : List Detection) :
    queryDetections filter (since.map (·.val)) (until_.map (·.val)) rows =
      some (rows.filter (filter.selects since until_)) := by
  have text (t : UtcTime) : utcIso t.val = some t.val.isoformat := Ranges.utcIso_utc t.property
  unfold DetectionFilter.selects
  cases since <;> cases until_ <;> simp [queryDetections, text]

theorem rowsBefore_answers (pageSize : Nat) (tables : ℕ → DetectionTable) :
    Keyset.Scan.Answers Detection.order pageSize (fun n => (tables n).rows.filter (filter.selects since until_))
      fun n cursor => (tables n).rowsBefore filter since until_ pageSize cursor := by
  intro n cursor _
  dsimp only
  rw [rowsBefore, queryDetections_utc, Option.getD_some, newestDetections, Keyset.page]
  rfl

theorem selects_nodup (table : DetectionTable) :
    ((table.rows.filter (filter.selects since until_)).map Detection.order).Nodup :=
  order_nodup (Keyset.map_filter_nodup _ table.distinct)

end DetectionTable

/-- Both chunked scans are whole, whatever rows come and go between their chunks. -/
theorem chunkedScans_whole {Columns : Type*} (chunk : Nat) (room : 0 < chunk) (a b : List Char) (tuning : TuningFilter)
    (windows : ℕ → AvgWindowTable Columns) (filter : DetectionFilter) (since until_ : Option UtcTime)
    (detections : ℕ → DetectionTable) :
    Keyset.Scan.Whole AvgWindowRow.order (fun n => (windows n).matching a b tuning)
        (AvgWindowTable.scan a b tuning chunk windows) ∧
      Keyset.Scan.Whole Detection.order (fun n => (detections n).rows.filter (filter.selects since until_))
        (DetectionTable.csvBody filter since until_ chunk detections) :=
  ⟨Keyset.Scan.whole room (fun n => (windows n).matching_nodup) (AvgWindowTable.chunkAfter_answers chunk windows),
    Keyset.Scan.whole room (fun n => (detections n).selects_nodup) (DetectionTable.rowsBefore_answers chunk detections)⟩

/-- Three windows, of which the second goes after the first statement, and one
comes in before them. -/
def oneGone : ℕ → AvgWindowTable Unit
  | 0 => ⟨[⟨['a'], 1, ⟨0, 1, none, 8⟩, ()⟩, ⟨['b'], 2, ⟨0, 1, none, 8⟩, ()⟩, ⟨['b'], 3, ⟨0, 1, none, 8⟩, ()⟩], by decide⟩
  | _ + 1 => ⟨[⟨['A'], 4, ⟨0, 1, none, 8⟩, ()⟩, ⟨['a'], 1, ⟨0, 1, none, 8⟩, ()⟩, ⟨['b'], 3, ⟨0, 1, none, 8⟩, ()⟩], by decide⟩

theorem stored_nil : ∀ d ∈ ([] : List Detection), Storable d.startTime := List.forall_mem_nil _

def noDetections : DetectionTable := ⟨[], List.nodup_nil, stored_nil⟩

theorem chunkedScans_whole_oneGone :
    (AvgWindowTable.scan ['A'] ['z'] ⟨none, none, none⟩ 1 oneGone 3).read.map AvgWindowRow.id = [1, 3] ∧
      (AvgWindowTable.scan ['A'] ['z'] ⟨none, none, none⟩ 1 oneGone 3).ended = true ∧
      ∀ a, (∀ k < 3, a ∈ (oneGone k).matching ['A'] ['z'] ⟨none, none, none⟩) →
        a ∈ (AvgWindowTable.scan ['A'] ['z'] ⟨none, none, none⟩ 1 oneGone 3).read := by
  have ended : (AvgWindowTable.scan ['A'] ['z'] ⟨none, none, none⟩ 1 oneGone 3).ended = true := by decide
  have scans := chunkedScans_whole 1 (by decide) ['A'] ['z'] ⟨none, none, none⟩ oneGone
    ⟨none, none, ⟨none, none, none⟩, none, none, none, none, none⟩ none none fun _ => noDetections
  exact ⟨by decide, ended, scans.1.complete 3 ended⟩

end RFObserver
