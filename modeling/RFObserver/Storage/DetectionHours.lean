import RFObserver.Lib.Dict
import RFObserver.Lib.Runs
import RFObserver.Storage.RangeQueries

/-! Hourly detection counts: the pass that stores settled hours, and the request
that joins stored and live ones. Times are epoch seconds, and an hour is its
first second; texts of them are in the same order. -/

namespace RFObserver

/-- The hour of an instant. -/
def hourOf (x : ℚ) : ℤ := ⌊x / 3600⌋ * 3600

/-- One row of detection_hours. -/
structure HourRow where
  hour : ℤ
  model : String
  tried : Bool
  count : Nat
  deriving DecidableEq

/-- What detections are counted by. -/
structure HourKey where
  hour : ℤ
  model : String
  tried : Bool
  deriving DecidableEq

def HourRow.key (r : HourRow) : HourKey := ⟨r.hour, r.model, r.tried⟩

def Detection.hourKey (d : Detection) : HourKey := ⟨hourOf d.startTime, d.model.getD "", d.attribution.isSome⟩

def HourKey.row (k : HourKey) (count : Nat) : HourRow := ⟨k.hour, k.model, k.tried, count⟩

def Detection.startsIn (since until_ : ℤ) (d : Detection) : Bool := (since : ℚ) ≤ d.startTime ∧ d.startTime < until_

/-- The detections that start in `[since, until)`, grouped. -/
def countDetectionsByHour (since until_ : ℤ) (rows : List Detection) : List HourRow :=
  (GroupFold.fold Detection.hourKey (fun _ => 0) (fun n _ => n + 1)
    (rows.filter (Detection.startsIn since until_))).map fun e => e.1.row e.2

/-- How long after its end an hour is stored. -/
def detHoursSettle : ℚ := 900

def detHoursPerPass : Nat := 24

def hourlyLiveMaxHours : ℤ := 3

/-- The counts of one hour in an answer. -/
structure HourCounts where
  all : Nat
  attributed : Nat
  tried : Nat
  notTried : Nat
  models : Dict String Nat
  deriving DecidableEq

namespace HourCounts

def zero : HourCounts := ⟨0, 0, 0, 0, Dict.empty⟩

def add (r : HourRow) (h : HourCounts) : HourCounts :=
  let h := { h with all := h.all + r.count }
  if r.model ≠ "" then
    { h with attributed := h.attributed + r.count, models := h.models.modify r.model 0 (· + r.count) }
  else if r.tried then { h with tried := h.tried + r.count }
  else { h with notTried := h.notTried + r.count }

end HourCounts

/-- The rows put together by hour; they are answered in the order of the hours. -/
def tallyHours (rows : List HourRow) : Dict ℤ HourCounts :=
  rows.foldl (fun hours r => hours.modify r.hour HourCounts.zero (HourCounts.add r)) Dict.empty

namespace DetectionHours

/-- Where a pass of the finalize loop is. -/
inductive Pass
  | idle
  | firstMark (start : ℤ)
  | secondMark (start : ℤ)
  | loop (done : ℤ) (settled : ℚ) (left : Nat)
  | counted (done : ℤ) (settled : ℚ) (left : Nat) (rows : List HourRow)
  | cleared (done : ℤ) (settled : ℚ) (left : Nat) (rows : List HourRow)
  | stored (done : ℤ) (settled : ℚ) (left : Nat)
  deriving DecidableEq

/-- Where a request is: what it has read so far. -/
inductive Request
  | start (since until_ : ℚ)
  | covered (since until_ : ℚ) (covered : Option ℤ)
  | marks (since until_ : ℚ) (covered done : Option ℤ)
  | joined (since until_ : ℚ) (covered done : Option ℤ) (rows : List HourRow)
  deriving DecidableEq

structure State where
  now : ℚ
  detections : List Detection
  hours : List HourRow
  sinceMark : Option ℤ
  doneMark : Option ℤ
  pass : Pass
  requests : Nat → Option Request

def create : State where
  now := 0
  detections := []
  hours := []
  sinceMark := none
  doneMark := none
  pass := .idle
  requests := fun _ => none

inductive Act
  | tick (now : ℚ)
  | change (rows : List Detection)
  | begin_
  | advance
  | abort
  | request (client : Nat) (since until_ : ℚ)
  | read (client : Nat)
  deriving DecidableEq

/-- The stored rows of `[since, until)`. -/
def detectionHours (since until_ : ℤ) (hours : List HourRow) : List HourRow :=
  hours.filter fun r => since ≤ r.hour ∧ r.hour < until_

/-- The next database step of a pass. -/
def advance (s : State) : Option State :=
  match s.pass with
  | .idle => none
  | .firstMark start => some { s with sinceMark := some start, pass := .secondMark start }
  | .secondMark start => some { s with doneMark := some start, pass := .idle }
  | .loop _ _ 0 => some { s with pass := .idle }
  | .loop done settled (left + 1) =>
    if settled < done + 3600 then some { s with pass := .idle }
    else some { s with pass := .counted done settled left (countDetectionsByHour done (done + 3600) s.detections) }
  | .counted done settled left rows =>
    some { s with
      hours := s.hours.filter fun r => ¬ (done ≤ r.hour ∧ r.hour < done + 3600)
      pass := .cleared done settled left rows }
  | .cleared done settled left rows => some { s with hours := s.hours ++ rows, pass := .stored done settled left }
  | .stored done settled left =>
    some { s with doneMark := some (done + 3600), pass := .loop (done + 3600) settled left }

/-- The first hour of a request. -/
def firstHour (since : ℚ) (covered : ℤ) : ℤ := max (truncate since / 3600 * 3600) covered

/-- The end of the hour that a request ends in. -/
def lastHour (until_ : ℚ) : ℤ := -(-truncate until_ / 3600) * 3600

def storedPart (since until_ : ℚ) (covered done : ℤ) (hours : List HourRow) : List HourRow :=
  let lo := firstHour since covered
  let hi := lastHour until_
  if lo < min hi done then detectionHours lo (min hi done) hours else []

def livePart (since until_ : ℚ) (covered done : ℤ) (detections : List Detection) : List HourRow :=
  let lo := firstHour since covered
  let hi := lastHour until_
  let liveLo := max (max lo done) (hi - hourlyLiveMaxHours * 3600)
  if liveLo < hi then countDetectionsByHour liveLo hi detections else []

/-- The next read of a request; the last one makes its answer. -/
def read (s : State) : Request → Option Request
  | .start since until_ => some (.covered since until_ s.sinceMark)
  | .covered since until_ covered => some (.marks since until_ covered s.doneMark)
  | .marks since until_ (some covered) (some done) =>
    some (.joined since until_ (some covered) (some done) (storedPart since until_ covered done s.hours))
  | .marks since until_ covered done => some (.joined since until_ covered done [])
  | .joined .. => none

/-- The hours of a request that has read all but the live ones. -/
def answer (since until_ : ℚ) (covered done : Option ℤ) (rows : List HourRow) (detections : List Detection) :
    Dict ℤ HourCounts :=
  match covered, done with
  | some covered, some done => tallyHours (rows ++ livePart since until_ covered done detections)
  | _, _ => Dict.empty

def step (s : State) : Act → Option State
  | .tick now => if s.now ≤ now then some { s with now := now } else none
  | .change rows => some { s with detections := rows }
  | .begin_ =>
    if s.pass = .idle then
      match s.doneMark with
      | none => some { s with pass := .firstMark (⌊s.now⌋ / 3600 * 3600) }
      | some done => some { s with pass := .loop done (s.now - detHoursSettle) detHoursPerPass }
    else none
  | .advance => advance s
  | .abort => some { s with pass := .idle }
  | .request client since until_ =>
    if s.requests client = none ∧ since < until_ then
      some { s with requests := Function.update s.requests client (some (.start since until_)) }
    else none
  | .read client =>
    (s.requests client).map fun r => { s with requests := Function.update s.requests client (read s r) }

/-- An hour's rows are settled this long after it ended. -/
def Settled (now : ℚ) (hour : ℤ) : Prop := (hour : ℚ) + 3600 + detHoursSettle ≤ now

instance (now : ℚ) (hour : ℤ) : Decidable (Settled now hour) := inferInstanceAs (Decidable (_ ≤ _))

/-- The rows of settled hours no longer change. -/
def Allowed (s : State) : Act → Prop
  | .change rows => (rows.filter fun d => Settled s.now (hourOf d.startTime)).Perm
      (s.detections.filter fun d => Settled s.now (hourOf d.startTime))
  | _ => True

instance (s : State) : ∀ act, Decidable (Allowed s act)
  | .change _ => inferInstanceAs (Decidable (List.Perm _ _))
  | .tick _ | .begin_ | .advance | .abort | .request .. | .read _ => inferInstanceAs (Decidable True)

/-- Every covered hour that settled more than an hour ago is finalized. -/
def NotStalled (s : State) : Prop :=
  ∀ since ∈ s.sinceMark, s.now ≤ s.doneMark.getD since + 3600 + detHoursSettle + 3600

instance (s : State) : Decidable (NotStalled s) := inferInstanceAs (Decidable (∀ since ∈ s.sinceMark, _))

def Reach (s : State) : Prop := Runs.Reach step create Allowed s

end DetectionHours
end RFObserver
