import Mathlib.Tactic
import RFObserver.Lib.RoundHalfEven
import RFObserver.Lib.Runs

/-! The storage governor. Byte counts and their multiples are exact. -/

namespace RFObserver

namespace StorageGovernor

def gb : ℤ := 1024 ^ 3
def autoFloorFraction : ℚ := 5 / 100
def autoFloorMinBytes : ℤ := 2 * gb
def recoveryMargin : ℚ := 115 / 100
def recoveryTicks : Nat := 3
def hardFloorFraction : ℚ := 1 / 2
def youngEvictionWindowSec : ℚ := 1800
def youngWindowMaxEntries : Nat := 4096

end StorageGovernor

open StorageGovernor

/-- The floor in bytes: an explicit DISK_MIN_FREE_GB, or 5% of the volume with a
2 GB minimum when it is 0 or negative. -/
def resolveFloor (minFreeGb : ℚ) (totalBytes : ℤ) : ℤ :=
  if minFreeGb > 0 then truncate (minFreeGb * gb)
  else max (truncate (totalBytes * autoFloorFraction)) autoFloorMinBytes

structure VolumeSample where
  freeBytes : ℤ
  totalBytes : ℤ
  deriving DecidableEq, Repr

/-- `dbVolume` only when the database is on a different device. -/
structure StorageSample where
  data : VolumeSample
  dbVolume : Option VolumeSample
  evictableAuto : Bool
  oldBurstsBytes : ℤ
  deriving DecidableEq, Repr

structure StorageActions where
  evictToFreeBytes : Option ℤ
  startPressurePrune : Bool
  deriving DecidableEq, Repr

/-- `when` stands for its ISO text. -/
structure WriteError where
  when : ℚ
  error : String
  deriving DecidableEq, Repr

structure StorageState where
  step : Nat
  stepSince : ℚ
  floorBytes : ℤ
  dbFloorBytes : Option ℤ
  sample : Option StorageSample
  lastWriteError : Option WriteError
  degradedSince : Option ℚ
  evictingYoung : Bool
  lastYoungEviction : Option ℚ
  youngEvictions : Nat
  youngestEvictedAgeSec : Option ℚ
  deriving DecidableEq, Repr

/-- An automatic capture can go, or deleting the old bursts alone would lift
free space to the floor. -/
def StorageSample.evictable (sample : StorageSample) (floor : ℤ) : Bool :=
  sample.evictableAuto ||
    decide (sample.oldBurstsBytes > 0 ∧ sample.data.freeBytes + sample.oldBurstsBytes ≥ floor)

/-- The step one volume asks for, before hysteresis. -/
def volumeStep (free floor : ℤ) (evictable : Bool) (current : Nat) : Nat :=
  if free < floor * hardFloorFraction then 4
  else if free ≥ floor then 0
  else if evictable then 1
  else if current ≥ 2 then 3 else 2

namespace StorageSample

variable (sample : StorageSample) (minFreeGb : ℚ)

def floor : ℤ := resolveFloor minFreeGb sample.data.totalBytes

def dbFloor : Option ℤ := sample.dbVolume.map fun volume => resolveFloor minFreeGb volume.totalBytes

/-- Evicting IQ frees nothing on the volume of the database. -/
def rawStep (current : Nat) : Nat :=
  let floor := sample.floor minFreeGb
  let raw := volumeStep sample.data.freeBytes floor (sample.evictable floor) current
  match sample.dbVolume with
  | none => raw
  | some volume =>
    max raw (volumeStep volume.freeBytes (resolveFloor minFreeGb volume.totalBytes) false current)

def recovered : Bool :=
  let data := decide (sample.data.freeBytes ≥ sample.floor minFreeGb * recoveryMargin)
  match sample.dbVolume with
  | none => data
  | some volume =>
    data && decide (volume.freeBytes ≥ resolveFloor minFreeGb volume.totalBytes * recoveryMargin)

end StorageSample

/-- `young` holds the young evictions as (when, count), oldest first. -/
structure StorageGovernor where
  state : StorageState
  goodTicks : Nat
  degradedDirty : Bool
  ticks : Nat
  young : List (ℚ × Nat)
  deriving DecidableEq, Repr

namespace StorageGovernor

def create (now : ℚ) : StorageGovernor where
  state :=
    { step := 0, stepSince := now, floorBytes := 0, dbFloorBytes := none, sample := none, lastWriteError := none,
      degradedSince := none, evictingYoung := false, lastYoungEviction := none, youngEvictions := 0,
      youngestEvictedAgeSec := none }
  goodTicks := 0
  degradedDirty := false
  ticks := 0
  young := []

variable (g : StorageGovernor)

/-- Drops the young evictions older than the window. -/
def pruneYoung (now : ℚ) : List (ℚ × Nat) :=
  g.young.dropWhile fun e => now - e.1 ≥ youngEvictionWindowSec

/-- The next step and the good ticks in a row. -/
def ladder (raw : Nat) (recovered : Bool) : Nat × Nat :=
  if raw > g.state.step then (raw, 0)
  else if raw < g.state.step ∧ recovered = true then
    if g.goodTicks + 1 ≥ recoveryTicks then (raw, 0) else (g.state.step, g.goodTicks + 1)
  else (g.state.step, 0)

def tick (sample : StorageSample) (minFreeGb now : ℚ) : StorageGovernor × StorageActions :=
  let st := g.state
  let floor := sample.floor minFreeGb
  let next := g.ladder (sample.rawStep minFreeGb st.step) (sample.recovered minFreeGb)
  let step := next.1
  let entersRefusal := step ≥ 3 ∧ st.step < 3 ∧ st.degradedSince = none
  let young := g.pruneYoung now
  let target := truncate (floor * recoveryMargin)
  let hasVictims := sample.evictable floor || decide (sample.oldBurstsBytes > 0)
  ({ state :=
      { st with
        step
        stepSince := if step ≠ st.step then now else st.stepSince
        floorBytes := floor
        dbFloorBytes := sample.dbFloor minFreeGb
        sample := some sample
        degradedSince := if entersRefusal then some now else st.degradedSince
        evictingYoung := !young.isEmpty
        youngEvictions := (young.map Prod.snd).sum }
     goodTicks := next.2
     degradedDirty := decide entersRefusal || g.degradedDirty
     ticks := g.ticks + 1
     young },
   { evictToFreeBytes :=
      if step ≥ 1 ∧ hasVictims = true ∧ sample.data.freeBytes < target then some target else none
     startPressurePrune := decide (st.step < 2 ∧ 2 ≤ step) })

def reportWriteError (message : String) (now : ℚ) : StorageGovernor :=
  { g with
    degradedDirty := true
    state :=
      { g.state with
        lastWriteError := some ⟨now, message⟩
        degradedSince := some (g.state.degradedSince.getD now) } }

/-- Past its bound, a new note merges into the newest entry. -/
def noteYoungEvictions (count : Nat) (youngestAgeSec now : ℚ) : StorageGovernor :=
  let young := g.pruneYoung now
  let noted :=
    if young.length ≥ youngWindowMaxEntries then
      young.dropLast ++ [(now, (young.getLast?.elim 0 Prod.snd) + count)]
    else young ++ [(now, count)]
  { g with
    young := noted
    state :=
      { g.state with
        evictingYoung := true
        lastYoungEviction := some now
        youngEvictions := (young.map Prod.snd).sum + count
        youngestEvictedAgeSec := some youngestAgeSec } }

def clearDegraded : StorageGovernor :=
  { g with degradedDirty := true, state := { g.state with lastWriteError := none, degradedSince := none } }

/-- What the persisted values parse to; none when missing or garbled. -/
def restoreDegraded (since : Option ℚ) (error : Option WriteError) : StorageGovernor :=
  { g with
    state :=
      { g.state with
        degradedSince := since.or g.state.degradedSince
        lastWriteError := error.or g.state.lastWriteError } }

def markDegradedDirty : StorageGovernor := { g with degradedDirty := true }

/-- The values to persist, none when nothing changed since the last call. -/
def takeDegradedChange : StorageGovernor × Option (Option ℚ × Option WriteError) :=
  if g.degradedDirty then
    ({ g with degradedDirty := false }, some (g.state.degradedSince, g.state.lastWriteError))
  else (g, none)

/-- The governor as the application makes it: the persisted flag is loaded
before anything else has the governor. -/
def started (now : ℚ) (since : Option ℚ) (error : Option WriteError) : StorageGovernor :=
  (create now).restoreDegraded since error

end StorageGovernor

/-- The calls of the governor from the storage loop, the writers, the recorder
and the routes. -/
inductive GovernorCall
  | tick (sample : StorageSample) (minFreeGb now : ℚ)
  | reportWriteError (message : String) (now : ℚ)
  | noteYoungEvictions (count : Nat) (youngestAgeSec now : ℚ)
  | clearDegraded
  | markDegradedDirty
  | takeDegradedChange
  deriving DecidableEq, Repr

def StorageGovernor.apply (g : StorageGovernor) : GovernorCall → StorageGovernor × StorageActions
  | .tick sample minFreeGb now => g.tick sample minFreeGb now
  | .reportWriteError message now => (g.reportWriteError message now, ⟨none, false⟩)
  | .noteYoungEvictions count youngestAgeSec now => (g.noteYoungEvictions count youngestAgeSec now, ⟨none, false⟩)
  | .clearDegraded => (g.clearDegraded, ⟨none, false⟩)
  | .markDegradedDirty => (g.markDegradedDirty, ⟨none, false⟩)
  | .takeDegradedChange => (g.takeDegradedChange.1, ⟨none, false⟩)

end RFObserver
