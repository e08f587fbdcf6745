import RFObserver.Lib.Runs
import RFObserver.Storage.PsdTiers

namespace RFObserver

/-- A stored row of a tier, with the mean of its PSD rows. -/
structure StoredRow where
  levelSec : Nat
  bucketEpoch : ℤ
  tuning : Tuning
  n : Nat
  nPsd : Nat
  sumAvg : ℚ
  sumMedian : ℚ
  sumStd : ℚ
  sumKurtosis : ℚ
  maxMax : Option ℚ
  minAvg : Option ℚ
  psdMin : Option ℚ
  psdMax : Option ℚ
  psdMean : Option (List ℚ)
  windows : List AvgWindow
  deriving DecidableEq

def TierRow.stored (row : TierRow) : StoredRow where
  levelSec := row.levelSec
  bucketEpoch := row.bucketEpoch
  tuning := row.tuning
  n := row.n
  nPsd := row.nPsd
  sumAvg := row.sumAvg
  sumMedian := row.sumMedian
  sumStd := row.sumStd
  sumKurtosis := row.sumKurtosis
  maxMax := row.maxMax
  minAvg := row.minAvg
  psdMin := row.psdMin
  psdMax := row.psdMax
  psdMean := row.psdMean
  windows := row.windows

/-- A stored row taken up again, under the tuning of the row to merge. -/
def StoredRow.reopen (old : StoredRow) (tuning : Tuning) : TierRow where
  levelSec := old.levelSec
  bucketEpoch := old.bucketEpoch
  tuning := tuning
  n := old.n
  nPsd := old.nPsd
  sumAvg := old.sumAvg
  sumMedian := old.sumMedian
  sumStd := old.sumStd
  sumKurtosis := old.sumKurtosis
  maxMax := old.maxMax
  minAvg := old.minAvg
  psdMin := old.psdMin
  psdMax := old.psdMax
  psdSum := if old.nPsd = 0 then none else old.psdMean.map fun mean => mean.map (· * old.nPsd)
  windows := old.windows

/-- A stored row of the same period and tuning; the frequency axis is not compared. -/
def TierRow.sameRow (row : TierRow) (old : StoredRow) : Bool :=
  old.levelSec = row.levelSec ∧ old.bucketEpoch = row.bucketEpoch ∧ old.tuning.key = row.tuning.key

/-- Write one finished row, merged with the one already stored. -/
def storeTierRow (rows : List StoredRow) (row : TierRow) : List StoredRow :=
  match rows.find? row.sameRow with
  | none => rows ++ [row.stored]
  | some old => rows.eraseP row.sameRow ++ [((old.reopen row.tuning).merge row).stored]

def storeTierRows (rows : List StoredRow) (done : List TierRow) : List StoredRow := done.foldl storeTierRow rows

/-- The averaged windows in the order they were stored, the tier rows, from
when each tier is complete, and the running process's sums. -/
structure SensorDatabase where
  windows : List AvgWindow
  tierRows : List StoredRow
  coverage : Nat → Option ℤ
  coverageSet : List Nat
  tiers : TierAccumulator

namespace SensorDatabase

def create : SensorDatabase where
  windows := []
  tierRows := []
  coverage := fun _ => none
  coverageSet := []
  tiers := ⟨[]⟩

/-- A tier is complete from the first whole period from its first window on. -/
def noteCoverage (epoch : ℚ) (db : SensorDatabase) (level : Nat) : SensorDatabase :=
  if level ∈ db.coverageSet then db
  else { db with
    coverageSet := level :: db.coverageSet
    coverage := if (db.coverage level).isNone
      then Function.update db.coverage level (some (⌈epoch / level⌉ * level)) else db.coverage }

/-- Add a window to the tiers. When storing the finished rows raises, nothing
of them is written; they have left the sums already. -/
def addToTiers (w : AvgWindow) (stores : Bool) (db : SensorDatabase) : SensorDatabase :=
  let db := tierSeconds.foldl (noteCoverage w.startTime) db
  let (done, tiers) := db.tiers.add w
  { db with
    tiers := tiers
    tierRows := if stores then storeTierRows db.tierRows done else db.tierRows }

def insertAvgWindow (w : AvgWindow) (stores : Bool) (db : SensorDatabase) : SensorDatabase :=
  addToTiers w stores { db with windows := db.windows ++ [w] }

/-- A process that ends leaves what is on disk. -/
def restarted (db : SensorDatabase) : SensorDatabase := { db with coverageSet := [], tiers := ⟨[]⟩ }

/-- Closing stores the open periods as they are. -/
def close (stores : Bool) (db : SensorDatabase) : SensorDatabase :=
  restarted { db with tierRows := if stores then storeTierRows db.tierRows db.tiers.openRows else db.tierRows }

inductive Act
  | insert (w : AvgWindow) (stores : Bool)
  | close (stores : Bool)
  | abort
  deriving DecidableEq

/-- Storing rows does not raise. -/
def Act.Stores : Act → Prop
  | .insert _ stores => stores = true
  | .close stores => stores = true
  | .abort => True

instance : DecidablePred Act.Stores
  | .insert _ stores => inferInstanceAs (Decidable (stores = true))
  | .close stores => inferInstanceAs (Decidable (stores = true))
  | .abort => inferInstanceAs (Decidable True)

def Act.Inserts : Act → Prop
  | .insert .. => True
  | _ => False

instance : DecidablePred Act.Inserts
  | .insert .. => inferInstanceAs (Decidable True)
  | .close _ => inferInstanceAs (Decidable False)
  | .abort => inferInstanceAs (Decidable False)

/-- A window is stored, or the process ends and a new one starts: after a
close, or abruptly. -/
def step (db : SensorDatabase) : Act → Option SensorDatabase
  | .insert w stores => some (db.insertAvgWindow w stores)
  | .close stores => some (db.close stores)
  | .abort => some db.restarted

abbrev Reach (allowed : SensorDatabase → Act → Prop) : SensorDatabase → Prop := Runs.Reach step create allowed

end SensorDatabase
end RFObserver
