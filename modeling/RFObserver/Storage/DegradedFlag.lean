import RFObserver.Lib.IsoTime
import RFObserver.Lib.JsonText
import RFObserver.Storage.Governor

namespace RFObserver

open IsoTime JsonText

/-- The values of the two config keys, in the form they are written and read. -/
structure DegradedConfig where
  degraded : Option (List Char)
  lastWriteError : Option (List Char)
  deriving DecidableEq

namespace DegradedConfig

def sinceText : Option ℚ → List Char
  | none => []
  | some since => utcText since

def errorText : Option WriteError → List Char
  | none => []
  | some e => dumps [("at".toList, utcText e.when), ("error".toList, e.error.toList)]

def readSince : Option (List Char) → Option ℚ
  | none | some [] => none
  | some raw => (fromisoformat raw).map DateTime.timestamp

def readError : Option (List Char) → Option WriteError
  | none | some [] => none
  | some raw =>
    (loads raw).bind fun value => ((value.get "at".toList).bind Json.text).bind fun at_ =>
      ((value.get "error".toList).bind Json.text).bind fun error =>
        (fromisoformat at_).map fun t => ⟨t.timestamp, String.ofList error⟩

/-- What the stored values parse to. -/
def read (config : DegradedConfig) : Option ℚ × Option WriteError :=
  (readSince config.degraded, readError config.lastWriteError)

end DegradedConfig

/-- A `persist_degraded_change` with the lock: the values it took, and whether
the first of the two is written. `version` only records how new they are. -/
structure Persisting where
  since : List Char
  error : List Char
  wroteFirst : Bool
  version : Nat
  deriving DecidableEq

/-- The governor, the stored values, and the persist calls: one under way and
the others waiting for the lock. `version` counts the changes of what is to be
stored, and `written` has the version of every value written, in order. -/
structure DegradedFlag where
  governor : StorageGovernor
  config : DegradedConfig
  persisting : Option Persisting
  waiting : Nat
  version : Nat
  written : List Nat

namespace DegradedFlag

/-- A first start, with nothing stored. -/
def create (now : DateTime) : DegradedFlag where
  governor := .started now.timestamp none none
  config := ⟨none, none⟩
  persisting := none
  waiting := 0
  version := 0
  written := []

variable (s : DegradedFlag)

/-- What is to be stored. -/
def flag : Option ℚ × Option WriteError := (s.governor.state.degradedSince, s.governor.state.lastWriteError)

/-- A call of the governor, from whatever thread. -/
def call (governor : StorageGovernor) : DegradedFlag :=
  let called := { s with governor := governor }
  { called with version := if called.flag = s.flag then s.version else s.version + 1 }

/-- A persist gets the lock and takes the change, if there is one. -/
def take : DegradedFlag :=
  match s.governor.takeDegradedChange with
  | (_, none) => { s with waiting := s.waiting - 1 }
  | (governor, some (since, error)) =>
    { s with
      governor
      waiting := s.waiting - 1
      persisting := some ⟨DegradedConfig.sinceText since, DegradedConfig.errorText error, false, s.version⟩ }

/-- `set_config` of the next key. -/
def write (p : Persisting) : DegradedFlag :=
  if p.wroteFirst then
    { s with config := { s.config with lastWriteError := some p.error }, written := s.written ++ [p.version] }
  else { s with config := { s.config with degraded := some p.since }, written := s.written ++ [p.version] }

/-- `restart` is a new process that restores what is stored. A `set_config`
that `fails` may have written its value. -/
inductive Act
  | tick (sample : StorageSample) (minFreeGb : ℚ) (now : DateTime)
  | reportWriteError (message : String) (now : DateTime)
  | noteYoungEvictions (count : Nat) (youngestAgeSec : ℚ) (now : DateTime)
  | clearDegraded
  | persist
  | take
  | write
  | fails (written : Bool)
  | restart (now : DateTime)

def step : Act → Option DegradedFlag
  | .tick sample minFreeGb now => some (s.call (s.governor.tick sample minFreeGb now.timestamp).1)
  | .reportWriteError message now => some (s.call (s.governor.reportWriteError message now.timestamp))
  | .noteYoungEvictions count age now => some (s.call (s.governor.noteYoungEvictions count age now.timestamp))
  | .clearDegraded => some (s.call s.governor.clearDegraded)
  | .persist => some { s with waiting := s.waiting + 1 }
  | .take => if s.persisting = none ∧ 0 < s.waiting then some s.take else none
  | .write => s.persisting.map fun p =>
    { s.write p with persisting := if p.wroteFirst then none else some { p with wroteFirst := true } }
  | .fails written => s.persisting.map fun p =>
    let failed := if written then s.write p else s
    { failed with persisting := none, governor := s.governor.markDegradedDirty }
  | .restart now =>
    some { s with
      governor := .started now.timestamp s.config.read.1 s.config.read.2
      persisting := none
      waiting := 0
      version := s.version + 1 }

/-- All times are in UTC, as the governor's callers take them. -/
def Utc (_ : DegradedFlag) : Act → Prop
  | .tick _ _ now | .reportWriteError _ now | .noteYoungEvictions _ _ now | .restart now => now.offset = some 0
  | _ => True

/-- The stored values follow the governor: once it is not dirty and no persist
is under way they parse to its state, a new process restores that state, and
nothing older is written after something newer. -/
def Follows : Prop :=
  (s.governor.degradedDirty = false → s.persisting = none → s.config.read = s.flag ∧
    ∀ now, ((StorageGovernor.started now s.config.read.1 s.config.read.2).state.degradedSince,
      (StorageGovernor.started now s.config.read.1 s.config.read.2).state.lastWriteError) = s.flag) ∧
  s.written.Pairwise (· ≤ ·)

end DegradedFlag

end RFObserver
