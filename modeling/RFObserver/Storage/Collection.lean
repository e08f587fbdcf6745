import Mathlib.Algebra.BigOperators.Group.List.Basic
import RFObserver.Lib.Dict
import RFObserver.Lib.RoundHalfEven
import RFObserver.Lib.Runs

/-! The collection statistics. Times, seconds and figures are exact. -/

namespace RFObserver

namespace CollectionStats

def hourSeconds : ℤ := 3600

inductive Origin
  | auto
  | manual
  | scheduled
  deriving DecidableEq, Repr

inductive Reason
  | cap
  | space
  deriving DecidableEq, Repr

def origin? : String → Option Origin
  | "auto" => some .auto
  | "manual" => some .manual
  | "scheduled" => some .scheduled
  | _ => none

def reason? : String → Option Reason
  | "cap" => some .cap
  | "space" => some .space
  | _ => none

/-- The columns of `collection_hours`. -/
inductive Field
  | captures (origin : Origin)
  | bytes (origin : Origin)
  | seconds (origin : Origin)
  | deletedCaptures (reason : Reason)
  | deletedBytes (reason : Reason)
  | activeSeconds
  deriving DecidableEq, Repr

/-- The INTEGER columns, those that do not end in `_seconds`. -/
def Field.integer : Field → Bool
  | .seconds _ | .activeSeconds => false
  | _ => true

/-- `_hour` -/
def hour (ts : ℚ) : ℤ := ⌊ts / hourSeconds⌋ * hourSeconds

abbrev Row := Dict Field ℚ

abbrev Rows := Dict ℤ Row

def Row.value (row : Row) (f : Field) : ℚ := (row.get? f).getD 0

/-- `row[f] += x` -/
def Row.add (row : Row) (f : Field) (x : ℚ) : Row := row.modify f 0 (· + x)

def Rows.value (rows : Rows) (h : ℤ) (f : Field) : ℚ := Row.value ((rows.get? h).getD .empty) f

/-- `pending[h][f] += x` -/
def Rows.add (pending : Rows) (h : ℤ) (f : Field) (x : ℚ) : Rows := pending.modify h .empty fun row => Row.add row f x

/-- `row = pending[h]; if x: row[f] += x` -/
def Rows.addIf (pending : Rows) (h : ℤ) (f : Field) (x : ℚ) : Rows :=
  pending.modify h .empty fun row => if x = 0 then row else Row.add row f x

/-- The loop that cuts [t, stop] at the hours: each hour and the seconds in it. -/
def cutHours (stop : ℚ) : Nat → ℚ → Option (List (ℤ × ℚ))
  | 0, _ => none
  | fuel + 1, t =>
    let h := hour t
    let till := min stop (h + hourSeconds)
    if till ≥ stop then some [(h, till - t)] else (cutHours stop fuel till).map fun parts => (h, till - t) :: parts

/-- More rounds than the loop takes. -/
def rounds (start stop : ℚ) : Nat := (⌊stop / hourSeconds⌋ - ⌊start / hourSeconds⌋).toNat + 1

/-- The hours of a capture with its seconds and its bytes in them: the last
part takes the bytes that are left. -/
def shareBytes (nbytes : ℤ) (span : ℚ) : ℤ → List (ℤ × ℚ) → List (ℤ × ℚ × ℤ)
  | _, [] => []
  | given, [(h, secs)] => [(h, secs, nbytes - given)]
  | given, (h, secs) :: rest =>
    let b := if span > 0 then roundHalfEven (nbytes * secs / span) else 0
    (h, secs, b) :: shareBytes nbytes span (given + b) rest

/-- `add_recorded` -/
def addRecorded (pending : Rows) (origin : String) (start stop : ℚ) (nbytes : ℤ) : Option Rows :=
  match origin? origin with
  | none => some pending
  | some o =>
    let stop := max stop start
    (cutHours stop (rounds start stop) start).map fun parts =>
      (shareBytes nbytes (stop - start) 0 parts).foldl
        (fun pending (h, secs, b) => (pending.addIf h (.bytes o) b).addIf h (.seconds o) secs)
        (pending.add (hour start) (.captures o) 1)

/-- `add_deleted` -/
def addDeleted (pending : Rows) (reason : String) (nbytes : ℤ) (at_ : ℚ) : Rows :=
  match reason? reason with
  | none => pending
  | some r => (pending.add (hour at_) (.deletedCaptures r) 1).add (hour at_) (.deletedBytes r) nbytes

/-- `add_active` -/
def addActive (pending : Rows) (seconds at_ : ℚ) : Rows := pending.add (hour at_) .activeSeconds seconds

/-- The pending rows, cleared. -/
def take (pending : Rows) : Rows × Rows := (pending.filter fun row => !row.entries.isEmpty, .empty)

/-- `_put_back` -/
def putBack (pending rows : Rows) : Rows :=
  rows.entries.foldl (fun pending e => e.2.entries.foldl (fun pending x => pending.add e.1 x.1 x.2) pending) pending

/-- The `collection_hours` table. -/
abbrev Table := ℤ → Option (Field → ℚ)

def Table.value (table : Table) (h : ℤ) (f : Field) : ℚ := (table h).elim 0 fun row => row f

/-- The values of a row as they are bound to the statement. -/
def excluded (row : Row) (f : Field) : ℚ := if f.integer then roundHalfEven (Row.value row f) else Row.value row f

/-- `INSERT ... ON CONFLICT(hour) DO UPDATE` -/
def upsertHour (table : Table) (h : ℤ) (new : Field → ℚ) : Table :=
  Function.update table h (some ((table h).elim new fun row f => row f + new f))

/-- `add_collection_hours`, which applies all rows. -/
def addCollectionHours (table : Table) (rows : Rows) : Table :=
  rows.entries.foldl (fun table e => upsertHour table e.1 (excluded e.2)) table

/-- A `flush` call, by what it awaits. -/
inductive Flush
  | readsSince (now : ℚ)
  | marksSince (now : ℚ)
  | adds (rows : Rows)
  | returned
  | raised

/-- An addition that was made. -/
inductive Addition
  | recorded (origin : String) (start stop : ℚ) (nbytes : ℤ)
  | deleted (reason : String) (nbytes : ℤ) (at_ : ℚ)
  | active (seconds at_ : ℚ)

end CollectionStats

open CollectionStats

/-- The pending rows, the table, the `COLLECTION_SINCE_KEY` value and the
flush calls. `additions` only records what was added. -/
structure CollectionStats where
  pending : Rows
  table : Table
  since : Option String
  flushes : List Flush
  additions : List Addition

namespace CollectionStats

/-- A new process, on the table as it is stored. -/
def create (table : Table) (since : Option String) : CollectionStats where
  pending := .empty
  table := table
  since := since
  flushes := []
  additions := []

/-- `getConfig` and the others are the answers to what a flush awaits; a
`set_config` that fails may have written its value. -/
inductive Act
  | add (addition : Addition)
  | flush (now : ℚ)
  | getConfig (i : Nat) (ok : Bool)
  | setConfig (i : Nat) (written ok : Bool)
  | addHours (i : Nat) (ok : Bool)

variable (s : CollectionStats)

def add : Addition → Option Rows
  | .recorded origin start stop nbytes => addRecorded s.pending origin start stop nbytes
  | .deleted reason nbytes at_ => some (addDeleted s.pending reason nbytes at_)
  | .active seconds at_ => some (addActive s.pending seconds at_)

def goesOn (i : Nat) (flush : Flush) : CollectionStats := { s with flushes := s.flushes.set i flush }

/-- `rows = self.take()` and what comes before the next await. -/
def takes (i : Nat) : CollectionStats :=
  let (rows, pending) := take s.pending
  { s with pending }.goesOn i (if rows.entries.isEmpty then .returned else .adds rows)

def step : Act → Option CollectionStats
  | .add addition => (s.add addition).map fun pending => { s with pending, additions := s.additions ++ [addition] }
  | .flush now => some { s with flushes := s.flushes ++ [.readsSince now] }
  | .getConfig i ok =>
    match s.flushes[i]? with
    | some (.readsSince now) =>
      if ok then some (if s.since = none then s.goesOn i (.marksSince now) else s.takes i)
      else some (s.goesOn i .raised)
    | _ => none
  | .setConfig i written ok =>
    match s.flushes[i]? with
    | some (.marksSince now) =>
      let marked := if written then { s with since := some (toString (hour now)) } else s
      if ok then if written then some (marked.takes i) else none else some (marked.goesOn i .raised)
    | _ => none
  | .addHours i ok =>
    match s.flushes[i]? with
    | some (.adds rows) =>
      if ok then some ({ s with table := addCollectionHours s.table rows }.goesOn i .returned)
      else some ({ s with pending := putBack s.pending rows }.goesOn i .raised)
    | _ => none

/-- The figure of a flush that is under way. -/
def Flush.value (h : ℤ) (f : Field) : Flush → ℚ
  | .adds rows => rows.value h f
  | _ => 0

def inFlight (h : ℤ) (f : Field) : ℚ := (s.flushes.map (Flush.value h f)).sum

end CollectionStats

end RFObserver
