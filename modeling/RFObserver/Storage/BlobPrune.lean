import Mathlib.Data.Prod.Lex
import Mathlib.Tactic
import RFObserver.Lib.Keyset
import RFObserver.Lib.Runs

namespace RFObserver

/-- A row of `avg_windows` with its blobs. -/
structure BlobRow where
  rowid : Nat
  startTime : ℚ
  psdPowers : Option (List UInt8)
  violations : Option (List UInt8)
  deriving DecidableEq

/-- The key of the watermark, (start_time, rowid). -/
def BlobRow.key (row : BlobRow) : ℚ ×ₗ ℕ := toLex (row.startTime, row.rowid)

/-- The value of the config key `blob_prune_mark`. -/
inductive SavedMark
  | malformed
  | mark (mark : ℚ ×ₗ ℕ)
  deriving DecidableEq

/-- The locals of a pass of `prune_avg_psd_blobs`. -/
structure BlobPass where
  cutoff : ℚ
  chunk : Nat
  chunks : Nat
  pruned : Nat
  deriving DecidableEq

/-- The step at which the pass is: `updating` and `committing` are inside
`_prune_blob_chunk`, with the rows it read and the connection of its UPDATE. -/
inductive BlobPhase
  | idle
  | loading (chunk : Nat)
  | ready (chunk : Nat)
  | selecting (pass : BlobPass)
  | updating (pass : BlobPass) (read : List BlobRow)
  | committing (pass : BlobPass) (read : List BlobRow) (nulled connection : Nat)
  | saving (pass : BlobPass) (ended : Bool)
  deriving DecidableEq

/-- The table, the saved watermark and the pruning process. The initial mark
("", 0) is none, and connections are numbered as they are opened. `lateRows`
and `lateMarks` are writes that were abandoned and may still take effect.
`cutoffs` and `completed` are the cutoffs of the passes begun and completed;
nothing reads these two. -/
structure BlobPrune where
  rows : List BlobRow
  stored : Option SavedMark
  connection : Nat
  mark : Option (ℚ ×ₗ ℕ)
  loaded : Bool
  saved : Option (ℚ ×ₗ ℕ)
  phase : BlobPhase
  lateRows : List (List Nat)
  lateMarks : List (ℚ ×ₗ ℕ)
  cutoffs : List ℚ
  completed : List ℚ
  deriving DecidableEq

namespace BlobPrune

def blobMarkSaveEveryChunks : Nat := 40

def create : BlobPrune where
  rows := []
  stored := none
  connection := 0
  mark := none
  loaded := false
  saved := none
  phase := .idle
  lateRows := []
  lateMarks := []
  cutoffs := []
  completed := []

/-- The UPDATE of a chunk takes this row's blobs. -/
def nulls (ids : List Nat) (row : BlobRow) : Bool := row.rowid ∈ ids && row.psdPowers.isSome

def nullBlobs (ids : List Nat) (rows : List BlobRow) : List BlobRow :=
  rows.map fun row => if nulls ids row then { row with psdPowers := none, violations := none } else row

variable (s : BlobPrune)

/-- The SELECT of a chunk. -/
def page (pass : BlobPass) : List BlobRow :=
  Keyset.page BlobRow.key pass.chunk s.mark (s.rows.filter fun row => row.startTime < pass.cutoff)

/-- `_load_blob_prune_mark`, with what the config key has. -/
def loadMark : Option (ℚ ×ₗ ℕ) :=
  match s.stored with
  | some (.mark mark) => some mark
  | some .malformed | none => none

def afterSave (pass : BlobPass) (ended : Bool) : BlobPhase := if ended then .idle else .selecting pass

/-- `_save_blob_prune_mark` up to its write, if the mark moved. -/
def saveMark (pass : BlobPass) (ended : Bool) : BlobPrune :=
  { s with phase := if s.mark = s.saved then afterSave pass ended else .saving pass ended }

/-- The loop of the pass after a chunk. -/
def endChunk (pass : BlobPass) (scanned nulled : Nat) : BlobPrune :=
  let pass := { pass with pruned := pass.pruned + nulled, chunks := pass.chunks + 1 }
  if scanned < pass.chunk then { s with completed := pass.cutoff :: s.completed }.saveMark pass true
  else if pass.chunks % blobMarkSaveEveryChunks = 0 then s.saveMark pass false
  else { s with phase := .selecting pass }

/-- The rows that were read, whose UPDATE may be under way. -/
def inFlight : List (List Nat) :=
  match s.phase with
  | .committing _ read _ _ => [read.map (·.rowid)]
  | _ => []

/-- The mark whose save may be under way. -/
def savingMark : List (ℚ ×ₗ ℕ) :=
  match s.phase with
  | .saving _ _ => s.mark.toList
  | _ => []

/-- What is under way is abandoned. -/
def abandon : BlobPrune :=
  { s with lateRows := s.inFlight ++ s.lateRows, lateMarks := s.savingMark ++ s.lateMarks }

/-- The commit of a chunk and the move of the watermark. On another connection
than the UPDATE's it commits nothing. -/
def commitChunk (pass : BlobPass) (read : List BlobRow) (nulled connection : Nat) : BlobPrune :=
  let moved := { s with mark := read.getLast?.map BlobRow.key }
  let ids := read.map (·.rowid)
  if connection = s.connection then
    { moved with rows := nullBlobs ids s.rows }.endChunk pass read.length nulled
  else { moved with lateRows := ids :: s.lateRows }.endChunk pass read.length nulled

/-- `reconnects` is another write's timeout, which replaces the connection,
`retries` is the chunk's own, and `saves` has whether the mark became durable. -/
inductive Act
  | inserts (row : BlobRow)
  | deletes (rowid : Nat)
  | begins (chunk : Nat)
  | loads
  | cuts (cutoff : ℚ)
  | selects
  | updates
  | commits
  | saves (durable : Bool)
  | saveFails
  | retries
  | reconnects
  | landsRows (ids : List Nat)
  | landsMark (mark : ℚ ×ₗ ℕ)
  | garbles
  | interrupts
  | restarts
  deriving DecidableEq

def step : Act → Option BlobPrune
  | .inserts row =>
    if ∀ old ∈ s.rows, old.rowid ≠ row.rowid then some { s with rows := s.rows ++ [row] } else none
  | .deletes rowid => some { s with rows := s.rows.filter fun row => row.rowid ≠ rowid }
  | .begins chunk =>
    if s.phase = .idle then
      some { s with loaded := true, phase := if s.loaded then .ready chunk else .loading chunk }
    else none
  | .loads =>
    match s.phase with
    | .loading chunk => some { s with mark := s.loadMark, saved := s.loadMark, phase := .ready chunk }
    | _ => none
  | .cuts cutoff =>
    match s.phase with
    | .ready chunk => some { s with phase := .selecting ⟨cutoff, chunk, 0, 0⟩, cutoffs := cutoff :: s.cutoffs }
    | _ => none
  | .selects =>
    match s.phase with
    | .selecting pass =>
      some (if s.page pass = [] then s.endChunk pass 0 0 else { s with phase := .updating pass (s.page pass) })
    | _ => none
  | .updates =>
    match s.phase with
    | .updating pass read =>
      let nulled := s.rows.countP (nulls (read.map (·.rowid)))
      some { s with phase := .committing pass read nulled s.connection }
    | _ => none
  | .commits =>
    match s.phase with
    | .committing pass read nulled connection => some (s.commitChunk pass read nulled connection)
    | _ => none
  | .saves durable =>
    match s.phase with
    | .saving pass ended =>
      let kept := if durable then { s with stored := s.mark.map .mark } else s.abandon
      some { kept with saved := s.mark, phase := afterSave pass ended }
    | _ => none
  | .saveFails =>
    match s.phase with
    | .saving pass ended => some { s.abandon with phase := afterSave pass ended }
    | _ => none
  | .retries =>
    match s.phase with
    | .selecting pass | .updating pass _ | .committing pass _ _ _ =>
      some { s.abandon with connection := s.connection + 1, phase := .selecting pass }
    | _ => none
  | .reconnects => some { s with connection := s.connection + 1 }
  | .landsRows ids => if ids ∈ s.lateRows then some { s with rows := nullBlobs ids s.rows } else none
  | .landsMark mark => if mark ∈ s.lateMarks then some { s with stored := some (.mark mark) } else none
  | .garbles => some { s with stored := some .malformed }
  | .interrupts => if s.phase = .idle then none else some { s.abandon with phase := .idle }
  | .restarts =>
    some { s.abandon with connection := s.connection + 1, mark := none, loaded := false, saved := none, phase := .idle }

end BlobPrune

end RFObserver
