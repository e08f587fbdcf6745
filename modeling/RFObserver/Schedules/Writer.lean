import RFObserver.Lib.Runs
import RFObserver.Schedules.Cutter

namespace RFObserver

/-- A run's key: its schedule and its number. -/
abbrev RunKey := String × Nat

/-- One operation the writer was asked for, and whether the byte budget
refused it. -/
abbrev Asked (α : Type*) := Op α × Bool

/-- What `close` is told of a run. -/
structure CloseInfo where
  status : Option RunStatus
  gaps : List (Nat × Nat)
  writerRefused : List (Nat × Nat)
  deriving DecidableEq

/-- An item of the writer's queue. The close item also carries what was asked
for in the run, which nothing reads. -/
inductive WriteItem (α β : Type*)
  | opening (key : RunKey) (spec : RunSpec)
  | iq (key : RunKey) (data : List α)
  | zeros (key : RunKey) (count : Nat)
  | grid (key : RunKey) (rows : List (List β))
  | closing (key : RunKey) (info : CloseInfo) (asked : List (Asked α))

/-- The receiver's view of one run: its file position and the refused
stretches. -/
structure Enqueued (α : Type*) where
  pos : Nat
  refused : List (Nat × Nat)
  asked : List (Asked α)

/-- The writer thread's view of one run, with the samples of its file. -/
structure RunFile (α β : Type*) where
  spec : RunSpec
  samples : List α
  gridRows : List (List β)

structure FinishedRun (α β : Type*) where
  key : RunKey
  spec : RunSpec
  samples : List α
  gridRows : List (List β)
  zeroFilled : List (Nat × Nat)
  zeroFilledSamples : Nat
  status : RunStatus
  asked : List (Asked α)

/-- What the writer thread owns: the open files, and what it has finished. -/
structure WriterDisk (α β : Type*) where
  files : RunKey → Option (RunFile α β)
  finished : List (FinishedRun α β)

/-- The writer, between its two threads. `handing` is an item for which the
budget was taken but that is not in the queue yet, `writing` one that was
taken out of the queue and is not done. -/
structure ScheduledWriter (α β : Type*) where
  budget : Nat
  inFlight : ℤ
  enq : RunKey → Option (Enqueued α)
  handing : Option (WriteItem α β)
  queue : List (WriteItem α β)
  writing : Option (WriteItem α β)
  disk : WriterDisk α β

variable {α β : Type*}

/-- The bytes an item holds of the budget: 4 for an IQ sample and for a PSD value. -/
def WriteItem.nbytes : WriteItem α β → Nat
  | .iq _ data => 4 * data.length
  | .grid _ rows => 4 * (rows.map List.length).sum
  | _ => 0

def zeroBlock : Nat := 2 ^ 18

namespace WriterDisk
variable [Zero α]

/-- Zeros are written a block at a time. -/
def zeroLoop : Nat → Nat → List α → List α
  | 0, _, samples => samples
  | fuel + 1, left, samples =>
    if 0 < left then
      zeroLoop fuel (left - min left zeroBlock) (samples ++ List.replicate (min left zeroBlock) 0)
    else samples

/-- The metadata of a run and its final status. -/
def finish (key : RunKey) (file : RunFile α β) (info : CloseInfo) (asked : List (Asked α)) : FinishedRun α β :=
  let zero := sortedGaps (info.gaps ++ info.writerRefused)
  let zeroSamples := Stretches.total zero
  let status := info.status.getD .partialRun
  { key := key
    spec := file.spec
    samples := file.samples
    gridRows := file.gridRows
    zeroFilled := zero
    zeroFilledSamples := zeroSamples
    status :=
      if status = .recorded ∧ (zeroSamples ≠ 0 ∨ file.samples.length ≠ file.spec.nSamples) then .partialRun
      else status
    asked := asked }

/-- One turn of the writer's loop. An item of a run that is not open is let go. -/
def handle (item : WriteItem α β) (d : WriterDisk α β) : WriterDisk α β :=
  match item with
  | .opening key spec => { d with files := Function.update d.files key (some ⟨spec, [], []⟩) }
  | .iq key data =>
    match d.files key with
    | some file => { d with files := Function.update d.files key (some { file with samples := file.samples ++ data }) }
    | none => d
  | .zeros key count =>
    match d.files key with
    | some file =>
      { d with files := Function.update d.files key (some { file with samples := zeroLoop count count file.samples }) }
    | none => d
  | .grid key rows =>
    match d.files key with
    | some file => { d with files := Function.update d.files key (some { file with gridRows := file.gridRows ++ rows }) }
    | none => d
  | .closing key info asked =>
    match d.files key with
    | some file => ⟨Function.update d.files key none, d.finished ++ [finish key file info asked]⟩
    | none => d

end WriterDisk

namespace ScheduledWriter

def create (budget : Nat) : ScheduledWriter α β where
  budget := budget
  inFlight := 0
  enq := fun _ => none
  handing := none
  queue := []
  writing := none
  disk := ⟨fun _ => none, []⟩

def openRun (key : RunKey) (spec : RunSpec) (w : ScheduledWriter α β) : ScheduledWriter α β :=
  { w with
    enq := Function.update w.enq key (some ⟨0, [], []⟩)
    queue := w.queue ++ [.opening key spec] }

/-- A refused stretch joins the one that ends where it starts. -/
def noteRefused (enq : Enqueued α) (n : Nat) : Enqueued α :=
  { enq with refused := Stretches.extend enq.refused enq.pos n }

/-- One turn of the loop of `put_ops`: the writer, and the samples refused.
IQ that fits the budget is taken to be queued next. -/
def putOp (key : RunKey) (op : Op α) (w : ScheduledWriter α β) : ScheduledWriter α β × Nat :=
  match w.enq key with
  | none => (w, 0)
  | some enq =>
    match op with
    | .iq data =>
      if w.inFlight + (4 * data.length : Nat) ≤ w.budget then
        ({ w with
          inFlight := w.inFlight + (4 * data.length : Nat)
          handing := some (.iq key data)
          enq := Function.update w.enq key
            (some { enq with pos := enq.pos + data.length, asked := enq.asked ++ [(op, false)] }) }, 0)
      else
        let enq := noteRefused enq data.length
        ({ w with
          queue := w.queue ++ [.zeros key data.length]
          enq := Function.update w.enq key
            (some { enq with pos := enq.pos + data.length, asked := enq.asked ++ [(op, true)] }) }, data.length)
    | .zeros count =>
      ({ w with
        queue := w.queue ++ [.zeros key count]
        enq := Function.update w.enq key
          (some { enq with pos := enq.pos + count, asked := enq.asked ++ [(op, false)] }) }, 0)

/-- PSD rows over the budget are dropped. -/
def putGrid (key : RunKey) (rows : List (List β)) (w : ScheduledWriter α β) : ScheduledWriter α β × Bool :=
  let nbytes := 4 * (rows.map List.length).sum
  if (w.enq key).isNone ∨ nbytes = 0 then (w, false)
  else if w.budget < w.inFlight + (nbytes : Nat) then (w, false)
  else ({ w with inFlight := w.inFlight + (nbytes : Nat), handing := some (.grid key rows) }, true)

def close (key : RunKey) (info : CloseInfo) (w : ScheduledWriter α β) : ScheduledWriter α β :=
  match w.enq key with
  | none => w
  | some enq =>
    { w with
      enq := Function.update w.enq key none
      queue := w.queue ++ [.closing key { info with writerRefused := enq.refused } enq.asked] }

/-- A step of either thread. A call makes one step for each thing the other
thread can see: what was taken from the budget is queued by `put`, what was
taken from the queue is written and released by `handle`. -/
inductive Act (α β : Type*)
  | openRun (key : RunKey) (spec : RunSpec)
  | putOp (key : RunKey) (op : Op α)
  | putGrid (key : RunKey) (rows : List (List β))
  | close (key : RunKey) (info : CloseInfo)
  | put
  | get
  | handle

variable [Zero α]

/-- The calls come one after another: none begins while an item is handed on. -/
def step (w : ScheduledWriter α β) : Act α β → Option (ScheduledWriter α β)
  | .openRun key spec => if w.handing.isNone then some (w.openRun key spec) else none
  | .putOp key op => if w.handing.isNone then some (w.putOp key op).1 else none
  | .putGrid key rows => if w.handing.isNone then some (w.putGrid key rows).1 else none
  | .close key info => if w.handing.isNone then some (w.close key info) else none
  | .put => w.handing.map fun item => { w with handing := none, queue := w.queue ++ [item] }
  | .get =>
    match w.writing, w.queue with
    | none, item :: queue => some { w with writing := some item, queue := queue }
    | _, _ => none
  | .handle => w.writing.map fun item =>
    { w with writing := none, disk := w.disk.handle item, inFlight := w.inFlight - (item.nbytes : Nat) }

abbrev Reach (budget : Nat) (allowed : ScheduledWriter α β → Act α β → Prop) : ScheduledWriter α β → Prop :=
  Runs.Reach step (create budget) allowed

end ScheduledWriter
end RFObserver
