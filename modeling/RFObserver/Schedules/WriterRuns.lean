import RFObserver.Schedules.CutterTimeline
import RFObserver.Schedules.Engine
import RFObserver.Schedules.Writer

namespace RFObserver
open Stretches

variable {α β : Type*}

def Op.length : Op α → Nat
  | .iq data => data.length
  | .zeros count => count

def Op.isZeros : Op α → Bool
  | .iq _ => false
  | .zeros _ => true

/-- The stretches a cutter has filled after these operations, of a file that
had `pos` samples before them. -/
def cutterGaps : Nat → List (Nat × Nat) → List (Op α) → List (Nat × Nat)
  | _, gaps, [] => gaps
  | pos, gaps, .iq data :: ops => cutterGaps (pos + data.length) gaps ops
  | pos, gaps, .zeros count :: ops => cutterGaps (pos + count) (extend gaps pos count) ops

theorem cutterGaps_append (pos : Nat) (gaps : List (Nat × Nat)) (ops ops' : List (Op α)) :
    cutterGaps pos gaps (ops ++ ops') =
      cutterGaps (pos + (ops.map Op.length).sum) (cutterGaps pos gaps ops) ops' := by
  induction ops generalizing pos gaps with
  | nil => rfl
  | cons op ops ih =>
    cases op with
    | iq data => simp [cutterGaps, ih, Op.length, Nat.add_assoc]
    | zeros count => simp [cutterGaps, ih, Op.length, Nat.add_assoc]

namespace RunCutter

/-- From `f` to `g` a cutter has returned operations, none of them empty, and
noted the stretches they fill. -/
def Writes (f g : Feeding α) : Prop :=
  ∃ ops, g.2 = f.2 ++ ops ∧ (∀ op ∈ ops, 0 < op.length) ∧ g.1.written = f.1.written + (ops.map Op.length).sum ∧
    g.1.gaps = cutterGaps f.1.written f.1.gaps ops

theorem Writes.refl (f : Feeding α) : Writes f f := ⟨[], by simp, List.forall_mem_nil _, rfl, rfl⟩

theorem Writes.trans {f g h : Feeding α} (first : Writes f g) (second : Writes g h) : Writes f h := by
  obtain ⟨ops, returned, some, written, gaps⟩ := first
  obtain ⟨ops', returned', some', written', gaps'⟩ := second
  refine ⟨ops ++ ops', by rw [returned', returned, List.append_assoc], fun op member => ?_, ?_, ?_⟩
  · exact (List.mem_append.mp member).elim (some op) (some' op)
  · rw [written', written, List.map_append, List.sum_append, Nat.add_assoc]
  · rw [gaps', gaps, written, cutterGaps_append]

theorem iq_writes (f : Feeding α) (data : List α) : Writes f (iq f data) := by
  unfold iq
  simp only
  split
  · rename_i some
    refine ⟨[.iq (data.take (min data.length f.1.room))], rfl, fun op member => ?_, ?_, ?_⟩
    · obtain rfl := List.mem_singleton.mp member
      simpa [Op.length] using some
    · simp [Op.length]
    · simp [cutterGaps]
  · exact ⟨[], by simp, List.forall_mem_nil _, by simp, by simp [cutterGaps]⟩

theorem zeros_writes (f : Feeding α) (count pos : Nat) (shifts : Bool) : Writes f (zeros f count pos shifts) := by
  unfold zeros
  simp only
  split
  · rename_i some
    refine ⟨[.zeros (min count f.1.room)], rfl, fun op member => ?_, ?_, ?_⟩
    · obtain rfl := List.mem_singleton.mp member
      exact some
    · simp [Op.length]
    · simp [cutterGaps]
  · exact ⟨[], by simp, List.forall_mem_nil _, by simp, by simp [cutterGaps]⟩

theorem chunkLoop_writes (samples : List α) (chunkStart start pos : Nat) (gaps : LossyStream.Gaps) (f : Feeding α) :
    Writes f (chunkLoop samples chunkStart start pos gaps f) := by
  induction gaps generalizing pos f with
  | nil => exact iq_writes f _
  | cons g gaps ih =>
    unfold chunkLoop
    split
    · exact ih pos f
    · exact ((iq_writes f _).trans (zeros_writes _ _ _ _)).trans (ih g.1 _)

/-- What only labels the run changes neither its file nor its stretches. -/
theorem Writes.relabel {f f' g : Feeding α} (writes : Writes f' g) (ops : f'.2 = f.2)
    (written : f'.1.written = f.1.written) (gaps : f'.1.gaps = f.1.gaps) : Writes f g := by
  obtain ⟨new, returned, some, total, filled⟩ := writes
  exact ⟨new, ops ▸ returned, some, written ▸ total, written ▸ gaps ▸ filled⟩

theorem Writes.moved {f g : Feeding α} (writes : Writes f g) (next : Nat) :
    Writes f ({ g.1 with nextPos := next }, g.2) := writes

theorem beginInChunk_writes (c : RunCutter) (samples : List α) (chunkStart target : Nat)
    (inner : LossyStream.Gaps) (next : Nat) :
    let f := c.beginInChunk samples chunkStart target inner
    Writes (c, []) ({ f.1 with nextPos := next }, f.2) := by
  obtain ⟨⟨off, head⟩, found⟩ : ∃ found, place target inner samples.length = found := ⟨_, rfl⟩
  unfold beginInChunk
  rw [found]
  exact (((zeros_writes (_, []) _ _ _).trans (chunkLoop_writes ..)).relabel rfl rfl rfl).moved next

theorem beginInLoss_writes (c : RunCutter) (samples : List α) (chunkStart back : Nat)
    (inner : LossyStream.Gaps) (next : Nat) :
    let f := c.beginInLoss samples chunkStart back inner
    Writes (c, []) ({ f.1 with nextPos := next }, f.2) := by
  unfold beginInLoss
  exact (((zeros_writes (_, []) _ _ _).trans (chunkLoop_writes ..)).relabel rfl rfl rfl).moved next

theorem beginInRing_writes (c : RunCutter) (samples : List α) (chunkStart : Nat) (p0 : ℤ) (before : Nat)
    (inner : LossyStream.Gaps) (ring : Option (CircularBuffer α)) (next : Nat) :
    let f := c.beginInRing samples chunkStart p0 before inner ring
    Writes (c, []) ({ f.1 with nextPos := next }, f.2) := by
  have filled : ∀ start late : Nat, Writes (c, ([] : List (Op α)))
      (if late ≠ 0 then
        zeros ({ c with streamStart := some start, late := min late c.spec.nSamples }, []) late start true
      else ({ c with streamStart := some start }, [])) := by
    intro start late
    split
    · exact (zeros_writes (_, []) _ _ _).relabel rfl rfl rfl
    · exact (Writes.refl (_, [])).relabel rfl rfl rfl
  obtain ⟨⟨start, data⟩, found⟩ : ∃ found, readBack ring chunkStart p0 = found := ⟨_, rfl⟩
  unfold beginInRing
  rw [found]
  cases data with
  | some d =>
    exact (((filled _ _).trans (iq_writes _ d)).trans ((zeros_writes _ _ _ _).trans (chunkLoop_writes ..))).moved next
  | none => exact ((filled _ _).trans ((zeros_writes _ _ _ _).trans (chunkLoop_writes ..))).moved next

/-- Whatever a run is fed, its operations are not empty and its gaps are the
stretches they fill. -/
theorem feed_writes (c : RunCutter) (samples : List α) (chunkStart : Nat) (captureTime : ℚ) (gaps : LossyStream.Gaps)
    (center : ℚ) (ring : Option (CircularBuffer α)) :
    Writes (c, []) (c.feed samples chunkStart captureTime gaps center ring) := by
  unfold feed
  split_ifs with done started retuned
  · exact Writes.refl _
  · unfold endRun
    split
    · exact Writes.refl _
    · exact (Writes.refl ({ c with done := true, reason := some "retuned" }, [])).relabel rfl rfl rfl
  · unfold continueRun
    simp only
    have rest := fun f : Feeding α => (zeros_writes f (splitGaps gaps).1 chunkStart true).trans
      (chunkLoop_writes samples chunkStart 0 0 (splitGaps gaps).2 _)
    split
    · exact ((zeros_writes (c, []) (chunkStart - c.nextPos) chunkStart false).trans (rest _)).moved _
    · exact (rest (c, [])).moved _
  · unfold begin
    simp only
    split_ifs with later here loss
    · exact Writes.refl _
    · exact (beginInChunk_writes _ samples chunkStart _ _ _).relabel rfl rfl rfl
    · exact (beginInLoss_writes _ samples chunkStart _ _ _).relabel rfl rfl rfl
    · exact (beginInRing_writes _ samples chunkStart _ _ _ ring _).relabel rfl rfl rfl

/-- A run fed call by call, with all its operations. -/
def feeds (c : RunCutter) : List (ChunkCall α) → Feeding α
  | [] => (c, [])
  | k :: ks =>
    let f := c.feed k.samples k.chunkStart k.captureTime k.gaps k.centerFreqHz k.ring
    let g := feeds f.1 ks
    (g.1, f.2 ++ g.2)

theorem feeds_writes (c : RunCutter) (ks : List (ChunkCall α)) : Writes (c, []) (c.feeds ks) := by
  induction ks generalizing c with
  | nil => exact Writes.refl _
  | cons k ks ih =>
    have first := feed_writes c k.samples k.chunkStart k.captureTime k.gaps k.centerFreqHz k.ring
    obtain ⟨ops, returned, some, written, gaps⟩ :=
      ih (c.feed k.samples k.chunkStart k.captureTime k.gaps k.centerFreqHz k.ring).1
    exact first.trans ⟨ops, by rw [feeds, returned, List.nil_append], some, written, gaps⟩

/-- A run's operations are not empty, and the gaps it reports are those the
writer relies on. -/
theorem feeds_ofCutter (spec : RunSpec) (ks : List (ChunkCall α)) :
    (∀ op ∈ ((create spec).feeds ks).2, 0 < op.length) ∧
      ((create spec).feeds ks).1.info.gaps = cutterGaps 0 [] ((create spec).feeds ks).2 := by
  obtain ⟨ops, returned, some, -, gaps⟩ := feeds_writes (create spec) ks
  rw [returned]
  exact ⟨some, gaps⟩

end RunCutter

/-! What the writer was asked for in one run, sample by sample. -/

namespace Asked

/-- The request that each sample of the file belongs to. -/
def perSample (asked : List (Asked α)) : List (Asked α) := asked.flatMap fun a => List.replicate a.1.length a

/-- The file: IQ that was not refused, zeros for the rest. -/
def file [Zero α] (asked : List (Asked α)) : List α :=
  asked.flatMap fun a => match a with
    | (.iq data, false) => data
    | (op, _) => List.replicate op.length 0

/-- The samples that are zero because the cutter filled them or the budget
refused them. -/
def zeroMarks (asked : List (Asked α)) : List Bool := (perSample asked).map fun a => a.1.isZeros || a.2

/-- Requests are not empty, and only IQ is refused. -/
def Proper (asked : List (Asked α)) : Prop := ∀ a ∈ asked, 0 < a.1.length ∧ ¬ (a.1.isZeros = true ∧ a.2 = true)

theorem perSample_append (asked : List (Asked α)) (a : Asked α) :
    perSample (asked ++ [a]) = perSample asked ++ List.replicate a.1.length a := by
  simp [perSample]

theorem length_perSample (asked : List (Asked α)) :
    (perSample asked).length = ((asked.map Prod.fst).map Op.length).sum := by
  simp [perSample, Function.comp_def, List.length_flatMap]

theorem length_file [Zero α] (asked : List (Asked α)) : (file asked).length = (zeroMarks asked).length := by
  induction asked with
  | nil => rfl
  | cons a asked ih =>
    obtain ⟨op, refused⟩ := a
    simp only [file, zeroMarks, perSample, List.flatMap_cons, List.map_append, List.length_append] at ih ⊢
    rw [ih]
    cases op <;> cases refused <;> simp [Op.length]

/-- What the cutter filled is in its stretches. -/
theorem cutterGaps_of {asked : List (Asked α)} (proper : Proper asked) :
    Of (cutterGaps 0 [] (asked.map Prod.fst)) ((perSample asked).map fun a => a.1.isZeros) := by
  induction asked using List.reverseRecOn with
  | nil => exact of_nil
  | append_singleton asked a ih =>
    have before := ih fun b member => proper b (List.mem_append_left _ member)
    obtain ⟨some, -⟩ := proper a (List.mem_append_right _ (List.mem_singleton_self a))
    rw [List.map_append, cutterGaps_append, Nat.zero_add, ← length_perSample, perSample_append, List.map_append,
      List.map_replicate]
    obtain ⟨op, refused⟩ := a
    cases op with
    | iq data => exact before.skip _
    | zeros count =>
      have extended := before.extend some
      rw [List.length_map] at extended
      exact extended

/-- What the cutter filled and what was refused, in order, is what is zero. -/
theorem zeroMarks_of {asked : List (Asked α)} {refused : List (Nat × Nat)} (proper : Proper asked)
    (of : Of refused ((perSample asked).map Prod.snd)) :
    Of (sortedGaps (cutterGaps 0 [] (asked.map Prod.fst) ++ refused)) (zeroMarks asked) := by
  have merged := (cutterGaps_of proper).merge of (by simp) (fun i both => ?_) (List.perm_insertionSort gapLe _)
    (List.pairwise_insertionSort gapLe _)
  · rwa [List.zipWith_map, List.zipWith_self] at merged
  · simp only [List.getElem?_map, Option.map_eq_some_iff] at both
    obtain ⟨⟨a, here, zeros⟩, b, here', refused⟩ := both
    obtain rfl := Option.some.inj (here.symm.trans here')
    obtain ⟨c, inAsked, inBlock⟩ := List.mem_flatMap.mp (List.mem_of_getElem? here)
    obtain rfl := List.eq_of_mem_replicate inBlock
    exact (proper a inAsked).2 ⟨zeros, refused⟩

end Asked

namespace ScheduledWriter
open WriterDisk

variable {w w' : ScheduledWriter α β} {budget : Nat}

/-- A run's file is what was asked for, and its metadata say which of it is
zero. -/
structure Reported [Zero α] (f : FinishedRun α β) : Prop where
  samples : f.samples = Asked.file f.asked
  zeroFilled : Of f.zeroFilled (Asked.zeroMarks f.asked)
  total : f.zeroFilledSamples = (Asked.zeroMarks f.asked).count true
  recorded : f.status = .recorded → f.zeroFilledSamples = 0 ∧ f.samples.length = f.spec.nSamples

/-- The receiver's view of a run agrees with what was asked for. -/
structure Kept (enq : Enqueued α) : Prop where
  proper : Asked.Proper enq.asked
  pos : enq.pos = (Asked.perSample enq.asked).length
  refused : Of enq.refused ((Asked.perSample enq.asked).map Prod.snd)

/-- The files are those of the runs the receiver has open, complete. -/
structure Drained [Zero α] (enq : RunKey → Option (Enqueued α)) (d : WriterDisk α β) : Prop where
  files : ∀ key, (d.files key).map (fun file => file.samples) = (enq key).map fun enq => Asked.file enq.asked
  finished : ∀ f ∈ d.finished, Reported f

/-- The items that were accepted and are not done, in the writer's order. -/
def pending (w : ScheduledWriter α β) : List (WriteItem α β) := w.writing.toList ++ w.queue ++ w.handing.toList

/-- The files as they will be when the writer is done with what is pending. -/
def drained [Zero α] (w : ScheduledWriter α β) : WriterDisk α β :=
  w.pending.foldl (fun d item => d.handle item) w.disk

def bytes (items : List (WriteItem α β)) : Nat := (items.map WriteItem.nbytes).sum

/-- What both threads keep. -/
structure Tidy [Zero α] (budget : Nat) (w : ScheduledWriter α β) : Prop where
  limit : w.budget = budget
  inFlight : w.inFlight = bytes w.pending
  within : w.inFlight ≤ budget
  kept : ∀ key, ∀ enq ∈ w.enq key, Kept enq
  drained : Drained w.enq w.drained

/-- The operations and the closing gaps of a run are those of a cutter. -/
def Act.OfCutter (w : ScheduledWriter α β) : Act α β → Prop
  | .putOp _ op => 0 < op.length
  | .close key info => ∀ enq ∈ w.enq key, info.gaps = cutterGaps 0 [] (enq.asked.map Prod.fst)
  | _ => True

instance [DecidableEq α] (w : ScheduledWriter α β) : ∀ a : Act α β, Decidable (a.OfCutter w)
  | .putOp _ op => inferInstanceAs (Decidable (0 < op.length))
  | .close key info =>
    inferInstanceAs (Decidable (∀ enq ∈ w.enq key, info.gaps = cutterGaps 0 [] (enq.asked.map Prod.fst)))
  | .openRun _ _ | .putGrid _ _ | .put | .get | .handle => isTrue trivial

theorem bytes_append (items items' : List (WriteItem α β)) : bytes (items ++ items') = bytes items + bytes items' := by
  simp [bytes]

section Disk
variable [Zero α]

theorem zeroLoop_eq (fuel left : Nat) (samples : List α) (enough : left ≤ fuel) :
    zeroLoop fuel left samples = samples ++ List.replicate left 0 := by
  induction fuel generalizing left samples with
  | zero =>
    obtain rfl := Nat.le_zero.mp enough
    simp [zeroLoop]
  | succ fuel ih =>
    unfold zeroLoop
    split_ifs with some
    · have block : 0 < zeroBlock := by unfold zeroBlock; positivity
      rw [ih _ _ (by omega), List.append_assoc, List.replicate_append_replicate,
        Nat.add_sub_cancel' (Nat.min_le_left ..)]
    · rw [Nat.eq_zero_of_not_pos some]
      simp

theorem Drained.opening {enq : RunKey → Option (Enqueued α)} {d : WriterDisk α β} (drained : Drained enq d)
    (key : RunKey) (spec : RunSpec) :
    Drained (Function.update enq key (some ⟨0, [], []⟩)) (d.handle (.opening key spec)) where
  files := fun k => by
    by_cases same : k = key
    · subst same
      simp [handle, Asked.file]
    · simpa [handle, same] using drained.files k
  finished := drained.finished

/-- The item adds to the open file what was asked for. -/
theorem Drained.add {enq : RunKey → Option (Enqueued α)} {d : WriterDisk α β} (drained : Drained enq d)
    {key : RunKey} {run run' : Enqueued α} {item : WriteItem α β} {a : Asked α} (isOpen : enq key = some run)
    (asked : run'.asked = run.asked ++ [a])
    (adds : ∀ file, d.files key = some file → d.handle item =
      { d with files := Function.update d.files key (some { file with samples := file.samples ++ Asked.file [a] }) }) :
    Drained (Function.update enq key (some run')) (d.handle item) := by
  have files := drained.files key
  rw [isOpen, Option.map_some] at files
  obtain ⟨file, isFile, samples⟩ := Option.map_eq_some_iff.mp files
  rw [adds file isFile]
  refine ⟨fun k => ?_, drained.finished⟩
  by_cases same : k = key
  · subst same
    simp [samples, asked, Asked.file]
  · simpa [same] using drained.files k

theorem Drained.grid {enq : RunKey → Option (Enqueued α)} {d : WriterDisk α β} (drained : Drained enq d)
    (key : RunKey) (rows : List (List β)) : Drained enq (d.handle (.grid key rows)) := by
  cases isFile : d.files key with
  | none =>
    simp only [handle, isFile]
    exact drained
  | some file =>
    simp only [handle, isFile]
    refine ⟨fun k => ?_, drained.finished⟩
    by_cases same : k = key
    · subst same
      rw [← drained.files k, isFile]
      simp
    · simpa [same] using drained.files k

/-- Closing a run finishes its file, with what was asked for. -/
theorem Drained.closing {enq : RunKey → Option (Enqueued α)} {d : WriterDisk α β} (drained : Drained enq d)
    {key : RunKey} {run : Enqueued α} (isOpen : enq key = some run) (kept : Kept run) {info : CloseInfo}
    (gaps : info.gaps = cutterGaps 0 [] (run.asked.map Prod.fst)) (refused : info.writerRefused = run.refused) :
    Drained (Function.update enq key none) (d.handle (.closing key info run.asked)) := by
  have files := drained.files key
  rw [isOpen, Option.map_some] at files
  obtain ⟨file, isFile, samples⟩ := Option.map_eq_some_iff.mp files
  have zeros := Asked.zeroMarks_of kept.proper kept.refused
  rw [← gaps, ← refused] at zeros
  simp only [handle, isFile]
  refine ⟨fun k => ?_, fun f member => ?_⟩
  · by_cases same : k = key
    · subst same
      simp
    · simpa [same] using drained.files k
  · rcases List.mem_append.mp member with before | new
    · exact drained.finished f before
    · obtain rfl := List.mem_singleton.mp new
      refine ⟨samples, zeros, zeros.total, fun recorded => ?_⟩
      simp only [finish] at recorded ⊢
      split_ifs at recorded with filled
      by_contra wrong
      exact filled ⟨recorded, by tauto⟩

end Disk

theorem pending_queue (item : WriteItem α β) (free : w.handing = none) :
    w.writing.toList ++ (w.queue ++ [item]) ++ w.handing.toList = w.pending ++ [item] := by
  simp [pending, free]

theorem kept_update {enq : RunKey → Option (Enqueued α)} (kept : ∀ key, ∀ run ∈ enq key, Kept run) (key : RunKey)
    {run : Option (Enqueued α)} (new : ∀ r ∈ run, Kept r) : ∀ k, ∀ r ∈ Function.update enq key run k, Kept r := by
  intro k r member
  by_cases same : k = key
  · subst same
    rw [Function.update_self] at member
    exact new r member
  · rw [Function.update_of_ne same] at member
    exact kept k r member

/-- The receiver's view after one more operation, refused or not. -/
theorem Kept.add {run run' : Enqueued α} (kept : Kept run) (op : Op α) (refused : Bool) (some : 0 < op.length)
    (proper : ¬ (op.isZeros = true ∧ refused = true)) (asked : run'.asked = run.asked ++ [(op, refused)])
    (pos : run'.pos = run.pos + op.length)
    (refuses : run'.refused = if refused then extend run.refused run.pos op.length else run.refused) :
    Kept run' := by
  refine ⟨fun a member => ?_, ?_, ?_⟩
  · rcases List.mem_append.mp (asked ▸ member) with before | new
    · exact kept.proper a before
    · obtain rfl := List.mem_singleton.mp new
      exact ⟨some, proper⟩
  · rw [pos, kept.pos, asked, Asked.perSample_append]
    simp
  · rw [refuses, asked, Asked.perSample_append, List.map_append, List.map_replicate]
    cases refused with
    | false => exact kept.refused.skip _
    | true =>
      have extended := kept.refused.extend some
      rw [List.length_map, ← kept.pos] at extended
      exact extended

section Steps
variable [Zero α]

/-- A producer step appends one item to what is pending. -/
theorem Tidy.append (tidy : Tidy budget w) (item : WriteItem α β) (limit : w'.budget = w.budget)
    (disk : w'.disk = w.disk) (appended : w'.pending = w.pending ++ [item])
    (inFlight : w'.inFlight = w.inFlight + item.nbytes) (within : w'.inFlight ≤ budget)
    (kept : ∀ key, ∀ enq ∈ w'.enq key, Kept enq) (drained : Drained w'.enq (w.drained.handle item)) :
    Tidy budget w' where
  limit := limit.trans tidy.limit
  inFlight := by
    rw [inFlight, tidy.inFlight, appended, bytes_append]
    simp [bytes]
  within := within
  kept := kept
  drained := by
    have : w'.drained = w.drained.handle item := by
      unfold ScheduledWriter.drained
      rw [appended, disk, List.foldl_append]
      rfl
    rw [this]
    exact drained

theorem Tidy.openRun (tidy : Tidy budget w) (free : w.handing = none) (key : RunKey) (spec : RunSpec) :
    Tidy budget (w.openRun key spec) := by
  refine tidy.append _ rfl rfl (pending_queue _ free) (by simp [ScheduledWriter.openRun, WriteItem.nbytes]) tidy.within
    (kept_update tidy.kept key fun run isNew => ?_) (tidy.drained.opening key spec)
  obtain rfl := Option.some.inj isNew
  exact ⟨List.forall_mem_nil _, rfl, of_nil⟩

theorem Tidy.putOp (tidy : Tidy budget w) (free : w.handing = none) (key : RunKey) {op : Op α} (some : 0 < op.length) :
    Tidy budget (w.putOp key op).1 := by
  unfold ScheduledWriter.putOp
  cases isOpen : w.enq key with
  | none => exact tidy
  | some run =>
    have kept := tidy.kept key run isOpen
    cases op with
    | iq data =>
      simp only
      split_ifs with fits
      · have limit := tidy.limit
        refine tidy.append (.iq key data) rfl rfl ?_ rfl (by simpa [limit] using fits)
          (kept_update tidy.kept key ?_) (tidy.drained.add isOpen rfl fun file isFile => ?_)
        · simp [pending, free]
        · intro r isNew
          obtain rfl := Option.some.inj isNew
          exact kept.add (.iq data) false some (by simp) rfl rfl rfl
        · simp [handle, isFile, Asked.file]
      · refine tidy.append (.zeros key data.length) rfl rfl (pending_queue _ free) (by simp [WriteItem.nbytes])
          tidy.within (kept_update tidy.kept key ?_) (tidy.drained.add isOpen rfl fun file isFile => ?_)
        · intro r isNew
          obtain rfl := Option.some.inj isNew
          exact kept.add (.iq data) true some (by simp [Op.isZeros]) rfl rfl rfl
        · simp [handle, isFile, Asked.file, zeroLoop_eq, Op.length]
    | zeros count =>
      refine tidy.append (.zeros key count) rfl rfl (pending_queue _ free) (by simp [WriteItem.nbytes])
        tidy.within (kept_update tidy.kept key ?_) (tidy.drained.add isOpen rfl fun file isFile => ?_)
      · intro r isNew
        obtain rfl := Option.some.inj isNew
        exact kept.add (.zeros count) false some (by simp) rfl rfl rfl
      · simp [handle, isFile, Asked.file, zeroLoop_eq, Op.length]

theorem Tidy.putGrid (tidy : Tidy budget w) (free : w.handing = none) (key : RunKey) (rows : List (List β)) :
    Tidy budget (w.putGrid key rows).1 := by
  unfold ScheduledWriter.putGrid
  simp only
  split_ifs with nothing full
  · exact tidy
  · exact tidy
  · have limit := tidy.limit
    refine tidy.append (.grid key rows) rfl rfl ?_ rfl ?_ tidy.kept (tidy.drained.grid key rows)
    · simp [pending, free]
    · simpa [limit] using full

theorem Tidy.close (tidy : Tidy budget w) (free : w.handing = none) {key : RunKey} {info : CloseInfo}
    (gaps : ∀ run ∈ w.enq key, info.gaps = cutterGaps 0 [] (run.asked.map Prod.fst)) :
    Tidy budget (w.close key info) := by
  unfold ScheduledWriter.close
  cases isOpen : w.enq key with
  | none => exact tidy
  | some run =>
    exact tidy.append _ rfl rfl (pending_queue _ free) (by simp [WriteItem.nbytes]) tidy.within
      (kept_update tidy.kept key (by simp))
      (tidy.drained.closing isOpen (tidy.kept key run isOpen) (gaps run isOpen) rfl)

theorem Tidy.step {a : Act α β} (tidy : Tidy budget w) (ofCutter : a.OfCutter w) (taken : w.step a = some w') :
    Tidy budget w' := by
  cases a with
  | openRun key spec =>
    obtain ⟨free, same⟩ := Option.ite_none_right_eq_some.mp taken
    obtain rfl := Option.some.inj same
    exact tidy.openRun (Option.isNone_iff_eq_none.mp free) key spec
  | putOp key op =>
    obtain ⟨free, same⟩ := Option.ite_none_right_eq_some.mp taken
    obtain rfl := Option.some.inj same
    exact tidy.putOp (Option.isNone_iff_eq_none.mp free) key ofCutter
  | putGrid key rows =>
    obtain ⟨free, same⟩ := Option.ite_none_right_eq_some.mp taken
    obtain rfl := Option.some.inj same
    exact tidy.putGrid (Option.isNone_iff_eq_none.mp free) key rows
  | close key info =>
    obtain ⟨free, same⟩ := Option.ite_none_right_eq_some.mp taken
    obtain rfl := Option.some.inj same
    exact tidy.close (Option.isNone_iff_eq_none.mp free) ofCutter
  | put =>
    obtain ⟨item, isHanding, rfl⟩ := Option.map_eq_some_iff.mp taken
    -- the item only moves
    have same : w.writing.toList ++ (w.queue ++ [item]) ++ (none : Option (WriteItem α β)).toList = w.pending := by
      simp [pending, isHanding]
    refine ⟨tidy.limit, ?_, tidy.within, tidy.kept, ?_⟩
    · rw [tidy.inFlight, ← same]
      rfl
    · have drained := tidy.drained
      unfold ScheduledWriter.drained at drained
      rw [← same] at drained
      exact drained
  | get =>
    simp only [ScheduledWriter.step] at taken
    cases idle : w.writing with
    | some _ => simp [idle] at taken
    | none =>
      cases queued : w.queue with
      | nil => simp [idle, queued] at taken
      | cons item queue =>
        simp only [idle, queued, Option.some.injEq] at taken
        subst taken
        have same : (some item).toList ++ queue ++ w.handing.toList = w.pending := by
          simp [pending, idle, queued]
        refine ⟨tidy.limit, ?_, tidy.within, tidy.kept, ?_⟩
        · rw [tidy.inFlight, ← same]
          rfl
        · have drained := tidy.drained
          unfold ScheduledWriter.drained at drained
          rw [← same] at drained
          exact drained
  | handle =>
    obtain ⟨item, isWriting, rfl⟩ := Option.map_eq_some_iff.mp taken
    have split : w.pending = item :: (w.queue ++ w.handing.toList) := by
      simp [pending, isWriting]
    have inFlight := tidy.inFlight
    rw [split] at inFlight
    simp only [bytes, List.map_cons, List.sum_cons] at inFlight
    refine ⟨tidy.limit, ?_, ?_, tidy.kept, ?_⟩
    · simp only [pending, Option.toList_none, List.nil_append, bytes]
      omega
    · have within := tidy.within
      simp only
      omega
    · have drained := tidy.drained
      unfold ScheduledWriter.drained at drained
      rw [split] at drained
      exact drained

theorem finished_handle (item : WriteItem α β) (d : WriterDisk α β) : d.finished <+: (d.handle item).finished := by
  cases item with
  | opening key spec => exact List.prefix_refl _
  | iq key data => simp only [handle]; cases d.files key <;> exact List.prefix_refl _
  | zeros key count => simp only [handle]; cases d.files key <;> exact List.prefix_refl _
  | grid key rows => simp only [handle]; cases d.files key <;> exact List.prefix_refl _
  | closing key info asked =>
    simp only [handle]
    cases d.files key with
    | none => exact List.prefix_refl _
    | some file => exact List.prefix_append ..

theorem finished_drained (w : ScheduledWriter α β) : w.disk.finished <+: w.drained.finished := by
  unfold ScheduledWriter.drained
  induction w.pending generalizing w with
  | nil => exact List.prefix_refl _
  | cons item items ih => exact (finished_handle item w.disk).trans (ih { w with disk := w.disk.handle item })

/-- A closed run will be finished with all that was asked for in it. -/
theorem close_finishes (tidy : Tidy budget w) (free : w.handing = none) {key : RunKey} {run : Enqueued α}
    (isOpen : w.enq key = some run) (info : CloseInfo) :
    ∃ f, (w.close key info).drained.finished = w.drained.finished ++ [f] ∧ f.key = key ∧ f.asked = run.asked := by
  have files := tidy.drained.files key
  rw [isOpen, Option.map_some] at files
  obtain ⟨file, isFile, -⟩ := Option.map_eq_some_iff.mp files
  have last : (w.close key info).drained =
      w.drained.handle (.closing key { info with writerRefused := run.refused } run.asked) := by
    unfold ScheduledWriter.drained ScheduledWriter.close
    simp only [isOpen, pending, free, Option.toList_none, List.append_nil, ← List.append_assoc, List.foldl_append]
    rfl
  refine ⟨finish key file { info with writerRefused := run.refused } run.asked, ?_, rfl, rfl⟩
  rw [last]
  simp only [handle, isFile]

/-- Every run that is closed is finished, its file is what was asked for, and
its metadata name what is zero. What the budget is charged with is what was
accepted and is not written yet, in the queue or in a thread's hands. -/
theorem Reach.loses_only_reported (reach : Reach budget Act.OfCutter w) :
    (∀ f ∈ w.disk.finished, Reported f) ∧
    (∀ key, ∀ run ∈ w.enq key, w.handing = none → ∀ info, ∃ f,
      (w.close key info).drained.finished = w.drained.finished ++ [f] ∧ f.key = key ∧ f.asked = run.asked) ∧
    w.inFlight = bytes w.pending ∧ w.inFlight ≤ budget ∧
    (w.writing = none → w.handing = none → w.inFlight = bytes w.queue) := by
  have first : Tidy budget (create budget : ScheduledWriter α β) :=
    ⟨rfl, rfl, Nat.cast_nonneg _, fun _ _ isOpen => (by cases isOpen), ⟨fun _ => rfl, List.forall_mem_nil _⟩⟩
  have tidy := reach.invariant first fun _ _ _ tidy meets taken => tidy.step meets taken
  refine ⟨fun f member => tidy.drained.finished f ((finished_drained w).subset member),
    fun key run isOpen free info => close_finishes tidy free isOpen info, tidy.inFlight, tidy.within, ?_⟩
  intro idle free
  rw [tidy.inFlight]
  simp [pending, idle, free]

end Steps

section Runs

def threeSamples : RunSpec := ⟨"s", 0, 0, 3, 1000, 100, ""⟩

/-- Two samples take the whole budget; the third is refused while the writer
has not come to them. -/
def refusing : List (Act Nat Nat) :=
  [.openRun ("s", 0) threeSamples, .putOp ("s", 0) (.iq [7, 8]), .put, .putOp ("s", 0) (.iq [9]),
    .close ("s", 0) ⟨some .recorded, [], []⟩, .get, .handle, .get, .handle, .get, .handle, .get, .handle]

theorem Reach.loses_only_reported_refused : ∃ w : ScheduledWriter Nat Nat,
    (w.disk.finished.map fun f => (f.samples, f.zeroFilled, f.zeroFilledSamples, f.status)) =
      [([7, 8, 0], [(2, 1)], 1, .partialRun)] ∧
    (∀ f ∈ w.disk.finished, Reported f) ∧
    (∀ key, ∀ run ∈ w.enq key, w.handing = none → ∀ info, ∃ f,
      (w.close key info).drained.finished = w.drained.finished ++ [f] ∧ f.key = key ∧ f.asked = run.asked) ∧
    w.inFlight = bytes w.pending ∧ w.inFlight ≤ (8 : Nat) ∧
    (w.writing = none → w.handing = none → w.inFlight = bytes w.queue) := by
  have files : (Runs.follow step (create 8) refusing).map
      (fun w => w.disk.finished.map fun f => (f.samples, f.zeroFilled, f.zeroFilledSamples, f.status)) =
      some [([7, 8, 0], [(2, 1)], 1, .partialRun)] := by decide +kernel
  have meets : Runs.Meets step Act.OfCutter (create 8) refusing := by decide +kernel
  obtain ⟨w, goes, same⟩ := Option.map_eq_some_iff.mp files
  exact ⟨w, same, Reach.loses_only_reported (Runs.Reach.start.follow meets goes)⟩

/-- While the writer thread writes an item, the item is out of the queue and
still charged. -/
theorem queued_bytes_fails : ¬ ∀ w : ScheduledWriter Nat Nat, Reach 8 Act.OfCutter w →
    (∀ f ∈ w.disk.finished, Reported f) ∧ w.inFlight = bytes w.queue ∧ w.inFlight ≤ (8 : Nat) ∧
      (w.queue = [] → w.inFlight = 0) := by
  intro claimed
  let acts : List (Act Nat Nat) :=
    [.openRun ("s", 0) threeSamples, .get, .handle, .putOp ("s", 0) (.iq [7, 8]), .put, .get]
  have charged : (Runs.follow step (create 8) acts).map (fun w => (bytes w.queue, w.inFlight)) = some (0, 8) := by
    decide +kernel
  have meets : Runs.Meets step Act.OfCutter (create 8) acts := by decide +kernel
  obtain ⟨w, goes, same⟩ := Option.map_eq_some_iff.mp charged
  obtain ⟨queued, inFlight⟩ := Prod.mk.inj same
  have equal := (claimed w (Runs.Reach.start.follow meets goes)).2.1
  rw [queued, inFlight] at equal
  exact absurd equal (by decide)

end Runs

end ScheduledWriter
end RFObserver
