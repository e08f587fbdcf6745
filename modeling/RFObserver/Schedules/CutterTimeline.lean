import RFObserver.Schedules.Cutter

namespace RFObserver
open LossyStream

variable {α : Type*}

/-- The time-samples an operation writes, `none` standing for a zero. -/
def Op.timeSamples : Op α → List (Option α)
  | .iq data => data.map some
  | .zeros count => List.replicate count none

def timeSamples (ops : List (Op α)) : List (Option α) := ops.flatMap Op.timeSamples

/-- What the operations put into the file. -/
def fileSamples [Zero α] (ops : List (Op α)) : List α :=
  ops.flatMap fun
    | .iq data => data
    | .zeros count => List.replicate count 0

/-- A received sample as itself, a lost one as zero. -/
def sampleOrZero [Zero α] (x : Option α) : α := x.getD 0

theorem fileSamples_eq [Zero α] (ops : List (Op α)) : fileSamples ops = (timeSamples ops).map sampleOrZero := by
  unfold fileSamples timeSamples
  rw [List.map_flatMap]
  congr 1
  funext op
  cases op with
  | iq data => simp [Op.timeSamples, Function.comp_def, sampleOrZero]
  | zeros count => simp [Op.timeSamples, sampleOrZero]

theorem timeSamples_append (a b : List (Op α)) : timeSamples (a ++ b) = timeSamples a ++ timeSamples b :=
  List.flatMap_append

namespace RunCutter

/-- From `f` to `g` the time-samples `t` were offered to the run: it took as
many as it had room for and is done when it is full. -/
structure Emits (f g : Feeding α) (t : List (Option α)) : Prop where
  spec : g.1.spec = f.1.spec
  started : g.1.started = f.1.started
  late : g.1.late = f.1.late
  ops : timeSamples g.2 = timeSamples f.2 ++ t.take f.1.room
  written : g.1.written = f.1.written + (t.take f.1.room).length
  full : (f.1.done = true → f.1.room = 0) → g.1.done = true → g.1.room = 0

theorem Emits.room {f g : Feeding α} {t : List (Option α)} (emits : Emits f g t) :
    g.1.room = f.1.room - t.length := by
  have written := emits.written
  simp only [RunCutter.room, List.length_take] at written ⊢
  rw [emits.spec]
  omega

theorem Emits.trans {f g h : Feeding α} {t u : List (Option α)} (first : Emits f g t) (second : Emits g h u) :
    Emits f h (t ++ u) where
  spec := second.spec.trans first.spec
  started := second.started.trans first.started
  late := second.late.trans first.late
  ops := by
    rw [second.ops, first.ops, first.room, List.take_append, List.append_assoc]
  written := by
    have one := first.written
    have two := second.written
    rw [first.room] at two
    simp only [List.length_take, List.length_append] at one two ⊢
    omega
  full := fun before => second.full (first.full before)

/-- Fields that only record where the run lies do not matter to what it emits. -/
theorem Emits.relabel {f f' g : Feeding α} {t : List (Option α)} (emits : Emits f' g t)
    (spec : f'.1.spec = f.1.spec) (started : f'.1.started = f.1.started) (late : f'.1.late = f.1.late)
    (written : f'.1.written = f.1.written) (done : f'.1.done = f.1.done) (ops : f'.2 = f.2) : Emits f g t := by
  have room : f'.1.room = f.1.room := by rw [RunCutter.room, RunCutter.room, spec, written]
  exact {
    spec := emits.spec.trans spec
    started := emits.started.trans started
    late := emits.late.trans late
    ops := by rw [emits.ops, ops, room]
    written := by rw [emits.written, written, room]
    full := fun before => emits.full (by rw [done, room]; exact before) }

@[simp] theorem checkDone_spec (c : RunCutter) : c.checkDone.spec = c.spec := by
  unfold checkDone; split <;> rfl

@[simp] theorem checkDone_started (c : RunCutter) : c.checkDone.started = c.started := by
  unfold checkDone; split <;> rfl

@[simp] theorem checkDone_late (c : RunCutter) : c.checkDone.late = c.late := by
  unfold checkDone; split <;> rfl

@[simp] theorem checkDone_written (c : RunCutter) : c.checkDone.written = c.written := by
  unfold checkDone; split <;> rfl

@[simp] theorem checkDone_gaps (c : RunCutter) : c.checkDone.gaps = c.gaps := by
  unfold checkDone; split <;> rfl

theorem checkDone_full {c : RunCutter} (before : c.done = true → c.room = 0) :
    c.checkDone.done = true → c.checkDone.room = 0 := by
  unfold checkDone
  split
  · intro _
    simp only [room]
    omega
  · exact before

theorem iq_emits (f : Feeding α) (data : List α) : Emits f (iq f data) (data.map some) := by
  unfold iq
  simp only
  split
  · rename_i some
    refine ⟨by simp, by simp, by simp, ?_, by simp; omega, ?_⟩
    · rw [timeSamples_append]
      simp only [timeSamples, List.flatMap_cons, List.flatMap_nil, List.append_nil, Op.timeSamples]
      have same : data.take (min data.length f.1.room) = data.take f.1.room := by
        rw [List.take_eq_take_iff]
        omega
      rw [← List.map_take, same]
    · intro before
      refine checkDone_full fun done => ?_
      have := before done
      simp only [room] at this ⊢
      omega
  · rename_i none
    have nothing : (data.map Option.some).take f.1.room = [] := by
      rw [List.take_eq_nil_iff, List.map_eq_nil_iff, ← List.length_eq_zero_iff]
      omega
    exact ⟨by simp, by simp, by simp, by rw [nothing, List.append_nil], by rw [nothing]; simp, checkDone_full⟩

theorem zeros_emits (f : Feeding α) (count pos : Nat) (shifts : Bool) :
    Emits f (zeros f count pos shifts) (List.replicate count none) := by
  unfold zeros
  simp only
  split
  · rename_i some
    refine ⟨by simp, by simp, by simp, ?_, by simp; omega, ?_⟩
    · rw [timeSamples_append]
      simp only [timeSamples, List.flatMap_cons, List.flatMap_nil, List.append_nil, Op.timeSamples,
        List.take_replicate]
      rw [Nat.min_comm]
    · intro before
      refine checkDone_full fun done => ?_
      have := before done
      simp only [room] at this ⊢
      omega
  · rename_i none
    have nothing : (List.replicate count (Option.none : Option α)).take f.1.room = [] := by
      rw [List.take_eq_nil_iff, List.replicate_eq_nil_iff]
      omega
    exact ⟨by simp, by simp, by simp, by rw [nothing, List.append_nil], by rw [nothing]; simp, checkDone_full⟩

theorem chunkLoop_emits (samples : List α) (chunkStart start pos : Nat) (gaps : Gaps) (f : Feeding α) :
    Emits f (chunkLoop samples chunkStart start pos gaps f)
      (splice pos (gaps.filter fun g => start < g.1) samples) := by
  induction gaps generalizing pos f with
  | nil => exact iq_emits f _
  | cons g gaps ih =>
    unfold chunkLoop
    split
    · rename_i passed
      rw [List.filter_cons_of_neg (by simpa using passed)]
      exact ih pos f
    · rename_i ahead
      rw [List.filter_cons_of_pos (by simpa using ahead), splice]
      exact ((iq_emits f _).trans (zeros_emits _ _ _ _)).trans (ih g.1 _)

theorem chunk_emits (f : Feeding α) (samples : List α) (chunkStart start : Nat) (gaps : Gaps) :
    Emits f (chunk f samples chunkStart start gaps)
      (splice start (gaps.filter fun g => start < g.1) samples) :=
  chunkLoop_emits samples chunkStart start start gaps f

theorem placeLoop_ge {target n lostBefore pos : Nat} {gaps : Gaps} (rising : Rising pos n gaps)
    (inside : pos ≤ n) (reached : pos + lostBefore ≤ target) : pos ≤ (placeLoop target n lostBefore gaps).1 := by
  induction gaps generalizing pos lostBefore with
  | nil => simp only [placeLoop]; omega
  | cons g gaps ih =>
    obtain ⟨above, below⟩ := rising.2 g (List.mem_cons_self ..)
    unfold placeLoop
    split_ifs
    · dsimp only; omega
    · exact above.le
    · have later : g.1 ≤ (placeLoop target n (lostBefore + g.2) gaps).1 := ih rising.tail below.le (by omega)
      omega

/-- `place` finds time-sample `target`: from there on the chunk's time-samples
are the zeros it returns and the chunk from its offset. -/
theorem placeLoop_drop {target lostBefore pos : Nat} {gaps : Gaps} {xs : List α}
    (rising : Rising pos xs.length gaps) (inside : pos ≤ xs.length) (reached : pos + lostBefore ≤ target) :
    (splice pos gaps xs).drop (target - (pos + lostBefore)) =
      List.replicate (placeLoop target xs.length lostBefore gaps).2 none ++
        splice (placeLoop target xs.length lostBefore gaps).1
          (gaps.filter fun g => (placeLoop target xs.length lostBefore gaps).1 < g.1) xs := by
  induction gaps generalizing pos lostBefore with
  | nil =>
    simp only [placeLoop, List.filter_nil, splice, List.replicate_zero, List.nil_append]
    rw [← List.map_drop, List.drop_drop]
    congr 1
    rw [List.drop_eq_drop_iff]
    omega
  | cons g gaps ih =>
    obtain ⟨above, below⟩ := rising.2 g (List.mem_cons_self ..)
    have later := rising.tail
    have width : (((xs.take g.1).drop pos).map some).length = g.1 - pos := by simp; omega
    unfold placeLoop
    split_ifs with ahead within
    · have off : min (target - lostBefore) xs.length = target - lostBefore := by omega
      have kept : (g :: gaps).filter (fun h => target - lostBefore < h.1) = g :: gaps := by
        rw [List.filter_eq_self]
        intro h member
        rcases List.mem_cons.mp member with rfl | tail
        · simp; omega
        · have := (later.2 h tail).1
          simp; omega
      simp only [off, kept, splice, List.replicate_zero, List.nil_append]
      rw [List.append_assoc, List.drop_append_of_le_length (by omega), ← List.map_drop, List.drop_drop,
        List.append_assoc]
      congr 4
      omega
    · have kept : (g :: gaps).filter (fun h => g.1 < h.1) = gaps := by
        rw [List.filter_cons_of_neg (by simp), List.filter_eq_self]
        intro h member
        simpa using (later.2 h member).1
      simp only [kept, splice]
      rw [List.append_assoc, List.drop_append, List.drop_eq_nil_of_le (by omega), List.nil_append, width,
        List.drop_append_of_le_length (by simp; omega), List.drop_replicate]
      congr 2
      omega
    · have counted : g.1 + (lostBefore + g.2) ≤ target := by omega
      have rest := ih later below.le counted
      have passed := placeLoop_ge later below.le counted
      rw [List.filter_cons_of_neg (by simpa using passed), ← rest, splice, List.drop_append,
        List.drop_eq_nil_of_le (by simp; omega), List.nil_append]
      congr 1
      simp
      omega

end RunCutter

/-- A chunk as the receiver hands it over: its samples and its receive gaps.
Those at offset 0 lie before its first sample, the others inside it. -/
structure Chunk (α : Type*) where
  data : List α
  gaps : Gaps
  inside : ∀ g ∈ gaps, g.1 = 0 ∨ g.1 < data.length
  distinct : ((gaps.filter fun g => 0 < g.1).map Prod.fst).Nodup

namespace Chunk

/-- The samples lost right before the chunk. -/
def before (k : Chunk α) : Nat := lostAt k.gaps 0

/-- The chunk's stretch of the timeline, a lost sample being `none`. -/
def timeSamples (k : Chunk α) : List (Option α) :=
  List.replicate k.before none ++ spread (k.gaps.filter fun g => 0 < g.1) 0 k.data

theorem splitGaps_before (k : Chunk α) : (splitGaps k.gaps).1 = k.before := by
  change lostWhere (· ≤ 0) k.gaps = lostWhere (· = 0) k.gaps
  exact lostWhere_congr fun _ _ => Nat.le_zero

theorem inner_perm (k : Chunk α) : (splitGaps k.gaps).2.Perm (k.gaps.filter fun g => 0 < g.1) :=
  List.perm_insertionSort ..

theorem inner_rising (k : Chunk α) : Rising 0 k.data.length (splitGaps k.gaps).2 := by
  have same := k.inner_perm
  constructor
  · have ordered : (splitGaps k.gaps).2.Pairwise gapLe :=
      List.pairwise_insertionSort gapLe _
    have apart : ((splitGaps k.gaps).2.map Prod.fst).Nodup := (same.map Prod.fst).nodup_iff.mpr k.distinct
    rw [List.Nodup, List.pairwise_map] at apart
    refine (ordered.and apart).imp ?_
    rintro a b ⟨le | ⟨equal, _⟩, ne⟩
    · exact le
    · exact absurd equal ne
  · intro g member
    have original := same.mem_iff.mp member
    rw [List.mem_filter] at original
    have positive : 0 < g.1 := by simpa using original.2
    have := k.inside g original.1
    omega

theorem timeSamples_eq_splice (k : Chunk α) :
    k.timeSamples = List.replicate k.before none ++ splice 0 (splitGaps k.gaps).2 k.data := by
  rw [timeSamples, ← spread_eq_splice k.inner_rising, List.drop_zero]
  congr 1
  exact spread_congr fun _ _ => (lostWhere_perm k.inner_perm).symm

/-- Time-samples from the chunk's first sample to its end. -/
def span (k : Chunk α) : Nat := k.data.length + ((splitGaps k.gaps).2.map Prod.snd).sum

theorem timeSamples_length (k : Chunk α) : k.timeSamples.length = k.before + k.span := by
  have inner : lostWhere (fun j => 0 ≤ j ∧ j < 0 + k.data.length) (splitGaps k.gaps).2 =
      ((splitGaps k.gaps).2.map Prod.snd).sum := by
    rw [lostWhere_congr (q := fun _ => True) fun g member => by have := (k.inner_rising.2 g member).2; simp; omega]
    simp [lostWhere]
  rw [timeSamples_eq_splice, ← spread_eq_splice k.inner_rising, List.length_append, List.length_replicate,
    spread_length, List.drop_zero, inner, span]

theorem timeSamples_received (k : Chunk α) : k.timeSamples.reduceOption = k.data := by
  rw [timeSamples, List.reduceOption_append, List.reduceOption_replicate_none, spread_received, List.nil_append]

end Chunk

namespace RunCutter

theorem chunk_emits_whole (f : Feeding α) (k : Chunk α) (chunkStart : Nat) :
    Emits f (chunk f k.data chunkStart 0 (splitGaps k.gaps).2) (splice 0 (splitGaps k.gaps).2 k.data) := by
  have emits := chunk_emits f k.data chunkStart 0 (splitGaps k.gaps).2
  rwa [List.filter_eq_self.mpr fun g member => by simpa using (k.inner_rising.2 g member).1] at emits

theorem continueRun_emits {c : RunCutter} (k : Chunk α) {chunkStart : Nat} (next : c.nextPos = chunkStart) :
    Emits (c, []) (c.continueRun k.data chunkStart k.gaps) k.timeSamples := by
  unfold continueRun
  rw [k.timeSamples_eq_splice, ← k.splitGaps_before]
  simp only [next, lt_irrefl, if_false]
  have emits := (zeros_emits (c, []) (splitGaps k.gaps).1 chunkStart true).trans (chunk_emits_whole _ k chunkStart)
  exact ⟨emits.spec, emits.started, emits.late, emits.ops, emits.written, emits.full⟩

/-- The start falls in this chunk or in the samples lost right before it. -/
theorem beginInChunk_emits (c : RunCutter) (k : Chunk α) (chunkStart target : Nat) :
    Emits (c, []) (beginInChunk c k.data chunkStart target (splitGaps k.gaps).2)
      (k.timeSamples.drop (k.before + target)) := by
  have sorted : sortedGaps (splitGaps k.gaps).2 = (splitGaps k.gaps).2 :=
    (List.pairwise_insertionSort gapLe _).insertionSort_eq
  have found := placeLoop_drop k.inner_rising (Nat.zero_le _) (show 0 + 0 ≤ target from Nat.zero_le _)
  unfold beginInChunk
  rw [place, sorted, k.timeSamples_eq_splice, List.drop_append, List.drop_eq_nil_of_le (by simp), List.nil_append,
    List.length_replicate, show k.before + target - k.before = target - (0 + 0) by omega, found]
  exact ((zeros_emits _ _ _ _).trans (chunk_emits _ _ _ _ _)).relabel rfl rfl rfl rfl rfl rfl

theorem beginInLoss_emits (c : RunCutter) (k : Chunk α) (chunkStart : Nat) {back : Nat} (within : back ≤ k.before) :
    Emits (c, []) (beginInLoss c k.data chunkStart back (splitGaps k.gaps).2)
      (k.timeSamples.drop (k.before - back)) := by
  unfold beginInLoss
  rw [k.timeSamples_eq_splice, List.drop_append_of_le_length (by simp), List.drop_replicate,
    show k.before - (k.before - back) = back by omega]
  exact ((zeros_emits _ _ _ _).trans (chunk_emits_whole _ _ _)).relabel rfl rfl rfl rfl rfl rfl

/-- The oldest position before the chunk at `chunkStart` that can be read back. -/
def heldFrom (ring : Option (CircularBuffer α)) (chunkStart : Nat) : Nat :=
  match ring with
  | some r => min r.bounds.1 chunkStart
  | none => chunkStart

theorem readBack_eq {s data : List α} {ring : Option (CircularBuffer α)}
    (holds : ∀ r ∈ ring, r.Holds (s ++ data)) {p0 : ℤ} (older : p0 < s.length) :
    readBack ring s.length p0 =
      ((max p0 (heldFrom ring s.length)).toNat,
        if (max p0 (heldFrom ring s.length)).toNat < s.length then
          some (s.drop (max p0 (heldFrom ring s.length)).toNat)
        else none) := by
  cases ring with
  | none =>
    have all : (max p0 (s.length : ℤ)).toNat = s.length := by omega
    simp [readBack, heldFrom, all]
  | some r =>
    have held := holds r rfl
    have low := held.bounds
    simp only [readBack, heldFrom]
    obtain ⟨wanted, wantedEq⟩ : ∃ w, (max p0 ((min r.bounds.1 s.length : Nat) : ℤ)).toNat = w := ⟨_, rfl⟩
    simp only [wantedEq]
    by_cases recent : wanted < s.length
    · have oldest : r.bounds.1 ≤ wanted := by omega
      rw [low] at oldest
      have window : ((s ++ data).drop wanted).take (s.length - wanted) = s.drop wanted := by
        rw [List.drop_append_of_le_length (by omega), List.take_left' (by simp)]
      have read := held.readRange wanted s.length
      rw [if_pos ⟨recent, oldest, by simp⟩, window] at read
      simp [recent, read]
    · have all : wanted = s.length := by omega
      simp [all]

theorem beginInRing_emits (c : RunCutter) (k : Chunk α) {s : List α} {ring : Option (CircularBuffer α)}
    (holds : ∀ r ∈ ring, r.Holds (s ++ k.data)) {p0 : ℤ} (older : p0 < s.length) (fresh : c.late = 0) :
    Emits ({ c with late := min (max p0 (heldFrom ring s.length) - p0).toNat c.spec.nSamples }, [])
      (beginInRing c k.data s.length p0 k.before (splitGaps k.gaps).2 ring)
      (List.replicate (max p0 (heldFrom ring s.length) - p0).toNat none ++
        (s.drop (max p0 (heldFrom ring s.length)).toNat).map some ++ k.timeSamples) := by
  have positive : (0 : ℤ) ≤ heldFrom ring s.length := by omega
  unfold beginInRing
  rw [readBack_eq holds older]
  generalize startEq : (max p0 (heldFrom ring s.length : ℤ)).toNat = start
  have cast : max p0 (heldFrom ring s.length : ℤ) = start := by omega
  rw [cast, k.timeSamples_eq_splice]
  dsimp only
  generalize lateEq : ((start : ℤ) - p0).toNat = late
  have filled : Emits ({ c with late := min late c.spec.nSamples }, [])
      (if late ≠ 0 then
        zeros ({ c with streamStart := some start, late := min late c.spec.nSamples }, []) late start true
      else ({ c with streamStart := some start }, [])) (List.replicate late (none : Option α)) := by
    split
    · exact (zeros_emits _ _ _ _).relabel rfl rfl rfl rfl rfl rfl
    · rename_i none
      have none : late = 0 := by omega
      subst none
      exact ⟨rfl, rfl, by simpa using fresh, by simp, by simp, id⟩
  by_cases held : start < s.length
  · simp only [if_pos held]
    exact (filled.trans (iq_emits _ _)).trans ((zeros_emits _ _ _ _).trans (chunk_emits_whole _ _ _))
  · have empty : s.drop start = [] := List.drop_eq_nil_iff.mpr (not_lt.mp held)
    simp only [if_neg held, empty, List.map_nil, List.append_nil]
    exact filled.trans ((zeros_emits _ _ _ _).trans (chunk_emits_whole _ _ _))

/-- The run's start in samples after the instant `t0`. -/
def requested (spec : RunSpec) (t0 : ℚ) : ℚ := ((spec.startMs : ℚ) / 1000 - t0) * spec.rateHz

open RoundHalfEven in
/-- Against a chunk whose first sample is time-sample `first`, the start is
rounded to the same time-sample as against the whole timeline. -/
theorem target_eq {c : RunCutter} {t0 : ℚ} {n : ℤ} (rate : 0 < c.spec.rateHz)
    (nearest : Nearest (requested c.spec t0) n) (first : Nat) :
    c.target (t0 + first / c.spec.rateHz) = n - first := by
  have moved : ((c.spec.startMs : ℚ) / 1000 - (t0 + first / c.spec.rateHz)) * c.spec.rateHz =
      requested c.spec t0 - (first : ℤ) := by
    rw [requested]
    push_cast
    field_simp
    ring
  rw [target, moved, nearest.shift]

theorem begin_notDue {c : RunCutter} {k : Chunk α} {chunkStart : Nat} {captureTime : ℚ}
    {ring : Option (CircularBuffer α)} (later : (k.span : ℤ) ≤ c.target captureTime) :
    c.begin k.data chunkStart captureTime k.gaps ring = (c, []) := by
  unfold begin
  exact if_pos later

theorem begin_emits (c : RunCutter) (k : Chunk α) (chunkStart : Nat) {captureTime : ℚ}
    {ring : Option (CircularBuffer α)} (due : c.target captureTime < k.span)
    (within : 0 ≤ c.target captureTime + k.before) :
    Emits ({ c with started := true }, []) (c.begin k.data chunkStart captureTime k.gaps ring)
      (k.timeSamples.drop (k.before + c.target captureTime).toNat) := by
  unfold begin
  simp only [k.splitGaps_before]
  rw [if_neg (by simpa [Chunk.span] using due)]
  by_cases here : 0 ≤ c.target captureTime
  · rw [if_pos here, show (k.before + c.target captureTime).toNat = k.before + (c.target captureTime).toNat by omega]
    have emits := beginInChunk_emits { c with
      started := true
      firstTime := some (captureTime + c.target captureTime / c.spec.rateHz)
      errorNs := some (roundHalfEven ((c.target captureTime / c.spec.rateHz -
        ((c.spec.startMs : ℚ) / 1000 - captureTime)) * 1000000000)) } k chunkStart (c.target captureTime).toNat
    exact ⟨emits.spec, emits.started, emits.late, emits.ops, emits.written, emits.full⟩
  · rw [if_neg here, if_pos within,
      show (k.before + c.target captureTime).toNat = k.before - (-c.target captureTime).toNat by omega]
    have emits := beginInLoss_emits { c with
      started := true
      firstTime := some (captureTime + c.target captureTime / c.spec.rateHz)
      errorNs := some (roundHalfEven ((c.target captureTime / c.spec.rateHz -
        ((c.spec.startMs : ℚ) / 1000 - captureTime)) * 1000000000)) } k chunkStart
        (show (-c.target captureTime).toNat ≤ k.before by omega)
    exact ⟨emits.spec, emits.started, emits.late, emits.ops, emits.written, emits.full⟩

theorem begin_emits_ring (c : RunCutter) (k : Chunk α) {s : List α} {captureTime : ℚ}
    {ring : Option (CircularBuffer α)} (holds : ∀ r ∈ ring, r.Holds (s ++ k.data)) (fresh : c.late = 0)
    {p0 : ℤ} (position : p0 = s.length + c.target captureTime + k.before) (older : p0 < s.length) :
    Emits ({ c with started := true, late := min (max p0 (heldFrom ring s.length) - p0).toNat c.spec.nSamples }, [])
      (c.begin k.data s.length captureTime k.gaps ring)
      (List.replicate (max p0 (heldFrom ring s.length) - p0).toNat none ++
        (s.drop (max p0 (heldFrom ring s.length)).toNat).map some ++ k.timeSamples) := by
  unfold begin
  simp only [k.splitGaps_before]
  rw [if_neg (by omega), if_neg (by omega), if_neg (by omega), ← position]
  have emits := beginInRing_emits { c with
    started := true
    firstTime := some (captureTime + c.target captureTime / c.spec.rateHz)
    errorNs := some (roundHalfEven ((c.target captureTime / c.spec.rateHz -
      ((c.spec.startMs : ℚ) / 1000 - captureTime)) * 1000000000)) } k holds older fresh
  exact ⟨emits.spec, emits.started, emits.late, emits.ops, emits.written, emits.full⟩

theorem begin_nextPos {c : RunCutter} {k : Chunk α} {chunkStart : Nat} {captureTime : ℚ}
    {ring : Option (CircularBuffer α)} (due : c.target captureTime < k.span) :
    (c.begin k.data chunkStart captureTime k.gaps ring).1.nextPos = chunkStart + k.data.length := by
  unfold begin
  simp only
  rw [if_neg (by simpa [Chunk.span] using due)]

/-- Feed consecutive chunks, each written to the ring first. Time-sample 0 of
the timeline is at `t0`; the first chunk starts at stream position `pos` and
its losses at time-sample `idx`. -/
def feedAll (c : RunCutter) (ring : Option (CircularBuffer α)) (t0 : ℚ) (pos idx : Nat) :
    List (Chunk α) → Feeding α
  | [] => (c, [])
  | k :: ks =>
    let ring := ring.map (·.write k.data)
    let f := c.feed k.data pos (t0 + (idx + k.before : Nat) / c.spec.rateHz) k.gaps c.spec.centerFreqHz ring
    let g := feedAll f.1 ring t0 (pos + k.data.length) (idx + k.timeSamples.length) ks
    (g.1, f.2 ++ g.2)

/-- The part of the timeline the chunks bring. -/
def timeline (ks : List (Chunk α)) : List (Option α) := ks.flatMap Chunk.timeSamples

theorem feed_done {c : RunCutter} (done : c.done = true) (samples : List α) (chunkStart : Nat) (captureTime : ℚ)
    (gaps : Gaps) (center : ℚ) (ring : Option (CircularBuffer α)) :
    c.feed samples chunkStart captureTime gaps center ring = (c, []) := if_pos done

theorem feedAll_done {c : RunCutter} (done : c.done = true) (ring : Option (CircularBuffer α)) (t0 : ℚ)
    (pos idx : Nat) (ks : List (Chunk α)) : feedAll c ring t0 pos idx ks = (c, []) := by
  induction ks generalizing ring pos idx with
  | nil => rfl
  | cons k ks ih => simp only [feedAll, feed_done done, ih, List.nil_append]

theorem Emits.append {c : RunCutter} {f g : Feeding α} {t u : List (Option α)} (first : Emits (c, []) f t)
    (second : Emits (f.1, []) g u) : Emits (c, []) (g.1, f.2 ++ g.2) (t ++ u) := by
  have joined : Emits f (g.1, f.2 ++ g.2) u :=
    ⟨second.spec, second.started, second.late, by rw [timeSamples_append, second.ops]; rfl, second.written, second.full⟩
  exact first.trans joined

/-- A started run takes every later chunk whole, as far as it has room. -/
theorem feedAll_started {c : RunCutter} {ring : Option (CircularBuffer α)} {t0 : ℚ} {pos idx : Nat}
    {ks : List (Chunk α)} (started : c.started = true) (next : c.nextPos = pos) (full : c.done = true → c.room = 0) :
    Emits (c, []) (feedAll c ring t0 pos idx ks) (timeline ks) := by
  induction ks generalizing c ring pos idx with
  | nil => exact ⟨rfl, rfl, rfl, by simp [feedAll, timeline], by simp [feedAll, timeline], id⟩
  | cons k ks ih =>
    by_cases done : c.done = true
    · rw [feedAll_done done]
      have room := full done
      exact ⟨rfl, rfl, rfl, by simp [room], by simp [room], id⟩
    · have step := continueRun_emits k next
      have run : c.feed k.data pos (t0 + (idx + k.before : Nat) / c.spec.rateHz) k.gaps c.spec.centerFreqHz
          (ring.map (·.write k.data)) = c.continueRun k.data pos k.gaps := by
        rw [feed, if_neg done, if_pos started, if_neg (not_not.mpr rfl)]
      simp only [feedAll, run]
      exact step.append (ih (step.started.trans started) rfl (step.full full))

/-- The chunk a run starts in and every later one. -/
theorem Emits.feedAll {c : RunCutter} {f : Feeding α} {t : List (Option α)} {pos : Nat} (first : Emits (c, []) f t)
    (started : c.started = true) (running : c.done = false) (next : f.1.nextPos = pos)
    (ring : Option (CircularBuffer α)) (t0 : ℚ) (idx : Nat) (ks : List (Chunk α)) :
    Emits (c, []) ((RunCutter.feedAll f.1 ring t0 pos idx ks).1, f.2 ++ (RunCutter.feedAll f.1 ring t0 pos idx ks).2)
      (t ++ timeline ks) :=
  first.append (feedAll_started (first.started.trans started) next (first.full (by simp [running])))

theorem feed_pending (spec : RunSpec) (samples : List α) (chunkStart : Nat) (captureTime : ℚ) (gaps : Gaps)
    (center : ℚ) (ring : Option (CircularBuffer α)) :
    (create spec).feed samples chunkStart captureTime gaps center ring =
      (create spec).begin samples chunkStart captureTime gaps ring := rfl

/-- A run that has not started when time-sample `idx` comes, not later than
its start `n`, takes the timeline from `n` on. -/
theorem feedAll_pending {spec : RunSpec} (rate : 0 < spec.rateHz) {ring : Option (CircularBuffer α)} {t0 : ℚ}
    {pos idx n : Nat} (nearest : RoundHalfEven.Nearest (requested spec t0) n) (ahead : idx ≤ n) (ks : List (Chunk α)) :
    timeSamples (feedAll (create spec) ring t0 pos idx ks).2 = ((timeline ks).drop (n - idx)).take spec.nSamples ∧
      (feedAll (create spec) ring t0 pos idx ks).1.late = 0 := by
  induction ks generalizing ring pos idx with
  | nil => simp [feedAll, timeline, timeSamples, create]
  | cons k ks ih =>
    have target := target_eq (c := create spec) rate nearest (idx + k.before)
    have size := k.timeSamples_length
    have whole : timeline (k :: ks) = k.timeSamples ++ timeline ks := List.flatMap_cons
    push_cast at target
    simp only [feedAll, feed_pending, whole]
    push_cast
    obtain ⟨captureTime, time⟩ : ∃ t, t0 + ((idx : ℚ) + k.before) / (create spec).spec.rateHz = t := ⟨_, rfl⟩
    rw [time] at target ⊢
    by_cases due : (create spec).target captureTime < k.span
    · have begun : Emits ({ create spec with started := true }, []) ((create spec).begin k.data pos captureTime k.gaps (ring.map (·.write k.data)))
          (k.timeSamples.drop (k.before + (create spec).target captureTime).toNat) :=
        begin_emits (create spec) k pos due (by omega)
      have emits := begun.feedAll rfl rfl (begin_nextPos due) (ring.map (·.write k.data)) t0
        (idx + k.timeSamples.length) ks
      refine ⟨?_, emits.late⟩
      rw [emits.ops, target, List.drop_append_of_le_length (by omega)]
      simp only [timeSamples, List.flatMap_nil, List.nil_append]
      congr 2
      congr 1
      omega
    · rw [begin_notDue (not_lt.mp due)]
      have rest := @ih (ring.map (·.write k.data)) (pos + k.data.length) (idx + k.timeSamples.length) (by omega)
      have passed : (k.timeSamples ++ timeline ks).drop (n - idx) =
          (timeline ks).drop (n - (idx + k.timeSamples.length)) := by
        rw [List.drop_append, List.drop_eq_nil_of_le (by omega), List.nil_append]
        congr 1
        omega
      rw [List.nil_append, passed]
      exact rest

/-- A start before the first chunk: what the ring still holds of it is read
back, and everything older is zeros, counted as late. -/
theorem feedAll_late {spec : RunSpec} (rate : 0 < spec.rateHz) {prior : List (Option α)}
    {ring : Option (CircularBuffer α)} (holds : ∀ r ∈ ring, r.Holds prior.reduceOption) {t0 : ℚ} {n : ℤ}
    (nearest : RoundHalfEven.Nearest (requested spec t0) n) (older : n < prior.length) (k : Chunk α)
    (ks : List (Chunk α)) {held : Nat}
    (heldEq : prior.reduceOption.length - heldFrom (ring.map (·.write k.data)) prior.reduceOption.length = held)
    {first : Nat} (firstEq : (first : ℤ) = max n (prior.length - held))
    (lossless : ∀ x ∈ prior.drop first, x.isSome) :
    let f := feedAll (create spec) ring t0 prior.reduceOption.length prior.length (k :: ks)
    timeSamples f.2 = (List.replicate (first - n).toNat none ++ (prior ++ timeline (k :: ks)).drop first).take
        spec.nSamples ∧
      f.1.late = min (first - n).toNat spec.nSamples := by
  have target := target_eq (c := create spec) rate nearest (prior.length + k.before)
  have below : prior.reduceOption.length ≤ prior.length := List.reduceOption_length_le prior
  have whole : timeline (k :: ks) = k.timeSamples ++ timeline ks := List.flatMap_cons
  have written : ∀ r ∈ ring.map (·.write k.data), r.Holds (prior.reduceOption ++ k.data) := by
    intro r member
    obtain ⟨old, here, rfl⟩ := Option.map_eq_some_iff.mp member
    exact (holds old here).write
  have oldest : heldFrom (ring.map (·.write k.data)) prior.reduceOption.length ≤ prior.reduceOption.length := by
    unfold heldFrom
    split
    · exact Nat.min_le_right _ _
    · exact le_rfl
  push_cast at target
  simp only [feedAll, feed_pending, whole]
  push_cast
  obtain ⟨captureTime, time⟩ : ∃ t, t0 + ((prior.length : ℚ) + k.before) / (create spec).spec.rateHz = t := ⟨_, rfl⟩
  rw [time] at target ⊢
  have place : (prior.reduceOption.length + n - prior.length : ℤ) =
      prior.reduceOption.length + (create spec).target captureTime + k.before := by omega
  have emits := (begin_emits_ring (create spec) k written rfl place (by omega)).feedAll rfl rfl
    (begin_nextPos (by omega)) (ring.map (·.write k.data)) t0 (prior.length + k.timeSamples.length) ks
  have late : max ((prior.reduceOption.length : ℤ) + n - prior.length)
      (heldFrom (ring.map (·.write k.data)) prior.reduceOption.length) -
        (prior.reduceOption.length + n - prior.length) = first - n := by omega
  have start : (max ((prior.reduceOption.length : ℤ) + n - prior.length)
      (heldFrom (ring.map (·.write k.data)) prior.reduceOption.length)).toNat =
        prior.reduceOption.length - (prior.length - first) := by omega
  rw [late, start, drop_received lossless] at emits
  refine ⟨?_, emits.late⟩
  rw [emits.ops, List.drop_append_of_le_length (by omega)]
  simp only [timeSamples, List.flatMap_nil, List.nil_append, List.append_assoc]
  rfl

end RunCutter
end RFObserver
