import RFObserver.Processing.RowWindow

set_option linter.unusedSectionVars false

namespace RFObserver
open WrappedStore RollingBurstDetector

variable {K : Type*} [Field K] [LinearOrder K] [IsStrictOrderedRing K] {α : Type*}

/-- At a microsecond or more per row, a row's time gives the row back. -/
theorem rowOfMicros_rowMicros {timeResolution : ℚ} (coarse : 1 ≤ timeResolution * 1000000) (row : Int) :
    rowOfMicros timeResolution (rowMicros timeResolution row) = row := by
  have positive : 0 < timeResolution * 1000000 := by linarith
  have error := RoundHalfEven.abs_error_le (row * timeResolution * 1000000)
  have quotient : (rowMicros timeResolution row : ℚ) / 1000000 / timeResolution - row =
      -(row * timeResolution * 1000000 - roundHalfEven (row * timeResolution * 1000000)) /
        (timeResolution * 1000000) := by
    have nonzero : timeResolution ≠ 0 := by
      rintro rfl
      norm_num at coarse
    unfold rowMicros
    field_simp
    ring
  rcases coarse.eq_or_lt with unit | above
  · have exact : (row : ℚ) * timeResolution * 1000000 = row := by rw [mul_assoc, ← unit, mul_one]
    have same : (rowMicros timeResolution row : ℚ) / 1000000 / timeResolution = row := by
      rw [exact, RoundHalfEven.of_int, sub_self, neg_zero, zero_div] at quotient
      exact sub_eq_zero.mp quotient
    rw [rowOfMicros, same, RoundHalfEven.of_int]
  · refine RoundHalfEven.eq_of_near ?_
    rw [quotient, abs_div, abs_neg, abs_of_pos positive, div_lt_iff₀ positive]
    linarith

theorem DetectedBurst.timed_eq {b : DetectedBurst K} {timeResolution : ℚ} (coarse : 1 ≤ timeResolution * 1000000) :
    b.timed timeResolution = b := by
  simp only [DetectedBurst.timed, rowOfMicros_rowMicros coarse]

namespace GridFeed

variable (call : GridFeed α)

@[simp] theorem given_length : call.given.length = call.rows.length := by
  simp [given]

theorem rows_of_zip : (call.rows.zip call.given).map Prod.fst = call.rows :=
  List.map_fst_zip (by rw [given_length])

theorem given_of_zip : (call.rows.zip call.given).map Prod.snd = call.given :=
  List.map_snd_zip (by rw [given_length])

theorem zip_length : (call.rows.zip call.given).length = call.rows.length := by
  rw [List.length_zip, given_length, min_self]

/-- A row has a position only when the call gave the row size too. -/
theorem positions_of_given {p : Nat} (member : some p ∈ call.given) : (call.positions.map Prod.snd).isSome := by
  obtain ⟨i, _, given⟩ := List.mem_map.mp member
  obtain ⟨_, positions, _⟩ := Option.map_eq_some_iff.mp given
  rw [positions]
  rfl

end GridFeed

namespace RollingBurstDetector

variable [FloorRing K] {s : RollingBurstDetector K}

/-- Every track begins and ends within the rows written. -/
def TracksWithin (s : RollingBurstDetector K) : Prop :=
  ∀ t ∈ s.tracked, 0 ≤ t.absStart ∧ t.absEnd ≤ s.totalRowsWritten

theorem TracksWithin.absorb {x : Sighting K} (within : s.TracksWithin) (first : 0 ≤ x.absStart)
    (stop : x.absEnd ≤ s.totalRowsWritten) : (s.absorb x).TracksWithin := by
  intro t member
  rw [absorb_rows.1]
  obtain ⟨_, tracked⟩ | ⟨_, before, u, after, split, _, tracked⟩ := s.absorb_cases x
  · rw [tracked] at member
    rcases List.mem_append.mp member with old | new
    · exact within t old
    · rw [List.mem_singleton.mp new]
      exact ⟨first, stop⟩
  · unfold TracksWithin at within
    rw [split] at within
    rw [tracked] at member
    rcases List.mem_append.mp member with old | rest
    · exact within t (List.mem_append_left _ old)
    · rcases List.mem_cons.mp rest with rfl | old
      · obtain ⟨first', stop'⟩ := within u (List.mem_append_right _ (List.mem_cons_self ..))
        exact ⟨le_min first' first, max_le stop' stop⟩
      · exact within t (List.mem_append_right _ (List.mem_cons_of_mem _ old))

theorem TracksWithin.sighted (within : s.TracksWithin) {bursts : List (DetectedBurst K)}
    (filled : s.rowsFilled ≤ s.totalRowsWritten) (first : ∀ b ∈ bursts, 0 ≤ b.startRow)
    (stop : ∀ b ∈ bursts, b.endRow ≤ s.rowsFilled) : (s.sighted bursts).TracksWithin := by
  have all : (s.sighted bursts).TracksWithin ∧ (s.sighted bursts).totalRowsWritten = s.totalRowsWritten ∧
      (s.sighted bursts).rowsFilled = s.rowsFilled := by
    refine sighted_induction (I := fun m => m.TracksWithin ∧ m.totalRowsWritten = s.totalRowsWritten ∧
      m.rowsFilled = s.rowsFilled) bursts ⟨within, rfl, rfl⟩ fun m b member ⟨within, total, rows⟩ => ?_
    have first := first b member
    have stop := stop b member
    refine ⟨within.absorb ?_ ?_, absorb_rows.1.trans total, absorb_rows.2.trans rows⟩
    · simp only [sighting]
      omega
    · simp only [sighting]
      omega
  exact all.1

theorem sighted_windowRows (bursts : List (DetectedBurst K)) : (s.sighted bursts).windowRows = s.windowRows := by
  refine sighted_induction (I := fun m => m.windowRows = s.windowRows) bursts rfl fun m b _ same => ?_
  rw [← same]
  unfold absorb
  split <;> rfl

theorem TracksWithin.collectFinished (within : s.TracksWithin) (base : Int) :
    (s.collectFinished base).TracksWithin := by
  intro t member
  obtain ⟨⟨u, tracked, rfl⟩, _⟩ := mem_collected.mp member
  have start : (u.mark s.evalCount base).absStart = u.absStart := by
    unfold TrackedBurst.mark
    split <;> rfl
  rw [start, TrackedBurst.mark_absEnd]
  exact within u tracked

end RollingBurstDetector

namespace RowWindow

section Exact

variable (s : RowWindow α K)

/-- The position recorded for a row, counted from the last reset. -/
def recorded (row : Int) : Option Nat :=
  if row < 0 then none else (s.fed[row.toNat]?).bind Prod.snd

/-- The newest rows fed, at most a window of them, in the order they came. -/
def newestRows : List α :=
  (s.fed.map Prod.fst).drop (s.fed.length - min s.fed.length s.window.length)

/-- The row's position was not given, or the row is more than two windows old. -/
def Unknown (row : Int) : Prop :=
  s.recorded row = none ∨ row < (s.fed.length : Int) - 2 * s.window.length

instance Unknown.decidable (row : Int) : Decidable (s.Unknown row) :=
  inferInstanceAs (Decidable (_ ∨ _))

/-- There is no row at all, or the last one's position comes before the first one's. -/
def Backward (first stop : Int) : Prop :=
  stop ≤ first ∨ ∃ p0 p1, s.recorded first = some p0 ∧ s.recorded (stop - 1) = some p1 ∧ p1 < p0

/-- The samples are those of the rows from `first` on and before `stop`. There
are none just when a row's position is unknown, or when they are excused. -/
structure Spans (excused : Prop) (first stop : Int) (samples : Option (Int × Int)) : Prop where
  positions : ∀ span ∈ samples, ∃ p0 p1 slice, s.recorded first = some p0 ∧ s.recorded (stop - 1) = some p1 ∧
    s.sliceSamples = some slice ∧ span = ((p0 : Int), (p1 : Int) + slice)
  missing : samples = none ↔ (s.Unknown first ∨ s.Unknown (stop - 1)) ∨ excused

/-- The evaluated grid has the newest rows, and the samples of each burst
returned and of each burst of the last detection are those of its rows. -/
structure Exact (excused : Int → Int → Prop) : Prop where
  grid : ∀ grid ∈ s.evaluated, grid = s.newestRows ∧ s.detector.evalBaseAbs = some ((s.fed.length : Int) - grid.length)
  returned : ∀ b ∈ s.returned, s.Spans (excused b.emission.track.absStart b.emission.track.absEnd)
    b.emission.track.absStart b.emission.track.absEnd b.samples
  detected : ∀ bursts ∈ s.lastDetection, ∀ base ∈ s.detector.evalBaseAbs, ∀ b ∈ bursts,
    s.Spans (excused (base + b.startRow) (base + b.endRow)) (base + b.startRow) (base + b.endRow) (s.windowSamples b)

end Exact

variable {s : RowWindow α K}

/-- The two stores hold what was fed, and all bursts lie in it. -/
structure Sound (s : RowWindow α K) : Prop where
  coarse : 1 ≤ s.timeResolution * 1000000
  size : s.window.length = s.detector.windowRows
  positive : 0 < s.window.length
  places : s.rowPos.length = 2 * s.window.length
  total : s.detector.totalRowsWritten = s.fed.length
  filled : s.detector.rowsFilled = min s.fed.length s.window.length
  writePos : s.writePos = s.fed.length % s.window.length
  rows : Holds s.window s.writePos (s.fed.map Prod.fst)
  kept : Holds s.rowPos (s.fed.length % s.rowPos.length) (s.fed.map fun row => rowPosition row.2)
  slice : ∀ row ∈ s.fed, row.2.isSome → s.sliceSamples.isSome
  tracks : s.detector.TracksWithin
  base : ∀ base ∈ s.detector.evalBaseAbs, 0 ≤ base ∧
    ∀ bursts ∈ s.lastDetection, ∀ b ∈ bursts, 0 ≤ b.startRow ∧ base + b.endRow ≤ s.fed.length
  evaluated : ∀ grid ∈ s.evaluated, grid = s.orderedWindow ∧
    s.detector.evalBaseAbs = some ((s.fed.length : Int) - s.detector.rowsFilled)
  returned : ∀ b ∈ s.returned, 0 ≤ b.emission.track.absStart ∧ b.emission.track.absEnd ≤ s.fed.length ∧
    b.samples = s.spanSamples b.emission.track.absStart b.emission.track.absEnd

theorem Sound.create {windowRows evalInterval : Nat} {tol : K} {timeResolution : ℚ} {blank : α}
    (positive : 0 < windowRows) (coarse : 1 ≤ timeResolution * 1000000) :
    (create windowRows evalInterval tol timeResolution blank).Sound where
  coarse := coarse
  size := List.length_replicate ..
  positive := by rwa [RowWindow.create, List.length_replicate]
  places := by simp only [RowWindow.create, List.length_replicate]
  total := rfl
  filled := by simp [RowWindow.create, RollingBurstDetector.create]
  writePos := (Nat.zero_mod _).symm
  rows := .nil
  kept := .nil
  slice := nofun
  tracks := nofun
  base := nofun
  evaluated := nofun
  returned := nofun

/-- A row of the last two windows has its recorded position in the store. -/
theorem Sound.position (sound : s.Sound) {row : Int} (first : 0 ≤ row) (stop : row < s.fed.length)
    (near : (s.fed.length : Int) - 2 * s.window.length ≤ row) :
    (s.rowPos[(row % s.rowPos.length).toNat]?).getD (-1) = rowPosition (s.recorded row) := by
  have places := sound.places
  obtain ⟨i, rfl⟩ := Int.eq_ofNat_of_zero_le first
  have kept := sound.kept
  have length : (s.fed.map fun row => rowPosition row.2).length = s.fed.length := List.length_map ..
  rw [← length] at kept
  have at_ := kept.get (i := i) (by omega) (by omega)
  rw [← Int.natCast_emod, Int.toNat_natCast, at_, List.getElem?_map, recorded, if_neg (by omega), Int.toNat_natCast]
  have bound : i < s.fed.length := by omega
  rw [List.getElem?_eq_getElem bound]
  rfl

theorem recorded_of_future {row : Int} (future : (s.fed.length : Int) ≤ row) : s.recorded row = none := by
  rw [recorded, if_neg (by omega), List.getElem?_eq_none (by omega)]
  rfl

theorem Sound.slice_of_recorded (sound : s.Sound) {row : Int} {p : Nat} (recorded : s.recorded row = some p) :
    ∃ slice, s.sliceSamples = some slice := by
  unfold RowWindow.recorded at recorded
  split at recorded
  · cases recorded
  · obtain ⟨entry, at_, given⟩ := Option.bind_eq_some_iff.mp recorded
    refine Option.isSome_iff_exists.mp (sound.slice entry (List.mem_of_getElem? at_) ?_)
    rw [given]
    rfl

theorem rowPosition_neg {given : Option Nat} : rowPosition given < 0 ↔ given = none := by
  cases given with
  | none => simp [rowPosition]
  | some p => simp [rowPosition]

/-- What the positions of the rows give, for any rows within what was fed. -/
theorem Sound.spans (sound : s.Sound) {first stop : Int} (start : 0 ≤ first) (within : stop ≤ s.fed.length) :
    s.Spans (s.Backward first stop) first stop (s.spanSamples first stop) := by
  have places := sound.places
  have total := sound.total
  unfold spanSamples
  cases slices : s.sliceSamples with
  | none =>
    have nothing : s.recorded first = none := by
      cases known : s.recorded first with
      | none => rfl
      | some p =>
        obtain ⟨slice, given⟩ := sound.slice_of_recorded known
        rw [slices] at given
        cases given
    exact ⟨nofun, iff_of_true rfl (Or.inl (Or.inl (Or.inl nothing)))⟩
  | some slice =>
    by_cases gone : first < s.detector.totalRowsWritten - (s.rowPos.length : Int) ∨ stop - 1 < first
    · simp only [Option.bind_some, if_pos gone]
      refine ⟨nofun, iff_of_true rfl ?_⟩
      rcases gone with old | empty
      · exact Or.inl (Or.inl (Or.inr (by omega)))
      · exact Or.inr (Or.inl (by omega))
    · have old : ¬ first < s.detector.totalRowsWritten - (s.rowPos.length : Int) := fun old => gone (Or.inl old)
      have order : ¬ stop - 1 < first := fun empty => gone (Or.inr empty)
      simp only [Option.bind_some, if_neg gone]
      rw [sound.position start (by omega) (by omega), sound.position (by omega) (by omega) (by omega)]
      have unknown : ∀ row, first ≤ row → (s.Unknown row ↔ s.recorded row = none) := fun row after =>
        ⟨fun unknown => unknown.resolve_right (by omega), Or.inl⟩
      cases p0 : s.recorded first with
      | none =>
        rw [if_pos (Or.inl (by decide))]
        exact ⟨nofun, iff_of_true rfl (Or.inl (Or.inl (Or.inl p0)))⟩
      | some p =>
        cases p1 : s.recorded (stop - 1) with
        | none =>
          rw [if_pos (Or.inr (by simp [rowPosition]; omega))]
          exact ⟨nofun, iff_of_true rfl (Or.inl (Or.inr (Or.inl p1)))⟩
        | some q =>
          by_cases backward : q < p
          · rw [if_pos (Or.inr (by simp [rowPosition]; omega))]
            exact ⟨nofun, iff_of_true rfl (Or.inr (Or.inr ⟨p, q, p0, p1, backward⟩))⟩
          · rw [if_neg (by simp [rowPosition]; omega)]
            refine ⟨fun span member => ⟨p, q, slice, p0, p1, slices, (Option.some.inj member).symm⟩, ?_⟩
            refine iff_of_false nofun ?_
            rw [unknown first le_rfl, unknown (stop - 1) (by omega), p0, p1]
            rintro ((absurd0 | absurd1) | empty | ⟨p', q', first', last', less⟩)
            · cases absurd0
            · cases absurd1
            · omega
            · rw [p0] at first'
              rw [p1] at last'
              cases first'
              cases last'
              exact backward less

theorem Sound.orderedWindow (sound : s.Sound) : s.orderedWindow = s.newestRows := by
  have positive := sound.positive
  have rows := sound.rows
  have place := sound.writePos
  have length : (s.fed.map Prod.fst).length = s.fed.length := List.length_map ..
  unfold RowWindow.orderedWindow newestRows
  rw [sound.filled]
  by_cases short : s.fed.length < s.window.length
  · rw [Nat.mod_eq_of_lt short, ← length] at place
    rw [place] at rows
    rw [Nat.min_eq_left short.le, if_pos short, Nat.sub_self, List.drop_zero, ← length]
    exact rows.unwrapped (by rwa [length])
  · rw [Nat.min_eq_right (by omega), if_neg (lt_irrefl _), ← length]
    exact rows.ordered (by rw [place]; exact Nat.mod_lt _ positive) (by omega)

theorem newestRows_length : s.newestRows.length = min s.fed.length s.window.length := by
  rw [newestRows, List.length_drop, List.length_map]
  omega

theorem Sound.exact (sound : s.Sound) : s.Exact s.Backward where
  grid grid member := by
    obtain ⟨same, base⟩ := sound.evaluated grid member
    rw [sound.orderedWindow] at same
    refine ⟨same, base.trans ?_⟩
    rw [same, newestRows_length, sound.filled]
  returned b member := by
    obtain ⟨start, within, samples⟩ := sound.returned b member
    rw [samples]
    exact sound.spans start within
  detected bursts last base evaluated b member := by
    obtain ⟨nonneg, within⟩ := sound.base base evaluated
    obtain ⟨start, stop⟩ := within bursts last b member
    have samples : s.windowSamples b = s.spanSamples (base + b.startRow) (base + b.endRow) := by
      rw [windowSamples, evaluated, Option.bind_some]
      simp only [DetectedBurst.timed_eq sound.coarse]
    rw [samples]
    exact sound.spans (by omega) (by omega)

theorem Sound.inside (sound : s.Sound) : s.writePos < s.window.length := by
  rw [sound.writePos]
  exact Nat.mod_lt _ sound.positive

theorem Sound.write (sound : s.Sound) {call : GridFeed α} {s' : RowWindow α K} (writes : s.write call = some s') :
    s'.Sound := by
  obtain ⟨window, slices, rfl⟩ := Option.map_eq_some_iff.mp writes
  have inside := sound.inside
  have length := writeSlices_length inside slices
  have fed : (s.fed ++ call.rows.zip call.given).length = s.fed.length + call.rows.length := by
    rw [List.length_append, call.zip_length]
  have kept := sound.kept
  have size : (s.fed.map fun row => rowPosition row.2).length = s.fed.length := List.length_map ..
  rw [← size] at kept
  refine
    { coarse := sound.coarse, size := length.trans sound.size, positive := length ▸ sound.positive,
      places := ?_, total := ?_, filled := ?_, writePos := ?_, rows := ?_, kept := ?_, slice := ?_, tracks := ?_,
      base := ?_, evaluated := nofun, returned := nofun }
  · rw [writeEach_length, length]
    exact sound.places
  · rw [fed]
    exact congrArg (· + call.rows.length) sound.total
  · rw [fed, length]
    simp only [RollingBurstDetector.written, sound.filled, ← sound.size]
    omega
  · rw [fed, length, next, sound.writePos, Nat.mod_add_mod]
  · rw [List.map_append, call.rows_of_zip]
    exact sound.rows.writeSlices inside slices
  · have appended : (s.fed ++ call.rows.zip call.given).map (fun row => rowPosition row.2) =
        (s.fed.map fun row => rowPosition row.2) ++ call.given.map rowPosition := by
      have new := congrArg (List.map rowPosition) call.given_of_zip
      rw [List.map_map] at new
      rw [List.map_append, ← new]
      rfl
    have after : Holds (writeEach s.rowPos _ (call.given.map rowPosition)) _ _ := kept.writeEach
    rw [size] at after
    rw [appended, writeEach_length, sound.total, fed]
    rw [List.length_append, List.length_map, List.length_map, call.given_length] at after
    exact after
  · intro row member known
    rcases List.mem_append.mp member with old | new
    · have before := sound.slice row old known
      cases call.positions.map Prod.snd with
      | none => simpa using before
      | some slice => rfl
    · obtain ⟨p, given⟩ := Option.isSome_iff_exists.mp known
      have member : some p ∈ call.given := given ▸ (List.of_mem_zip new).2
      obtain ⟨slice, positions⟩ := Option.isSome_iff_exists.mp (call.positions_of_given member)
      rw [positions]
      rfl
  · intro t member
    obtain ⟨start, stop⟩ := sound.tracks t member
    refine ⟨start, stop.trans ?_⟩
    simp only [RollingBurstDetector.written]
    omega
  · intro base evaluated
    obtain ⟨nonneg, within⟩ := sound.base base evaluated
    refine ⟨nonneg, fun bursts last b member => ?_⟩
    obtain ⟨start, stop⟩ := within bursts last b member
    rw [fed]
    exact ⟨start, by omega⟩

variable [FloorRing K] {detect : GridDetection α K}

/-- What an evaluation leaves of the detector's counters, and the bursts it emits. -/
theorem Sound.evaluate_detector (sound : s.Sound) (detect : GridDetection α K) :
    ∃ m : RollingBurstDetector K, m.TracksWithin ∧ m.totalRowsWritten = s.fed.length ∧
      m.rowsFilled = s.detector.rowsFilled ∧ m.windowRows = s.detector.windowRows ∧
      m.evalBaseAbs = some ((s.fed.length : Int) - s.detector.rowsFilled) ∧ m.emissions = s.detector.emissions ∧
      (s.evaluate detect).detector = m.collectFinished ((s.fed.length : Int) - s.detector.rowsFilled) := by
  have bursts : (detect.bursts s.orderedWindow).map (fun b => b.timed s.timeResolution) =
      detect.bursts s.orderedWindow := by
    simp only [DetectedBurst.timed_eq sound.coarse, List.map_id']
  have stop := detect.stop_le s.orderedWindow
  rw [sound.orderedWindow, newestRows_length, ← sound.filled, ← sound.orderedWindow] at stop
  let counted : RollingBurstDetector K := { s.detector with rowsSinceEval := 0 }
  have filled : counted.rowsFilled ≤ counted.totalRowsWritten := by
    change s.detector.rowsFilled ≤ s.detector.totalRowsWritten
    rw [sound.filled, sound.total]
    exact min_le_left ..
  have within : counted.TracksWithin := sound.tracks
  obtain ⟨total, rows, _, emissions, _, base⟩ := counted.sighted_frame (detect.bursts s.orderedWindow)
  have windowRows := counted.sighted_windowRows (detect.bursts s.orderedWindow)
  refine ⟨counted.sighted (detect.bursts s.orderedWindow), ?_, total.trans sound.total, rows, windowRows, ?_, emissions, ?_⟩
  · exact within.sighted filled (detect.first_nonneg s.orderedWindow) stop
  · rw [base, ← sound.total]
  · rw [← sound.total]
    simp only [RowWindow.evaluate, bursts]
    rfl

theorem Sound.evaluate (sound : s.Sound) : (s.evaluate detect).Sound := by
  obtain ⟨m, within, total, rows, windowRows, base, emissions, detector⟩ :=
    sound.evaluate_detector detect
  have total' : (s.evaluate detect).detector.totalRowsWritten = s.fed.length := by rw [detector]; exact total
  have rows' : (s.evaluate detect).detector.rowsFilled = s.detector.rowsFilled := by rw [detector]; exact rows
  have base' : (s.evaluate detect).detector.evalBaseAbs = some ((s.fed.length : Int) - s.detector.rowsFilled) := by
    rw [detector]
    exact base
  refine
    { coarse := sound.coarse, size := ?_, positive := sound.positive, places := sound.places, total := total',
      filled := rows'.trans sound.filled, writePos := sound.writePos, rows := sound.rows, kept := sound.kept,
      slice := sound.slice, tracks := ?_, base := ?_, evaluated := ?_, returned := ?_ }
  · rw [detector]
    exact sound.size.trans windowRows.symm
  · rw [detector]
    exact within.collectFinished _
  · intro base evaluated
    rw [base'] at evaluated
    obtain rfl := Option.some.inj evaluated
    have filled := sound.filled
    refine ⟨by omega, fun bursts last b member => ?_⟩
    obtain rfl := Option.some.inj last
    have stop := detect.stop_le s.orderedWindow b member
    rw [sound.orderedWindow, newestRows_length] at stop
    refine ⟨detect.first_nonneg s.orderedWindow b member, ?_⟩
    change (s.fed.length : Int) - s.detector.rowsFilled + b.endRow ≤ s.fed.length
    omega
  · intro grid member
    obtain rfl := Option.some.inj member
    refine ⟨?_, base'.trans (by rw [rows']; rfl)⟩
    unfold RowWindow.orderedWindow
    rw [rows']
    rfl
  · intro b member
    have returned : (s.evaluate detect).returned =
        ((s.evaluate detect).detector.emissions.drop s.detector.emissions.length).map s.toFingerprint := rfl
    rw [returned, detector, RollingBurstDetector.collectFinished, emissions, List.drop_left, List.map_map] at member
    obtain ⟨t, finished, rfl⟩ := List.mem_map.mp member
    obtain ⟨start, stop⟩ := within t (List.mem_filter.mp finished).1
    rw [total] at stop
    refine ⟨start, stop, ?_⟩
    unfold spanSamples
    rw [total', ← sound.total]
    rfl

/-- A call of `feed` fails just when its rows do not fit in what is left of the
window and once more into the window. -/
theorem Sound.feed_eq_none (sound : s.Sound) {call : GridFeed α} :
    s.feed detect call = none ↔ 2 * s.window.length < s.writePos + call.rows.length := by
  rw [feed, Option.map_eq_none_iff, RowWindow.write, Option.map_eq_none_iff, writeSlices_eq_none sound.inside]

theorem Sound.step (sound : s.Sound) {call : Call α} {s' : RowWindow α K} (goes : step detect s call = some s') :
    s'.Sound := by
  cases call with
  | reset blank =>
    obtain rfl := Option.some.inj goes
    exact .create sound.positive sound.coarse
  | feed call =>
    obtain ⟨written, writes, rfl⟩ := Option.map_eq_some_iff.mp goes
    have sound := sound.write writes
    split
    · exact sound.evaluate
    · exact sound

/-- In every run of calls that return, the evaluated grid and the samples of
all bursts are exact, save for bursts whose rows run backward. -/
theorem Reach.window_exact {windowRows evalInterval : Nat} {tol : K} {timeResolution : ℚ} {blank : α}
    (positive : 0 < windowRows) (coarse : 1 ≤ timeResolution * 1000000)
    (reach : Reach detect windowRows evalInterval tol timeResolution blank s) : s.Exact s.Backward :=
  (reach.invariant (Sound.create positive coarse) fun _ _ _ sound _ goes => sound.step goes).exact

theorem mem_oneBurst {first stop : Nat} {grid : List ℕ} {b : DetectedBurst ℚ}
    (member : b ∈ if stop ≤ grid.length then [burstAt first stop] else []) :
    b = burstAt first stop ∧ stop ≤ grid.length := by
  split at member
  · rename_i long
    exact ⟨List.mem_singleton.mp member, long⟩
  · cases member

/-- One burst, in the rows from `first` on and before `stop`, of every grid that has them. -/
def oneBurst (first stop : Nat) : GridDetection ℕ ℚ where
  bursts grid := if stop ≤ grid.length then [burstAt first stop] else []
  first_nonneg _ _ member := (mem_oneBurst member).1 ▸ Int.natCast_nonneg first
  stop_le _ _ member := (mem_oneBurst member).1 ▸ Int.ofNat_le.mpr (mem_oneBurst member).2

/-- Two rows at 100, an empty grid, and six rows at `later`, after dropped chunks. -/
def droppedBetween (later : Nat) : List (Call ℕ) :=
  [.feed ⟨[1, 2], some 100, some 10⟩, .feed ⟨[], some 120, some 10⟩, .feed ⟨[3, 4, 5, 6, 7, 8], some later, some 10⟩]

/-- The burst's first row is the last one before the dropped chunks. -/
theorem Reach.window_exact_dropped :
    ∃ s, Runs.follow (step (oneBurst 1 3)) (create 8 8 1 (1 / 1000) 0) (droppedBetween 500) = some s ∧
      s.returned.map PositionedBurst.samples = [some (110, 510)] ∧ s.Exact s.Backward := by
  have final : (Runs.follow (step (oneBurst 1 3)) (create 8 8 1 (1 / 1000) 0) (droppedBetween 500)).map
      (fun s => s.returned.map PositionedBurst.samples) = some [some (110, 510)] := by decide +kernel
  obtain ⟨s, goes, samples⟩ := Option.map_eq_some_iff.mp final
  exact ⟨s, goes, samples, Reach.window_exact (by decide) (by norm_num) (.of_follow goes)⟩

/-- A burst of the last detection has no samples, though its rows' positions are known. -/
def Withheld (s : RowWindow ℕ ℚ) : Prop :=
  ∃ bursts ∈ s.lastDetection, ∃ base ∈ s.detector.evalBaseAbs, ∃ b ∈ bursts, s.windowSamples b = none ∧
    ¬ s.Unknown (base + b.startRow) ∧ ¬ s.Unknown (base + b.endRow - 1)

instance Withheld.decidable (s : RowWindow ℕ ℚ) : Decidable s.Withheld :=
  inferInstanceAs (Decidable (∃ bursts ∈ s.lastDetection, ∃ base ∈ s.detector.evalBaseAbs, ∃ b ∈ bursts, _ ∧ _))

/-- A burst of the last detection has samples that do not begin with its first row. -/
def Misplaced (s : RowWindow ℕ ℚ) : Prop :=
  ∃ bursts ∈ s.lastDetection, ∃ base ∈ s.detector.evalBaseAbs, ∃ b ∈ bursts, ∃ span ∈ s.windowSamples b,
    (s.recorded (base + b.startRow)).map Int.ofNat ≠ some span.1

instance Misplaced.decidable (s : RowWindow ℕ ℚ) : Decidable s.Misplaced :=
  inferInstanceAs (Decidable (∃ bursts ∈ s.lastDetection, ∃ base ∈ s.detector.evalBaseAbs, ∃ b ∈ bursts,
    ∃ span ∈ s.windowSamples b, _))

theorem Withheld.not_exact {s : RowWindow ℕ ℚ} (withheld : s.Withheld) : ¬ s.Exact fun _ _ => False := by
  intro exact
  obtain ⟨bursts, last, base, evaluated, b, member, none, first, stop⟩ := withheld
  rcases (exact.detected bursts last base evaluated b member).missing.mp none with (unknown | unknown) | excused
  · exact first unknown
  · exact stop unknown
  · exact excused

theorem Misplaced.not_exact {s : RowWindow ℕ ℚ} (misplaced : s.Misplaced) (excused : Int → Int → Prop) :
    ¬ s.Exact excused := by
  intro exact
  obtain ⟨bursts, last, base, evaluated, b, member, span, spans, apart⟩ := misplaced
  obtain ⟨p0, p1, slice, first, -, -, rfl⟩ := (exact.detected bursts last base evaluated b member).positions span spans
  rw [first] at apart
  exact apart rfl

/-- The positions of a burst that run backward, or a burst whose rows end where
they begin, are withheld; below a microsecond per row other rows are taken. -/
theorem window_exact_fails :
    (∃ s, Reach (oneBurst 1 3) 8 8 1 (1 / 1000) 0 s ∧ ¬ s.Exact fun _ _ => False) ∧
      (∃ s, Reach (oneBurst 7 7) 8 8 1 (1 / 1000) 0 s ∧ ¬ s.Exact fun _ _ => False) ∧
      ∃ s, Reach (oneBurst 1 3) 8 8 1 (6 / 10000000) 0 s ∧ ¬ s.Exact s.Backward := by
  refine ⟨?_, ?_, ?_⟩
  · have final : (Runs.follow (step (oneBurst 1 3)) (create 8 8 1 (1 / 1000) 0) (droppedBetween 0)).map
        (fun s => decide s.Withheld) = some true := by decide +kernel
    obtain ⟨s, goes, withheld⟩ := Option.map_eq_some_iff.mp final
    exact ⟨s, .of_follow goes, (of_decide_eq_true withheld).not_exact⟩
  · have final : (Runs.follow (step (oneBurst 7 7)) (create 8 8 1 (1 / 1000) 0) (droppedBetween 500)).map
        (fun s => decide s.Withheld) = some true := by decide +kernel
    obtain ⟨s, goes, withheld⟩ := Option.map_eq_some_iff.mp final
    exact ⟨s, .of_follow goes, (of_decide_eq_true withheld).not_exact⟩
  · have final : (Runs.follow (step (oneBurst 1 3)) (create 8 8 1 (6 / 10000000) 0) (droppedBetween 500)).map
        (fun s => decide s.Misplaced) = some true := by decide +kernel
    obtain ⟨s, goes, misplaced⟩ := Option.map_eq_some_iff.mp final
    exact ⟨s, .of_follow goes, (of_decide_eq_true misplaced).not_exact _⟩

end RowWindow
end RFObserver
