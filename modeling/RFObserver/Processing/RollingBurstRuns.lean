import RFObserver.Processing.RollingBurst

set_option linter.unusedSectionVars false

namespace RFObserver

variable {K : Type*} [Field K] [LinearOrder K] [IsStrictOrderedRing K]

section Hull

variable {α β : Type*} [LinearOrder β] {f : α → β} {x : α} {l : List α} {b : β}

theorem image_cons : f '' {y | y ∈ x :: l} = insert (f x) (f '' {y | y ∈ l}) := by
  ext b
  simp [eq_comm]

theorem least_cons (least : IsLeast (f '' {y | y ∈ l}) b) : IsLeast (f '' {y | y ∈ x :: l}) (min b (f x)) := by
  rw [image_cons, min_comm]
  exact least.insert (f x)

theorem greatest_cons (greatest : IsGreatest (f '' {y | y ∈ l}) b) :
    IsGreatest (f '' {y | y ∈ x :: l}) (max b (f x)) := by
  rw [image_cons, max_comm]
  exact greatest.insert (f x)

theorem least_single : IsLeast (f '' {y | y ∈ [x]}) (f x) := by
  simp

theorem greatest_single : IsGreatest (f '' {y | y ∈ [x]}) (f x) := by
  simp

end Hull

/-- What `_evaluate` passes on: a span around its center, of this evaluation. -/
structure Sighting.Sound (x : Sighting K) (evalCount : Nat) : Prop where
  eval : x.eval = evalCount
  ordered : x.fLoHz ≤ x.fHiHz
  center : x.centerFreqHz = (x.fLoHz + x.fHiHz) / 2

namespace TrackedBurst

variable {t : TrackedBurst K} {x : Sighting K} {evalCount serial : Nat}

/-- The track's fields say what it has absorbed, up to evaluation `evalCount`. -/
structure Sound (t : TrackedBurst K) (evalCount : Nat) : Prop where
  newest : ∃ x rest, t.absorbed = x :: rest ∧ t.lastEval = x.eval ∧ t.stillGrowing = x.stillGrowing
  evals : ∀ x ∈ t.absorbed, x.eval ≤ evalCount
  ordered : ∀ x ∈ t.absorbed, x.fLoHz ≤ x.fHiHz
  center : t.centerFreqHz = (t.fLoHz + t.fHiHz) / 2
  start : IsLeast (Sighting.absStart '' {x | x ∈ t.absorbed}) t.absStart
  stop : IsGreatest (Sighting.absEnd '' {x | x ∈ t.absorbed}) t.absEnd
  low : IsLeast (Sighting.fLoHz '' {x | x ∈ t.absorbed}) t.fLoHz
  high : IsGreatest (Sighting.fHiHz '' {x | x ∈ t.absorbed}) t.fHiHz

theorem Sound.create (sound : x.Sound evalCount) : (create x serial).Sound evalCount where
  newest := ⟨x, [], rfl, rfl, rfl⟩
  evals y member := by rw [List.mem_singleton.mp member, sound.eval]
  ordered y member := by rw [List.mem_singleton.mp member]; exact sound.ordered
  center := sound.center
  start := least_single
  stop := greatest_single
  low := least_single
  high := greatest_single

theorem Sound.absorb (track : t.Sound evalCount) (sound : x.Sound evalCount) : (t.absorb x).Sound evalCount where
  newest := ⟨x, t.absorbed, rfl, rfl, rfl⟩
  evals y member := by
    rcases List.mem_cons.mp member with rfl | old
    · exact sound.eval.le
    · exact track.evals y old
  ordered y member := by
    rcases List.mem_cons.mp member with rfl | old
    · exact sound.ordered
    · exact track.ordered y old
  center := rfl
  start := least_cons track.start
  stop := greatest_cons track.stop
  low := least_cons track.low
  high := greatest_cons track.high

theorem Sound.later (track : t.Sound evalCount) : t.Sound (evalCount + 1) :=
  { track with evals := fun x member => Nat.le_succ_of_le (track.evals x member) }

theorem Sound.mark (track : t.Sound evalCount) (base : Int) : (t.mark evalCount base).Sound evalCount := by
  unfold TrackedBurst.mark
  split
  · exact ⟨track.newest, track.evals, track.ordered, track.center, track.start, track.stop, track.low, track.high⟩
  · exact track

theorem Sound.fLo_le_fHi (track : t.Sound evalCount) : t.fLoHz ≤ t.fHiHz := by
  obtain ⟨x, rest, absorbed, _, _⟩ := track.newest
  have member : x ∈ t.absorbed := by rw [absorbed]; exact List.mem_cons_self ..
  exact (track.low.2 ⟨x, member, rfl⟩).trans ((track.ordered x member).trans (track.high.2 ⟨x, member, rfl⟩))

/-- The fingerprint's center and bandwidth give back the track's frequencies. -/
theorem Sound.low_edge (track : t.Sound evalCount) :
    t.toFingerprint.centerFreqHz - t.toFingerprint.bandwidthHz / 2 = t.fLoHz := by
  simp only [toFingerprint]
  rw [max_eq_left (sub_nonneg.mpr track.fLo_le_fHi), track.center]
  ring

theorem Sound.high_edge (track : t.Sound evalCount) :
    t.toFingerprint.centerFreqHz + t.toFingerprint.bandwidthHz / 2 = t.fHiHz := by
  simp only [toFingerprint]
  rw [max_eq_left (sub_nonneg.mpr track.fLo_le_fHi), track.center]
  ring

theorem Sound.union (track : t.Sound evalCount) (base : Int) : (⟨t, evalCount, base⟩ : BurstEmission K).Union where
  start := track.start
  stop := track.stop
  low := by rw [BurstEmission.fingerprint, track.low_edge]; exact track.low
  high := by rw [BurstEmission.fingerprint, track.high_edge]; exact track.high

@[simp] theorem mark_serial (base : Int) : (t.mark evalCount base).serial = t.serial := by
  unfold mark; split <;> rfl

@[simp] theorem mark_absorbed (base : Int) : (t.mark evalCount base).absorbed = t.absorbed := by
  unfold mark; split <;> rfl

@[simp] theorem mark_absEnd (base : Int) : (t.mark evalCount base).absEnd = t.absEnd := by
  unfold mark; split <;> rfl

theorem mark_emitted (base : Int) :
    (t.mark evalCount base).emitted = true ↔ t.emitted = true ∨ t.Finished evalCount base := by
  unfold mark
  split <;> simp_all

end TrackedBurst

theorem BurstEmission.Union.covers {e : BurstEmission K} {x : Sighting K} (union : e.Union)
    (member : x ∈ e.track.absorbed) : e.fingerprint.Covers x :=
  ⟨union.start.2 ⟨x, member, rfl⟩, union.stop.2 ⟨x, member, rfl⟩, union.low.2 ⟨x, member, rfl⟩,
    union.high.2 ⟨x, member, rfl⟩⟩

namespace RollingBurstDetector

variable [FloorRing K] {s : RollingBurstDetector K} {x : Sighting K}

theorem matchOf_close {i : Nat} (found : s.matchOf x = some i) :
    ∃ t, s.tracked[i]? = some t ∧ t.Close s.matchFreqTolHz x := by
  have close := List.find?_some found
  cases at_ : s.tracked[i]? with
  | none => rw [at_] at close; cases close
  | some t =>
    rw [at_] at close
    exact ⟨t, rfl, of_decide_eq_true close⟩

/-- A burst goes into one track that is close, or starts a new one. -/
theorem absorb_cases (s : RollingBurstDetector K) (x : Sighting K) :
    ((s.absorb x).created = s.created + 1 ∧ (s.absorb x).tracked = s.tracked ++ [.create x s.created]) ∨
      (s.absorb x).created = s.created ∧ ∃ before t after, s.tracked = before ++ t :: after ∧
        t.Close s.matchFreqTolHz x ∧ (s.absorb x).tracked = before ++ t.absorb x :: after := by
  unfold absorb
  split
  · rename_i i found
    obtain ⟨t, at_, close⟩ := matchOf_close found
    obtain ⟨bound, atI⟩ := List.getElem?_eq_some_iff.mp at_
    obtain ⟨before, t', after, split, length, modified⟩ :=
      List.exists_of_modify (fun t => t.absorb x) bound
    have same : t' = t := by
      rw [← atI]
      simp [split, ← length]
    exact Or.inr ⟨rfl, before, t', after, split, same ▸ close, modified⟩
  · exact Or.inl ⟨rfl, rfl⟩

@[simp] theorem absorb_passed : (s.absorb x).passed = x :: s.passed := by
  unfold absorb; split <;> rfl

@[simp] theorem absorb_emissions : (s.absorb x).emissions = s.emissions := by
  unfold absorb; split <;> rfl

@[simp] theorem absorb_dropped : (s.absorb x).dropped = s.dropped := by
  unfold absorb; split <;> rfl

@[simp] theorem absorb_evalCount : (s.absorb x).evalCount = s.evalCount := by
  unfold absorb; split <;> rfl

@[simp] theorem absorb_evalBaseAbs : (s.absorb x).evalBaseAbs = s.evalBaseAbs := by
  unfold absorb; split <;> rfl

@[simp] theorem absorb_rows :
    (s.absorb x).totalRowsWritten = s.totalRowsWritten ∧ (s.absorb x).rowsFilled = s.rowsFilled := by
  unfold absorb; split <;> exact ⟨rfl, rfl⟩

theorem sighting_sound (b : DetectedBurst K) : (s.sighting b).Sound s.evalCount where
  eval := rfl
  ordered := by
    have := b.bandwidth_nonneg
    simp only [sighting]
    linarith
  center := by
    simp only [sighting]
    ring

/-- Every track says what it absorbed, the tracks share out what was passed,
and the emissions are those of the emitted tracks and of the dropped ones. -/
structure Sound (s : RollingBurstDetector K) : Prop where
  tracks : ∀ t ∈ s.tracked, t.Sound s.evalCount
  absorbed : ((s.tracked ++ s.dropped).flatMap TrackedBurst.absorbed).Perm s.passed
  serials : ((s.tracked ++ s.dropped).map TrackedBurst.serial).Nodup
  created : ∀ t ∈ s.tracked ++ s.dropped, t.serial < s.created
  emitted : (s.emissions.map fun e => e.track.serial).Perm
    ((s.tracked.filter TrackedBurst.emitted ++ s.dropped).map TrackedBurst.serial)
  extent : ∀ e ∈ s.emissions, e.Union

theorem Sound.absorb (sound : s.Sound) (fits : x.Sound s.evalCount) : (s.absorb x).Sound := by
  obtain ⟨created, tracked⟩ | ⟨created, before, t, after, split, _, tracked⟩ := absorb_cases s x
  · have shared : ((s.absorb x).tracked ++ (s.absorb x).dropped).Perm
        (.create x s.created :: (s.tracked ++ s.dropped)) := by
      rw [tracked, absorb_dropped, List.append_assoc]
      exact List.perm_middle
    refine ⟨fun t member => ?_, ?_, ?_, fun t member => ?_, ?_, ?_⟩
    · rw [absorb_evalCount]
      rw [tracked] at member
      rcases List.mem_append.mp member with old | new
      · exact sound.tracks t old
      · exact List.mem_singleton.mp new ▸ .create fits
    · rw [absorb_passed]
      exact (shared.flatMap_right _).trans (sound.absorbed.cons x)
    · refine (shared.map _).nodup_iff.mpr (List.nodup_cons.mpr ⟨fun member => ?_, sound.serials⟩)
      obtain ⟨t, member, same⟩ := List.mem_map.mp member
      exact absurd same (sound.created t member).ne
    · rw [created]
      rcases List.mem_cons.mp (shared.mem_iff.mp member) with rfl | old
      · exact Nat.lt_succ_self _
      · exact Nat.lt_succ_of_lt (sound.created t old)
    · rw [absorb_emissions, absorb_dropped, tracked, List.filter_append]
      simpa [TrackedBurst.create] using sound.emitted
    · rw [absorb_emissions]
      exact sound.extent
  · have old : (s.tracked ++ s.dropped).Perm (t :: (before ++ after ++ s.dropped)) := by
      rw [split, List.append_assoc, List.append_assoc]
      exact List.perm_middle
    have shared : ((s.absorb x).tracked ++ (s.absorb x).dropped).Perm
        (t.absorb x :: (before ++ after ++ s.dropped)) := by
      rw [tracked, absorb_dropped, List.append_assoc, List.append_assoc]
      exact List.perm_middle
    have serials : (((s.absorb x).tracked ++ (s.absorb x).dropped).map TrackedBurst.serial).Perm
        ((s.tracked ++ s.dropped).map TrackedBurst.serial) := by
      refine (shared.map _).trans ?_
      simpa only [List.map_cons, TrackedBurst.absorb] using (old.map TrackedBurst.serial).symm
    refine ⟨fun u member => ?_, ?_, serials.nodup_iff.mpr sound.serials, fun u member => ?_, ?_, ?_⟩
    · rw [absorb_evalCount]
      have tracks := sound.tracks
      rw [split] at tracks
      rw [tracked] at member
      rcases List.mem_append.mp member with earlier | rest
      · exact tracks u (List.mem_append_left _ earlier)
      · rcases List.mem_cons.mp rest with rfl | later
        · exact (tracks t (List.mem_append_right _ (List.mem_cons_self ..))).absorb fits
        · exact tracks u (List.mem_append_right _ (List.mem_cons_of_mem _ later))
    · rw [absorb_passed]
      exact (shared.flatMap_right _).trans (((old.flatMap_right _).symm.trans sound.absorbed).cons x)
    · rw [created]
      obtain ⟨v, member, same⟩ := List.mem_map.mp (serials.mem_iff.mp (List.mem_map_of_mem member))
      exact same ▸ sound.created v member
    · rw [absorb_emissions, absorb_dropped, tracked]
      have emitted := sound.emitted
      rw [split] at emitted
      by_cases emits : t.emitted = true <;>
        simpa [List.filter_append, List.filter_cons, TrackedBurst.absorb, emits] using emitted
    · rw [absorb_emissions]
      exact sound.extent

theorem sighted_nil : s.sighted [] = { s with
    evalCount := s.evalCount + 1
    evalBaseAbs := some ((s.totalRowsWritten : Int) - s.rowsFilled) } := rfl

theorem sighted_concat (bursts : List (DetectedBurst K)) (b : DetectedBurst K) :
    s.sighted (bursts ++ [b]) = (s.sighted bursts).absorb ((s.sighted bursts).sighting b) := by
  simp only [sighted, List.foldl_append, List.foldl_cons, List.foldl_nil]

/-- What sightings keep, and what one `_absorb` keeps, the whole evaluation keeps. -/
theorem sighted_induction {I : RollingBurstDetector K → Prop} (bursts : List (DetectedBurst K))
    (first : I (s.sighted []))
    (keeps : ∀ (m : RollingBurstDetector K), ∀ b ∈ bursts, I m → I (m.absorb (m.sighting b))) :
    I (s.sighted bursts) := by
  induction bursts using List.reverseRecOn with
  | nil => exact first
  | append_singleton bursts b ih =>
    rw [sighted_concat]
    exact keeps _ b (by simp) (ih fun m b member => keeps m b (List.mem_append_left _ member))

theorem Sound.sighted (sound : s.Sound) (bursts : List (DetectedBurst K)) : (s.sighted bursts).Sound := by
  refine sighted_induction bursts ?_ fun m b _ sound => sound.absorb (sighting_sound b)
  exact ⟨fun t member => (sound.tracks t member).later, sound.absorbed, sound.serials, sound.created,
    sound.emitted, sound.extent⟩

/-- One pass over the tracks emits each finished one and lets go the ones that
have scrolled out, all of them emitted. -/
theorem mark_perm (evalCount : Nat) (base : Int) (tracked : List (TrackedBurst K)) :
    let marked := tracked.map fun t => t.mark evalCount base
    ((tracked.filter TrackedBurst.emitted ++ tracked.filter fun t => t.Finished evalCount base).map
        TrackedBurst.serial).Perm
      (((marked.filter fun t => ¬ t.absEnd < base).filter TrackedBurst.emitted ++
        marked.filter fun t => t.absEnd < base).map TrackedBurst.serial) := by
  induction tracked with
  | nil => exact .nil
  | cons t rest ih =>
    simp only [List.map_append] at ih
    have marks : (t.mark evalCount base).emitted = true ↔ t.emitted = true ∨ t.Finished evalCount base :=
      TrackedBurst.mark_emitted base
    by_cases emitted : t.emitted = true
    · have finished : ¬ t.Finished evalCount base := fun finished => absurd finished.1 (by rw [emitted]; decide)
      have after := marks.mpr (Or.inl emitted)
      by_cases gone : t.absEnd < base
      · simpa [List.filter_cons, emitted, finished, after, gone] using (ih.cons t.serial).trans List.perm_middle.symm
      · simpa [List.filter_cons, emitted, finished, after, gone, not_lt.mp gone] using ih.cons t.serial
    · by_cases finished : t.Finished evalCount base
      · have after := marks.mpr (Or.inr finished)
        by_cases gone : t.absEnd < base
        · simpa [List.filter_cons, emitted, finished, after, gone] using
            List.perm_middle.trans ((ih.cons t.serial).trans List.perm_middle.symm)
        · simpa [List.filter_cons, emitted, finished, after, gone, not_lt.mp gone] using
            List.perm_middle.trans (ih.cons t.serial)
      · have kept : ¬ t.absEnd < base := fun gone => finished ⟨by simpa using emitted, Or.inr gone⟩
        have after : (t.mark evalCount base).emitted = false := by
          simpa [emitted, finished] using marks
        simpa [List.filter_cons, emitted, finished, after, kept, not_lt.mp kept] using ih

theorem mem_collected {t : TrackedBurst K} {base : Int} :
    t ∈ (s.collectFinished base).tracked ↔ (∃ u ∈ s.tracked, u.mark s.evalCount base = t) ∧ ¬ t.absEnd < base := by
  simp [collectFinished]

theorem collected_perm (base : Int) : ((s.collectFinished base).tracked ++ (s.collectFinished base).dropped).Perm
    (s.tracked.map (fun t => t.mark s.evalCount base) ++ s.dropped) := by
  have split := List.filter_append_perm (fun t : TrackedBurst K => decide (t.absEnd < base))
    (s.tracked.map fun t => t.mark s.evalCount base)
  simp only [← decide_not] at split
  refine (List.perm_append_comm.append_left _).trans ?_
  rw [← List.append_assoc]
  exact (List.perm_append_comm.trans split).append_right s.dropped

theorem mark_map {β : Type*} (f : TrackedBurst K → β) (base : Int)
    (same : ∀ t : TrackedBurst K, f (t.mark s.evalCount base) = f t) :
    (s.tracked.map fun t => t.mark s.evalCount base).map f = s.tracked.map f := by
  rw [List.map_map]
  exact List.map_congr_left fun t _ => same t

theorem Sound.collectFinished (sound : s.Sound) (base : Int) : (s.collectFinished base).Sound := by
  have serials : (((s.collectFinished base).tracked ++ (s.collectFinished base).dropped).map
      TrackedBurst.serial).Perm ((s.tracked ++ s.dropped).map TrackedBurst.serial) := by
    refine ((collected_perm base).map _).trans (.of_eq ?_)
    rw [List.map_append, List.map_append, mark_map _ base fun t => TrackedBurst.mark_serial base]
  refine ⟨fun t member => ?_, ?_, serials.nodup_iff.mpr sound.serials, fun t member => ?_, ?_, fun e member => ?_⟩
  · obtain ⟨⟨u, tracked, rfl⟩, _⟩ := mem_collected.mp member
    exact (sound.tracks u tracked).mark base
  · refine ((collected_perm base).flatMap_right _).trans (.trans (.of_eq ?_) sound.absorbed)
    simp only [List.flatMap_def, List.map_append, mark_map _ base fun t => TrackedBurst.mark_absorbed base]
  · obtain ⟨u, member, same⟩ := List.mem_map.mp (serials.mem_iff.mp (List.mem_map_of_mem member))
    exact same ▸ sound.created u member
  · have marks := mark_perm s.evalCount base s.tracked
    have emitted := sound.emitted
    simp only [List.map_append] at marks emitted
    simp only [RollingBurstDetector.collectFinished, List.map_append, List.map_map]
    refine (emitted.append_right _).trans ?_
    rw [List.append_assoc]
    refine (List.perm_append_comm.append_left _).trans ?_
    rw [← List.append_assoc]
    refine (marks.append_right _).trans ?_
    rw [List.append_assoc]
    exact List.perm_append_comm.append_left _
  · rcases List.mem_append.mp member with old | new
    · exact sound.extent e old
    · obtain ⟨t, finished, rfl⟩ := List.mem_map.mp new
      exact (sound.tracks t (List.mem_filter.mp finished).1).union base

theorem Sound.create (windowRows evalInterval : Nat) (tol : K) : (create windowRows evalInterval tol).Sound where
  tracks := nofun
  absorbed := .nil
  serials := .nil
  created := nofun
  emitted := .nil
  extent := nofun

/-- The detections of an evaluation change only what `_absorb` changes. -/
theorem sighted_frame (bursts : List (DetectedBurst K)) :
    (s.sighted bursts).totalRowsWritten = s.totalRowsWritten ∧ (s.sighted bursts).rowsFilled = s.rowsFilled ∧
      (s.sighted bursts).evalCount = s.evalCount + 1 ∧ (s.sighted bursts).emissions = s.emissions ∧
      (s.sighted bursts).dropped = s.dropped ∧
      (s.sighted bursts).evalBaseAbs = some ((s.totalRowsWritten : Int) - s.rowsFilled) := by
  refine sighted_induction (I := fun m => m.totalRowsWritten = s.totalRowsWritten ∧ m.rowsFilled = s.rowsFilled ∧
    m.evalCount = s.evalCount + 1 ∧ m.emissions = s.emissions ∧ m.dropped = s.dropped ∧
    m.evalBaseAbs = some ((s.totalRowsWritten : Int) - s.rowsFilled)) bursts ⟨rfl, rfl, rfl, rfl, rfl, rfl⟩ ?_
  intro m b _ same
  rw [absorb_rows.1, absorb_rows.2, absorb_evalCount, absorb_emissions, absorb_dropped, absorb_evalBaseAbs]
  exact same

/-- The rows of a call are counted, and its turn to evaluate is used up. -/
def counted (s : RollingBurstDetector K) (call : Feed K) : RollingBurstDetector K :=
  { s.written call.rows with rowsSinceEval := 0 }

theorem Sound.counted (sound : s.Sound) (call : Feed K) : (s.counted call).Sound :=
  ⟨sound.tracks, sound.absorbed, sound.serials, sound.created, sound.emitted, sound.extent⟩

theorem Sound.written (sound : s.Sound) (call : Feed K) : (s.written call.rows).Sound :=
  ⟨sound.tracks, sound.absorbed, sound.serials, sound.created, sound.emitted, sound.extent⟩

/-- A call of `feed` either evaluates, in the state `toCollect` gives, or only
counts its rows. -/
theorem feed_cases (s : RollingBurstDetector K) (call : Feed K) :
    (s.toCollect call = some ((s.counted call).sighted call.detected) ∧
      s.feed call = ((s.counted call).sighted call.detected).collectFinished
        ((s.counted call).totalRowsWritten - (s.counted call).rowsFilled)) ∨
      s.feed call = s.written call.rows := by
  by_cases ready : (s.written call.rows).Ready
  · exact Or.inl ⟨if_pos ready, if_pos ready⟩
  · exact Or.inr (if_neg ready)

theorem Sound.feed (sound : s.Sound) (call : Feed K) : (s.feed call).Sound := by
  obtain ⟨_, feed⟩ | feed := s.feed_cases call
  · rw [feed]
    exact ((sound.counted call).sighted call.detected).collectFinished _
  · rw [feed]
    exact sound.written call

theorem Sound.due (sound : s.Sound) {call : Feed K} (steady : s.Steady call)
    (due : ∀ e ∈ s.emissions, e.Settled ∨ e.track.absEnd < e.base) :
    ∀ e ∈ (s.feed call).emissions, e.Settled ∨ e.track.absEnd < e.base := by
  obtain ⟨evaluates, feed⟩ | feed := s.feed_cases call
  · obtain ⟨total, filled, _, emissions, _, _⟩ := (s.counted call).sighted_frame call.detected
    have tracks := ((sound.counted call).sighted call.detected).tracks
    have steady := steady _ evaluates
    rw [feed]
    rw [total, filled] at steady
    intro e member
    rcases List.mem_append.mp member with old | new
    · exact due e (emissions ▸ old)
    · obtain ⟨t, finished, rfl⟩ := List.mem_map.mp new
      obtain ⟨member, finished⟩ := List.mem_filter.mp finished
      have finished := of_decide_eq_true finished
      rcases steady t member finished with untouched | gone
      · rcases finished.2 with ⟨seen, _⟩ | gone
        · obtain ⟨x, rest, absorbed, last, _⟩ := (tracks t member).newest
          exact Or.inl ⟨⟨x, by rw [absorbed]; exact List.mem_cons_self .., last ▸ seen⟩, untouched⟩
        · exact Or.inr gone
      · exact Or.inr gone
  · rw [feed]
    exact due

theorem Sound.emitsOnce (sound : s.Sound) (due : ∀ e ∈ s.emissions, e.Settled ∨ e.track.absEnd < e.base) :
    s.EmitsOnce := by
  have all : ((s.tracked.filter TrackedBurst.emitted ++ s.dropped).map TrackedBurst.serial).Sublist
      ((s.tracked ++ s.dropped).map TrackedBurst.serial) :=
    (List.filter_sublist.append_right s.dropped).map _
  refine ⟨sound.absorbed, sound.serials, sound.emitted.nodup_iff.mpr (sound.serials.sublist all), fun t member => ?_,
    due, sound.extent⟩
  have emitted : t.serial ∈ (s.tracked.filter TrackedBurst.emitted ++ s.dropped).map TrackedBurst.serial :=
    List.mem_map_of_mem (List.mem_append_right _ member)
  exact List.mem_map.mp (sound.emitted.mem_iff.mpr emitted)

/-- In every run whose evaluations are steady, every track is emitted once, when due. -/
theorem Reach.emits_once {windowRows evalInterval : Nat} {tol : K}
    (reach : Reach Steady windowRows evalInterval tol s) : s.EmitsOnce := by
  have invariant : s.Sound ∧ ∀ e ∈ s.emissions, e.Settled ∨ e.track.absEnd < e.base := by
    refine reach.invariant (I := fun s => s.Sound ∧ ∀ e ∈ s.emissions, e.Settled ∨ e.track.absEnd < e.base)
      ⟨.create windowRows evalInterval tol, nofun⟩ fun s call s' holds steady goes => ?_
    obtain rfl := Option.some.inj goes
    exact ⟨holds.1.feed call, holds.1.due steady holds.2⟩
  exact invariant.1.emitsOnce invariant.2

/-- A burst of bandwidth 2 around 5. -/
def burstAt (startRow endRow : Int) : DetectedBurst ℚ :=
  { startRow, endRow, centerFreqHz := 5, bandwidthHz := 2, peakPowerDb := 0, peakFreqHz := 5,
    bandwidth_nonneg := by norm_num }

/-- A fragment beside it, of bandwidth 1 around 15/2. -/
def fragmentAt (startRow endRow : Int) : DetectedBurst ℚ :=
  { startRow, endRow, centerFreqHz := 15 / 2, bandwidthHz := 1, peakPowerDb := 0, peakFreqHz := 15 / 2,
    bandwidth_nonneg := by norm_num }

/-- A burst and its fragment reach the end of the window, then both end. -/
def endingTogether : List (Feed ℚ) :=
  [⟨10, [burstAt 2 10, fragmentAt 4 10]⟩, ⟨10, [burstAt 2 12, fragmentAt 4 12]⟩]

theorem Reach.emits_once_endingTogether :
    ∃ s, Runs.follow step (create 20 10 1) endingTogether = some s ∧ s.emissions.length = 1 ∧ s.EmitsOnce := by
  have meets : Runs.Meets step Steady (create 20 10 1) endingTogether := by decide +kernel
  have final : (Runs.follow step (create 20 10 1) endingTogether).map (fun s => s.emissions.length) = some 1 := by
    decide +kernel
  obtain ⟨s, goes, one⟩ := Option.map_eq_some_iff.mp final
  exact ⟨s, goes, one, Reach.emits_once (Runs.Reach.start.follow meets goes)⟩

/-- The fragment ends before the burst, and is absorbed after it. -/
theorem emits_once_fails :
    ¬ ∀ s : RollingBurstDetector ℚ, Reach (fun _ _ => True) 20 10 1 s → s.EmitsOnce := by
  intro once
  have final : (Runs.follow step (create 20 10 1) [⟨10, [burstAt 2 10, fragmentAt 4 6]⟩]).map
      (fun s => decide (∃ e ∈ s.emissions, ¬ (e.Settled ∨ e.track.absEnd < e.base))) = some true := by decide +kernel
  obtain ⟨s, goes, early⟩ := Option.map_eq_some_iff.mp final
  obtain ⟨e, member, early⟩ := of_decide_eq_true early
  exact early ((once s (.of_follow goes)).due e member)

/-- What the tracks and the emissions have to do with each other while nothing is lost. -/
structure Keeping (s : RollingBurstDetector K) : Prop extends s.Sound where
  reported : ∀ t ∈ s.tracked, t.emitted = true → ∀ x ∈ t.absorbed, s.Reported x
  gone : ∀ t ∈ s.dropped, ∀ x ∈ t.absorbed, s.Reported x
  unemitted : ∀ base ∈ s.evalBaseAbs, ∀ t ∈ s.tracked, t.emitted = false → ∀ x ∈ t.absorbed, x.absEnd < base → s.Reported x

theorem Keeping.noneLost (keeping : s.Keeping) : s.NoneLost := by
  intro x passed base evaluated scrolled
  obtain ⟨t, member, absorbed⟩ := List.mem_flatMap.mp (keeping.absorbed.mem_iff.mpr passed)
  rcases List.mem_append.mp member with tracked | dropped
  · cases emitted : t.emitted with
    | true => exact keeping.reported t tracked emitted x absorbed
    | false => exact keeping.unemitted base evaluated t tracked emitted x absorbed scrolled
  · exact keeping.gone t dropped x absorbed

/-- Before an evaluation collects, what an emitted track had before is reported. -/
theorem Keeping.earlier (keeping : s.Keeping) (bursts : List (DetectedBurst K)) :
    ∀ t ∈ (s.sighted bursts).tracked, t.emitted = true → ∀ x ∈ t.absorbed,
      x.eval < (s.sighted bursts).evalCount → (s.sighted bursts).Reported x := by
  refine sighted_induction (I := fun m => ∀ t ∈ m.tracked, t.emitted = true → ∀ x ∈ t.absorbed,
    x.eval < m.evalCount → m.Reported x) bursts (fun t member emitted x absorbed _ =>
      keeping.reported t member emitted x absorbed) fun m b _ ih t member emitted x absorbed before => ?_
  have same : (m.absorb (m.sighting b)).Reported x ↔ m.Reported x := by simp [Reported]
  rw [same]
  rw [absorb_evalCount] at before
  obtain ⟨_, tracked⟩ | ⟨_, left, u, right, split, _, tracked⟩ := absorb_cases m (m.sighting b)
  · rw [tracked] at member
    rcases List.mem_append.mp member with old | new
    · exact ih t old emitted x absorbed before
    · rw [List.mem_singleton.mp new] at emitted
      cases emitted
  · rw [split] at ih
    rw [tracked] at member
    rcases List.mem_append.mp member with old | rest
    · exact ih t (List.mem_append_left _ old) emitted x absorbed before
    · rcases List.mem_cons.mp rest with rfl | old
      · rcases List.mem_cons.mp absorbed with rfl | old
        · exact absurd before (lt_irrefl _)
        · exact ih u (List.mem_append_right _ (List.mem_cons_self ..)) emitted x old before
      · exact ih t (List.mem_append_right _ (List.mem_cons_of_mem _ old)) emitted x absorbed before

theorem Reported.collected {base : Int} (reported : s.Reported x) : (s.collectFinished base).Reported x := by
  obtain ⟨e, member, covers⟩ := reported
  exact ⟨e, List.mem_append_left _ member, covers⟩

/-- What a track has when it is emitted is reported. -/
theorem Sound.finished_reported (sound : s.Sound) {t : TrackedBurst K} {base : Int} (member : t ∈ s.tracked)
    (finished : t.Finished s.evalCount base) (absorbed : x ∈ t.absorbed) : (s.collectFinished base).Reported x := by
  refine ⟨⟨t, s.evalCount, base⟩, List.mem_append_right _ (List.mem_map.mpr ⟨t, ?_, rfl⟩), ?_⟩
  · exact List.mem_filter.mpr ⟨member, decide_eq_true finished⟩
  · exact ((sound.tracks t member).union base).covers absorbed

/-- Collecting reports what the finished tracks have; the conditions cover the
emitted tracks and the ones that stay open. -/
theorem Sound.collect_keeping (sound : s.Sound) {base : Int} (evaluated : s.evalBaseAbs = some base)
    (gone : ∀ t ∈ s.dropped, ∀ x ∈ t.absorbed, s.Reported x)
    (emitted : ∀ t ∈ s.tracked, t.emitted = true → ∀ x ∈ t.absorbed, s.Reported x)
    (stays : ∀ t ∈ s.tracked, t.emitted = false → ¬ t.Finished s.evalCount base →
      ∀ x ∈ t.absorbed, x.absEnd < base → s.Reported x) : (s.collectFinished base).Keeping := by
  have marked : ∀ t ∈ s.tracked, (t.mark s.evalCount base).emitted = true → ∀ x ∈ t.absorbed,
      (s.collectFinished base).Reported x := by
    intro t member after x absorbed
    rcases (TrackedBurst.mark_emitted base).mp after with before | finished
    · exact (emitted t member before x absorbed).collected
    · exact sound.finished_reported member finished absorbed
  refine { toSound := sound.collectFinished base, reported := ?_, gone := ?_, unemitted := ?_ }
  · intro t member after x absorbed
    obtain ⟨⟨u, tracked, rfl⟩, _⟩ := mem_collected.mp member
    exact marked u tracked after x (by rwa [TrackedBurst.mark_absorbed] at absorbed)
  · intro t member x absorbed
    rcases List.mem_append.mp member with old | new
    · exact (gone t old x absorbed).collected
    · obtain ⟨member, scrolled⟩ := List.mem_filter.mp new
      obtain ⟨u, tracked, rfl⟩ := List.mem_map.mp member
      rw [TrackedBurst.mark_absorbed] at absorbed
      have scrolled := of_decide_eq_true scrolled
      rw [TrackedBurst.mark_absEnd] at scrolled
      refine marked u tracked ((TrackedBurst.mark_emitted base).mpr ?_) x absorbed
      cases before : u.emitted with
      | true => exact Or.inl rfl
      | false => exact Or.inr ⟨before, Or.inr scrolled⟩
  · intro base' last t member before x absorbed scrolled
    obtain rfl : base = base' := Option.some.inj (evaluated.symm.trans last)
    obtain ⟨⟨u, tracked, rfl⟩, _⟩ := mem_collected.mp member
    rw [TrackedBurst.mark_absorbed] at absorbed
    have marks : (u.mark s.evalCount base).emitted = true ↔ u.emitted = true ∨ u.Finished s.evalCount base :=
      TrackedBurst.mark_emitted base
    rw [before] at marks
    have notYet : u.emitted = false ∧ ¬ u.Finished s.evalCount base := by simpa using marks
    exact (stays u tracked notYet.1 notYet.2 x absorbed scrolled).collected

theorem Keeping.feed (keeping : s.Keeping) {call : Feed K} (contained : s.Contained call) :
    (s.feed call).Keeping := by
  obtain ⟨evaluates, feed⟩ | feed := s.feed_cases call
  · obtain ⟨total, filled, evalCount, emissions, dropped, base⟩ := (s.counted call).sighted_frame call.detected
    have counted : (s.counted call).Keeping :=
      { toSound := keeping.toSound.counted call, reported := keeping.reported, gone := keeping.gone,
        unemitted := keeping.unemitted }
    have sound := counted.toSound.sighted call.detected
    have contained := contained _ evaluates
    rw [total, filled] at contained
    rw [feed]
    refine sound.collect_keeping base (fun t member x absorbed => ?_) (fun t member emitted x absorbed => ?_) ?_
    · rw [dropped] at member
      have reported := counted.gone t member x absorbed
      rwa [Reported, ← emissions] at reported
    · rcases ((sound.tracks t member).evals x absorbed).lt_or_eq with before | now
      · exact counted.earlier call.detected t member emitted x absorbed before
      · exact (contained t member).1 emitted x absorbed now
    · exact fun t member => (contained t member).2
  · rw [feed]
    exact
      { toSound := keeping.toSound.written call, reported := keeping.reported, gone := keeping.gone,
        unemitted := keeping.unemitted }

/-- In every run whose evaluations keep to it, no detected burst is lost. -/
theorem Reach.none_lost {windowRows evalInterval : Nat} {tol : K}
    (reach : Reach Contained windowRows evalInterval tol s) : s.NoneLost := by
  have first : (create windowRows evalInterval tol).Keeping :=
    { toSound := .create windowRows evalInterval tol, reported := nofun, gone := nofun, unemitted := nofun }
  refine (reach.invariant first fun s call s' keeping contained goes => ?_).noneLost
  obtain rfl := Option.some.inj goes
  exact keeping.feed contained

/-- A burst is detected, emitted, detected again up to row `second`, and scrolls out. -/
def seenTwice (second : Int) : List (Feed ℚ) :=
  [⟨10, [burstAt 2 6]⟩, ⟨10, [burstAt 2 second]⟩, ⟨10, []⟩, ⟨10, []⟩]

theorem Reach.none_lost_seenTwice :
    ∃ s, Runs.follow step (create 20 10 1) (seenTwice 6) = some s ∧
      s.passed.length = 2 ∧ s.evalBaseAbs = some 20 ∧ s.NoneLost := by
  have meets : Runs.Meets step Contained (create 20 10 1) (seenTwice 6) := by decide +kernel
  have final : (Runs.follow step (create 20 10 1) (seenTwice 6)).map (fun s => (s.passed.length, s.evalBaseAbs)) =
      some (2, some 20) := by decide +kernel
  obtain ⟨s, goes, passed⟩ := Option.map_eq_some_iff.mp final
  exact ⟨s, goes, (Prod.mk.inj passed).1, (Prod.mk.inj passed).2,
    Reach.none_lost (Runs.Reach.start.follow meets goes)⟩

/-- The burst resumes after its emission: its later rows are never emitted. -/
theorem none_lost_fails : ¬ ∀ s : RollingBurstDetector ℚ, Reach (fun _ _ => True) 20 10 1 s → s.NoneLost := by
  intro none
  have final : (Runs.follow step (create 20 10 1) (seenTwice 12)).map (fun s =>
      decide (∃ x ∈ s.passed, ∃ base ∈ s.evalBaseAbs, x.absEnd < base ∧ ¬ s.Reported x)) = some true := by
    decide +kernel
  obtain ⟨s, goes, lost⟩ := Option.map_eq_some_iff.mp final
  obtain ⟨x, passed, base, last, scrolled, unreported⟩ := of_decide_eq_true lost
  exact unreported (none s (.of_follow goes) x passed base last scrolled)

end RollingBurstDetector
end RFObserver
