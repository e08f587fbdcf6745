import RFObserver.Processing.RollingBurstRuns

namespace RFObserver

variable {K : Type*} [Field K] [LinearOrder K] [IsStrictOrderedRing K]

/-- The calls on the tracks: the start of an evaluation, a burst it found, and
its end. -/
inductive TrackCall (K : Type*) [Field K] [LinearOrder K]
  | evaluate
  | absorb (b : DetectedBurst K) (absStart absEnd : Int) (stillGrowing : Bool)
  | collect (base : Int)

namespace RollingBurstDetector

variable [FloorRing K]

/-- A burst as it is handed to `_absorb`. -/
def sightingAt (s : RollingBurstDetector K) (b : DetectedBurst K) (absStart absEnd : Int) (stillGrowing : Bool) :
    Sighting K :=
  { s.sighting b with absStart, absEnd, stillGrowing }

def trackStep (s : RollingBurstDetector K) : TrackCall K → Option (RollingBurstDetector K)
  | .evaluate => some { s with evalCount := s.evalCount + 1 }
  | .absorb b absStart absEnd stillGrowing => some (s.absorb (s.sightingAt b absStart absEnd stillGrowing))
  | .collect base => some (s.collectFinished base)

/-- The detectors that calls on the tracks lead to. -/
abbrev Tracking (binHz : K) (windowRows evalInterval : Nat) : RollingBurstDetector K → Prop :=
  Runs.Reach trackStep (create windowRows evalInterval (matchFreqTol binHz)) fun _ _ => True

/-- The first of the tracks that is close, found by looking at them all. -/
def linearScan (s : RollingBurstDetector K) (x : Sighting K) : Option Nat :=
  s.tracked.findIdx? fun t => decide (t.Close s.matchFreqTolHz x)

/-- What `_absorb` does to the tracks, with the linear scan. -/
def scanAbsorb (s : RollingBurstDetector K) (x : Sighting K) : List (TrackedBurst K) :=
  match s.linearScan x with
  | some i => s.tracked.modify i fun t => t.absorb x
  | none => s.tracked ++ [TrackedBurst.create x s.created]

/-- Every track lies under every bucket that its interval, widened by the
tolerance, touches, and the list has the tracks as they were created. -/
structure Indexed (s : RollingBurstDetector K) : Prop where
  positive : 0 < s.matchFreqTolHz
  tracks : ∀ t ∈ s.tracked, t.fLoHz ≤ t.fHiHz ∧ t.centerFreqHz = (t.fLoHz + t.fHiHz) / 2
  listed : ∀ (i : Nat) t, s.tracked[i]? = some t →
    ∀ k ∈ s.bucketRange (t.fLoHz - s.matchFreqTolHz) (t.fHiHz + s.matchFreqTolHz), i ∈ s.index k
  order : s.tracked.Pairwise fun a b => a.serial < b.serial
  serials : ∀ t ∈ s.tracked, t.serial < s.created

variable {s : RollingBurstDetector K} {x : Sighting K} {t : TrackedBurst K} {i : Nat}

omit [IsStrictOrderedRing K] in
theorem mem_bucketRange {lo hi : K} {k : Int} :
    k ∈ s.bucketRange lo hi ↔ ⌊lo / s.matchFreqTolHz⌋ - 1 ≤ k ∧ k < ⌊hi / s.matchFreqTolHz⌋ + 2 := by
  unfold bucketRange
  simp only [List.bind_eq_flatMap, List.pure_def, List.mem_map, List.mem_flatMap, List.mem_range, List.mem_singleton]
  constructor
  · rintro ⟨_, ⟨n, below, rfl⟩, rfl⟩
    omega
  · rintro ⟨above, below⟩
    exact ⟨_, ⟨(k - (⌊lo / s.matchFreqTolHz⌋ - 1)).toNat, by omega, rfl⟩, by omega⟩

/-- A track that is close shares a bucket with the burst. -/
theorem Indexed.candidate (indexed : s.Indexed) (ordered : x.fLoHz ≤ x.fHiHz)
    (center : x.centerFreqHz = (x.fLoHz + x.fHiHz) / 2) (at_ : s.tracked[i]? = some t)
    (close : t.Close s.matchFreqTolHz x) : i ∈ s.candidates x.fLoHz x.fHiHz := by
  obtain ⟨widths, middle⟩ := indexed.tracks t (List.mem_of_getElem? at_)
  obtain ⟨near, -⟩ := close
  have tol := indexed.positive
  rw [center, middle, abs_le] at near
  have low : t.fLoHz - s.matchFreqTolHz ≤ x.fHiHz := by linarith [near.1]
  have high : x.fLoHz ≤ t.fHiHz + s.matchFreqTolHz := by linarith [near.2]
  have floors : ∀ {a b : K}, a ≤ b → ⌊a / s.matchFreqTolHz⌋ ≤ ⌊b / s.matchFreqTolHz⌋ :=
    fun le => Int.floor_le_floor (div_le_div_of_nonneg_right le tol.le)
  have first := floors low
  have second := floors high
  have own := floors ordered
  have wide := floors (show t.fLoHz - s.matchFreqTolHz ≤ t.fHiHz + s.matchFreqTolHz by linarith)
  unfold candidates
  rw [List.mem_insertionSort, List.mem_dedup, List.mem_flatMap]
  refine ⟨max ⌊x.fLoHz / s.matchFreqTolHz⌋ ⌊(t.fLoHz - s.matchFreqTolHz) / s.matchFreqTolHz⌋, ?_,
    indexed.listed i t at_ _ ?_⟩
  · rw [mem_bucketRange]
    omega
  · rw [mem_bucketRange]
    omega

/-- The candidates tried in the order of insertion lead to the first track
that is close. -/
theorem Indexed.matchOf_eq (indexed : s.Indexed) (ordered : x.fLoHz ≤ x.fHiHz)
    (center : x.centerFreqHz = (x.fLoHz + x.fHiHz) / 2) : s.matchOf x = s.linearScan x := by
  have test : ∀ i : Nat, ((s.tracked[i]?).any fun t => decide (t.Close s.matchFreqTolHz x)) = true ↔
      ∃ t, s.tracked[i]? = some t ∧ t.Close s.matchFreqTolHz x := by
    intro i
    cases s.tracked[i]? with
    | none => simp
    | some t => simp
  unfold matchOf linearScan
  cases found : s.tracked.findIdx? fun t => decide (t.Close s.matchFreqTolHz x) with
  | none =>
    rw [List.findIdx?_eq_none_iff] at found
    refine List.find?_eq_none.mpr fun i _ close => ?_
    obtain ⟨t, at_, close⟩ := (test i).mp close
    have far := found t (List.mem_of_getElem? at_)
    exact absurd close (of_decide_eq_false far)
  | some j =>
    obtain ⟨inside, close, earlier⟩ := List.findIdx?_eq_some_iff_getElem.mp found
    have close' : (s.tracked[j]).Close s.matchFreqTolHz x := of_decide_eq_true close
    have member := indexed.candidate ordered center (List.getElem?_eq_getElem inside) close'
    have sorted : (s.candidates x.fLoHz x.fHiHz).Pairwise (· ≤ ·) := List.pairwise_insertionSort _ _
    have nodup : (s.candidates x.fLoHz x.fHiHz).Nodup :=
      (List.perm_insertionSort _ _).nodup_iff.mpr (List.nodup_dedup _)
    obtain ⟨before, after, split⟩ := List.append_of_mem member
    rw [split] at sorted nodup ⊢
    refine List.find?_eq_some_iff_append.mpr ⟨(test j).mpr ⟨_, List.getElem?_eq_getElem inside, close'⟩,
      before, after, rfl, fun i early => ?_⟩
    have le := (List.pairwise_append.mp sorted).2.2 i early j (List.mem_cons_self ..)
    have ne : i ≠ j := (List.nodup_append.mp nodup).2.2 i early j (List.mem_cons_self ..)
    rw [Bool.not_eq_true', ← Bool.not_eq_true, test]
    rintro ⟨t, at_, near⟩
    obtain ⟨_, rfl⟩ := List.getElem?_eq_some_iff.mp at_
    exact earlier i (by omega) (decide_eq_true near)

theorem sightingAt_centered (b : DetectedBurst K) (absStart absEnd : Int) (stillGrowing : Bool) :
    (s.sightingAt b absStart absEnd stillGrowing).fLoHz ≤ (s.sightingAt b absStart absEnd stillGrowing).fHiHz ∧
      (s.sightingAt b absStart absEnd stillGrowing).centerFreqHz =
        ((s.sightingAt b absStart absEnd stillGrowing).fLoHz +
          (s.sightingAt b absStart absEnd stillGrowing).fHiHz) / 2 := by
  have sound : (s.sighting b).Sound s.evalCount := sighting_sound b
  exact ⟨sound.ordered, sound.center⟩

omit [IsStrictOrderedRing K] in
theorem indexTrack_keeps {index : Int → List Nat} {i j : Nat} {k : Int} (listed : j ∈ index k) :
    j ∈ s.indexTrack index i t k := by
  unfold indexTrack
  split_ifs
  · exact List.mem_append_left _ listed
  · exact listed

omit [IsStrictOrderedRing K] in
theorem indexTrack_lists {index : Int → List Nat} {k : Int}
    (touched : k ∈ s.bucketRange (t.fLoHz - s.matchFreqTolHz) (t.fHiHz + s.matchFreqTolHz)) :
    i ∈ s.indexTrack index i t k := by
  unfold indexTrack
  rw [if_pos touched]
  exact List.mem_append_right _ (List.mem_singleton_self i)

/-- A burst is absorbed: only a track that widens goes under more buckets. -/
theorem Indexed.absorb (indexed : s.Indexed) (ordered : x.fLoHz ≤ x.fHiHz)
    (center : x.centerFreqHz = (x.fLoHz + x.fHiHz) / 2) : (s.absorb x).Indexed := by
  unfold RollingBurstDetector.absorb
  split
  · rename_i i found
    obtain ⟨t, at_, -⟩ := matchOf_close found
    rw [at_, Option.filter_some]
    dsimp only
    have atNew : ∀ j, (s.tracked.modify i fun t => t.absorb x)[j]? =
        if i = j then some (t.absorb x) else s.tracked[j]? := by
      intro j
      by_cases same : i = j
      · rw [if_pos same, ← same, List.getElem?_modify_eq, at_]
        rfl
      · rw [if_neg same]
        exact List.getElem?_modify_ne _ _ same
    have serials : (s.tracked.modify i fun t => t.absorb x).map TrackedBurst.serial =
        s.tracked.map TrackedBurst.serial := by
      refine List.ext_getElem? fun j => ?_
      rw [List.getElem?_map, List.getElem?_map, atNew]
      split_ifs with same
      · rw [← same, at_]
        rfl
      · rfl
    refine ⟨indexed.positive, ?_, ?_, ?_, ?_⟩
    · intro t' member
      obtain ⟨j, here⟩ := List.mem_iff_getElem?.mp member
      rw [atNew] at here
      split_ifs at here
      · cases Option.some.inj here
        have widths := (indexed.tracks t (List.mem_of_getElem? at_)).1
        exact ⟨(min_le_left _ _).trans (widths.trans (le_max_left _ _)), rfl⟩
      · exact indexed.tracks t' (List.mem_of_getElem? here)
    · intro j t' here k touched
      rw [atNew] at here
      by_cases widened : t.Widened x
      · rw [if_pos (by simpa using widened), Option.elim_some]
        split_ifs at here with same
        · cases Option.some.inj here
          exact same ▸ indexTrack_lists touched
        · exact indexTrack_keeps (indexed.listed j t' here k touched)
      · rw [if_neg (by simpa using widened), Option.elim_none]
        split_ifs at here with same
        · cases Option.some.inj here
          obtain ⟨low, high⟩ := not_or.mp widened
          have lowSame : (t.absorb x).fLoHz = t.fLoHz := min_eq_left (not_lt.mp low)
          have highSame : (t.absorb x).fHiHz = t.fHiHz := max_eq_left (not_lt.mp high)
          rw [lowSame, highSame] at touched
          exact indexed.listed j t (same ▸ at_) k touched
        · exact indexed.listed j t' here k touched
    · have order := List.pairwise_map.mpr indexed.order
      rw [← serials] at order
      exact List.pairwise_map.mp order
    · intro t' member
      have serial : t'.serial ∈ s.tracked.map TrackedBurst.serial := serials ▸ List.mem_map_of_mem member
      obtain ⟨u, old, same⟩ := List.mem_map.mp serial
      exact same ▸ indexed.serials u old
  · refine ⟨indexed.positive, ?_, ?_, ?_, ?_⟩
    · intro t member
      rcases List.mem_append.mp member with old | new
      · exact indexed.tracks t old
      · rw [List.mem_singleton.mp new]
        exact ⟨ordered, center⟩
    · intro j t here k touched
      rcases Nat.lt_trichotomy j s.tracked.length with old | rfl | beyond
      · rw [List.getElem?_append_left old] at here
        exact indexTrack_keeps (indexed.listed j t here k touched)
      · rw [List.getElem?_append_right le_rfl, Nat.sub_self] at here
        cases Option.some.inj here
        exact indexTrack_lists touched
      · have inside := (List.getElem?_eq_some_iff.mp here).1
        rw [List.length_append] at inside
        exact absurd inside (by simpa using beyond)
    · refine List.pairwise_append.mpr ⟨indexed.order, List.pairwise_singleton .., fun t old u new => ?_⟩
      rw [List.mem_singleton.mp new]
      exact indexed.serials t old
    · intro t member
      change t.serial < s.created + 1
      rcases List.mem_append.mp member with old | new
      · exact (indexed.serials t old).trans (Nat.lt_succ_self _)
      · rw [List.mem_singleton.mp new]
        exact Nat.lt_succ_self _

omit [IsStrictOrderedRing K] in
/-- The index built anew has every track under its buckets. -/
theorem rebuildIndex_lists (tracked : List (TrackedBurst K)) {k : Int} (here : tracked[i]? = some t)
    (touched : k ∈ s.bucketRange (t.fLoHz - s.matchFreqTolHz) (t.fHiHz + s.matchFreqTolHz)) :
    i ∈ s.rebuildIndex tracked k := by
  have all : ∀ (entries : List (TrackedBurst K × Nat)) (index : Int → List Nat),
      (i ∈ index k ∨ (t, i) ∈ entries) →
        i ∈ entries.foldl (fun index t => s.indexTrack index t.2 t.1) index k := by
    intro entries
    induction entries with
    | nil => exact fun index either => either.resolve_right List.not_mem_nil
    | cons entry entries ih =>
      intro index either
      refine ih _ ?_
      rcases either with old | member
      · exact Or.inl (indexTrack_keeps old)
      · rcases List.mem_cons.mp member with rfl | later
        · exact Or.inl (indexTrack_lists touched)
        · exact Or.inr later
  refine all _ _ (Or.inr ?_)
  rw [List.mem_zipIdx_iff_getElem?]
  exact here

theorem Indexed.collectFinished (indexed : s.Indexed) (base : Int) : (s.collectFinished base).Indexed where
  positive := indexed.positive
  tracks := by
    intro t member
    obtain ⟨⟨u, old, rfl⟩, -⟩ := mem_collected.mp member
    unfold TrackedBurst.mark
    split_ifs <;> exact indexed.tracks u old
  listed := fun i t here k touched => rebuildIndex_lists _ here touched
  order := by
    have marked : (s.tracked.map fun t => t.mark s.evalCount base).Pairwise fun a b => a.serial < b.serial := by
      refine List.pairwise_map.mpr (indexed.order.imp fun {a b} less => ?_)
      rw [TrackedBurst.mark_serial, TrackedBurst.mark_serial]
      exact less
    exact marked.filter _
  serials := by
    intro t member
    obtain ⟨⟨u, old, rfl⟩, -⟩ := mem_collected.mp member
    rw [TrackedBurst.mark_serial]
    exact indexed.serials u old

variable {binHz : K} {windowRows evalInterval : Nat}

theorem Tracking.indexed (tracking : Tracking binHz windowRows evalInterval s) : s.Indexed := by
  refine tracking.invariant (I := Indexed) ?_ ?_
  · refine ⟨lt_of_lt_of_le (by norm_num) (le_max_right _ _), ?_, ?_, List.Pairwise.nil, ?_⟩
    · exact List.forall_mem_nil _
    · intro i t here
      cases here
    · exact List.forall_mem_nil _
  · intro s call s' indexed _ taken
    cases call with
    | evaluate =>
      cases taken
      exact { indexed with }
    | absorb b absStart absEnd stillGrowing =>
      cases taken
      obtain ⟨ordered, center⟩ := @sightingAt_centered _ _ _ _ _ s b absStart absEnd stillGrowing
      exact indexed.absorb ordered center
    | collect base =>
      cases taken
      exact indexed.collectFinished base

/-- The burst index finds the track that a linear scan finds: the first one,
in the order of creation, that is near in frequency and in time. -/
theorem Tracking.finds_first (tracking : Tracking binHz windowRows evalInterval s) (b : DetectedBurst K)
    (absStart absEnd : Int) (stillGrowing : Bool) :
    let x := s.sightingAt b absStart absEnd stillGrowing
    s.tracked.Pairwise (fun t u => t.serial < u.serial) ∧ s.matchOf x = s.linearScan x ∧
      (s.absorb x).tracked = s.scanAbsorb x ∧
      ((s.absorb x).created = s.created + 1 ↔ ∀ t ∈ s.tracked, ¬ t.Close s.matchFreqTolHz x) := by
  intro x
  obtain ⟨ordered, center⟩ := @sightingAt_centered _ _ _ _ _ s b absStart absEnd stillGrowing
  have same : s.matchOf x = s.linearScan x := tracking.indexed.matchOf_eq ordered center
  refine ⟨tracking.indexed.order, same, ?_, ?_⟩
  · unfold RollingBurstDetector.absorb scanAbsorb
    rw [← same]
    cases s.matchOf x with
    | none => rfl
    | some i => rfl
  · have scanned : s.linearScan x = none ↔ ∀ t ∈ s.tracked, ¬ t.Close s.matchFreqTolHz x := by
      unfold linearScan
      rw [List.findIdx?_eq_none_iff]
      simp
    rw [← scanned, ← same]
    unfold RollingBurstDetector.absorb
    split <;> rename_i found <;> simp [found]

/-- A second burst, one tolerance above the first, joins its track. -/
theorem Tracking.finds_first_widened :
    let first := ((create 20 10 (matchFreqTol (500 : ℚ))).absorb
      ((create 20 10 (matchFreqTol (500 : ℚ))).sightingAt ⟨0, 5, 0, 100, 0, 0, by decide⟩ 0 5 false))
    let x := first.sightingAt ⟨0, 5, 1000, 100, 0, 0, by decide⟩ 4 8 false
    (first.absorb x).tracked = first.scanAbsorb x := by
  intro first x
  have tracking : Tracking (500 : ℚ) 20 10 first :=
    .next .start trivial (a := .absorb ⟨0, 5, 0, 100, 0, 0, by decide⟩ 0 5 false) rfl
  exact (Tracking.finds_first tracking ⟨0, 5, 1000, 100, 0, 0, by decide⟩ 4 8 false).2.2.1

end RollingBurstDetector
end RFObserver
