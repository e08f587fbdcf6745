import RFObserver.Pipeline.RollupLoop

namespace RFObserver
namespace RollupLoop

variable (s : RollupLoop)

/-- The windows of a span of minutes in scan order. -/
def spanRows (since before : ℤ) : List WindowRow :=
  (Keyset.sorted StoredWindow.key (s.spanWindows since before)).map StoredWindow.row

/-- The rows of a minute are the fold of all windows of the minute. -/
def Exact (minute : ℤ) : Prop :=
  ∀ center, minuteAt s.minutes (minute, center) =
    minuteAt (foldWindows (s.spanRows minute (minute + 1))) (minute, center)

/-- Every minute between the marks is folded whole, the marks move outward, and
folding minutes between the marks again changes nothing. -/
structure ExactRollup : Prop where
  exact : ∀ oldest ∈ s.oldest, ∀ newest ∈ s.newest, ∀ minute, oldest ≤ minute → minute < newest →
    s.Exact minute
  again : ∀ oldest ∈ s.oldest, ∀ newest ∈ s.newest, ∀ since before, oldest ≤ since → before ≤ newest →
    ∀ key, minuteAt (upsertAvgMinutes s.minutes (foldWindows (s.spanRows since before))) key = minuteAt s.minutes key
  newestOutward : s.newestMarks.head? = s.newest ∧ s.newestMarks.Pairwise fun later earlier => earlier ≤ later
  oldestOutward : s.oldestMarks.head? = s.oldest ∧ s.oldestMarks.Pairwise fun later earlier => later ≤ earlier

/-- When a pass begins, a window that is neither stored nor queued starts after
now − lag. -/
def Assumed : Act → Prop
  | .submit row => ∀ horizon ∈ s.horizons, horizon < row.startTime
  | _ => True

/-- When a pass begins, no unfinished write is for a minute before both the
minute of now − lag and the minute of the first unfinished write. -/
def Ordered : Act → Prop
  | .begin now lag => ∀ first ∈ s.queue.head?, ∀ e ∈ s.queue,
    minuteKey (now - lag) ≤ minuteKey e.windowStart ∨ minuteKey first.windowStart ≤ minuteKey e.windowStart
  | _ => True

instance Assumed.decidable : ∀ act, Decidable (s.Assumed act)
  | .submit row => inferInstanceAs (Decidable (∀ horizon ∈ s.horizons, horizon < row.startTime))
  | .submitOther _ | .lands _ | .pops | .drained | .begin _ _ | .advance _ | .fails _ | .restart => isTrue trivial

instance Ordered.decidable : ∀ act, Decidable (s.Ordered act)
  | .begin now lag => inferInstanceAs (Decidable (∀ first ∈ s.queue.head?, ∀ e ∈ s.queue,
    minuteKey (now - lag) ≤ minuteKey e.windowStart ∨ minuteKey first.windowStart ≤ minuteKey e.windowStart))
  | .submit _ | .submitOther _ | .lands _ | .pops | .drained | .advance _ | .fails _ | .restart => isTrue trivial

def Reach (allowed : RollupLoop → Act → Prop) : RollupLoop → Prop :=
  Runs.Reach step create allowed

/-- No window below the minute can still come. -/
def Closed (minute : ℤ) : Prop :=
  (∃ horizon ∈ s.horizons, minute ≤ minuteKey horizon) ∧
    ∀ e ∈ s.queue, ∀ row ∈ e.row, minute ≤ minuteKey row.startTime

variable {s} {s' : RollupLoop} {since before minute : ℤ}

theorem minuteKey_mono {a b : ℚ} (le : a ≤ b) : minuteKey a ≤ minuteKey b :=
  Int.floor_le_floor (div_le_div_of_nonneg_right le (by norm_num))

theorem mem_spanWindows {w : StoredWindow} : w ∈ s.spanWindows since before ↔
    w ∈ s.windows ∧ since ≤ minuteKey w.row.startTime ∧ minuteKey w.row.startTime < before := by
  rw [spanWindows, List.mem_filter, decide_eq_true_eq, minuteKey, Int.le_floor, Int.floor_lt,
    le_div_iff₀ (by norm_num), div_lt_iff₀ (by norm_num)]

theorem Closed.mono {lower : ℤ} (closed : s.Closed minute) (le : lower ≤ minute) : s.Closed lower := by
  obtain ⟨⟨horizon, member, below⟩, queue⟩ := closed
  exact ⟨⟨horizon, member, le.trans below⟩, fun e queued row its => le.trans (queue e queued row its)⟩

/-- The windows of a key in a span are those of its minute. -/
theorem spanRows_filter (distinct : (s.windows.map StoredWindow.key).Nodup) {center : ℚ} (above : since ≤ minute)
    (below : minute < before) :
    (s.spanRows since before).filter (fun row => row.minute = (minute, center)) =
      (s.spanRows minute (minute + 1)).filter fun row => row.minute = (minute, center) := by
  have spans : ∀ {low high : ℤ}, low ≤ minute → minute < high →
      (s.spanRows low high).filter (fun row => row.minute = (minute, center)) =
        (Keyset.sorted StoredWindow.key
          (s.windows.filter fun w => w.row.minute = (minute, center))).map StoredWindow.row := by
    intro low high le lt
    rw [spanRows, List.filter_map]
    congr 1
    have same : ((fun row : WindowRow => decide (row.minute = (minute, center))) ∘ StoredWindow.row) =
        fun w => decide (w.row.minute = (minute, center)) := rfl
    rw [same, spanWindows, ← Keyset.sorted_filter _ (Keyset.map_filter_nodup _ distinct), List.filter_filter]
    congr 1
    refine List.filter_congr fun w member => ?_
    rw [Bool.and_eq_left_iff_imp]
    intro its
    have here : minuteKey w.row.startTime = minute := (Prod.mk.inj (of_decide_eq_true its)).1
    exact (List.mem_filter.mp (mem_spanWindows.mpr ⟨member, by omega, by omega⟩)).2
  rw [spans above below, spans le_rfl (by omega)]

theorem minuteAt_spanRows (distinct : (s.windows.map StoredWindow.key).Nodup) {center : ℚ} (above : since ≤ minute)
    (below : minute < before) :
    minuteAt (foldWindows (s.spanRows since before)) (minute, center) =
      minuteAt (foldWindows (s.spanRows minute (minute + 1))) (minute, center) := by
  rw [minuteAt_foldWindows, minuteAt_foldWindows, spanRows_filter distinct above below]

/-- A span has no summary of a minute outside it. -/
theorem minuteAt_outside {center : ℚ} (outside : minute < since ∨ before ≤ minute) :
    minuteAt (foldWindows (s.spanRows since before)) (minute, center) = none := by
  have none : (s.spanRows since before).filter (fun row => row.minute = (minute, center)) = [] := by
    rw [List.filter_eq_nil_iff]
    intro row member its
    obtain ⟨w, sorted, rfl⟩ := List.mem_map.mp member
    obtain ⟨_, above, below⟩ := mem_spanWindows.mp (Keyset.mem_sorted.mp sorted)
    have here : minuteKey w.row.startTime = minute := (Prod.mk.inj (of_decide_eq_true its)).1
    omega
  rw [minuteAt_foldWindows, none]
  rfl

/-- A key of no window has no summary. -/
theorem minuteAt_eq_none {key : ℤ × ℚ} (absent : ∀ w ∈ s.windows, w.row.minute ≠ key) :
    minuteAt (foldWindows (s.spanRows since before)) key = none := by
  have none : (s.spanRows since before).filter (fun row => row.minute = key) = [] := by
    rw [List.filter_eq_nil_iff]
    intro row member its
    obtain ⟨w, sorted, rfl⟩ := List.mem_map.mp member
    exact absent w (mem_spanWindows.mp (Keyset.mem_sorted.mp sorted)).1 (of_decide_eq_true its)
  rw [minuteAt_foldWindows, none]
  rfl

/-- What the steps keep of everything but the phase. -/
structure Base (s : RollupLoop) : Prop where
  ids : (s.windows.map StoredWindow.id).Nodup
  starts : ∀ e ∈ s.queue, ∀ row ∈ e.row, row.startTime = e.windowStart
  closed : ∀ newest ∈ s.newest, s.Closed newest
  ordered : ∀ oldest ∈ s.oldest, ∃ newest ∈ s.newest, oldest ≤ newest
  exact : ∀ oldest ∈ s.oldest, ∀ newest ∈ s.newest, ∀ minute, oldest ≤ minute → minute < newest →
    s.Exact minute
  backed : ∀ key, (∀ w ∈ s.windows, w.row.minute ≠ key) → minuteAt s.minutes key = none
  newestOutward : s.newestMarks.head? = s.newest ∧ s.newestMarks.Pairwise fun later earlier => earlier ≤ later
  oldestOutward : s.oldestMarks.head? = s.oldest ∧ s.oldestMarks.Pairwise fun later earlier => later ≤ earlier

/-- What holds of a span that is read, folded or marked. -/
def Spans (s : RollupLoop) (since before : ℤ) : RollupDirection → Prop
  | .forward closed => s.newest = some since ∧ since < before ∧ before ≤ closed ∧ s.Closed closed
  | .backfill _ => s.oldest = some before ∧ since < before

def PhaseOk (s : RollupLoop) : RollupPhase → Prop
  | .forwardKey closed => s.Closed closed
  | .forwardAnchor closed => s.Closed closed ∧ s.newest = none
  | .backfillNewest _ => s.oldest = none
  | .backfillAnchor _ key => s.newest = some key ∧ s.oldest = none
  | .reading direction since before read => s.Spans since before direction ∧
    ∃ rest, Keyset.sorted StoredWindow.key (s.spanWindows since before) = read ++ rest
  | .folding direction since before rows => s.Spans since before direction ∧ rows = s.spanRows since before
  | .marking direction since before => s.Spans since before direction ∧
    ∀ minute, since ≤ minute → minute < before → s.Exact minute
  | _ => True

structure Kept (s : RollupLoop) : Prop extends s.Base where
  phase : s.PhaseOk s.phase

theorem Base.keys (base : s.Base) : (s.windows.map StoredWindow.key).Nodup := by
  have distinct := base.ids
  rw [List.Nodup, List.pairwise_map] at distinct ⊢
  exact distinct.imp fun apart same => apart (Prod.mk.inj (toLex.injective same)).2

/-- A span ends in closed minutes. -/
theorem Base.spans_closed (base : s.Base) {direction : RollupDirection} (spans : s.Spans since before direction) :
    s.Closed before := by
  cases direction with
  | forward closed => exact spans.2.2.2.mono spans.2.2.1
  | backfill floor =>
    obtain ⟨newest, isNewest, le⟩ := base.ordered before (by rw [spans.1]; rfl)
    exact (base.closed newest isNewest).mono le

theorem Base.exactRollup (base : s.Base) : s.ExactRollup := by
  refine ⟨base.exact, ?_, base.newestOutward, base.oldestOutward⟩
  intro oldest isOldest newest isNewest since before above below key
  obtain ⟨minute, center⟩ := key
  rw [minuteAt_upsertAvgMinutes (foldWindows_keys_nodup _)]
  by_cases inside : since ≤ minute ∧ minute < before
  · have whole := base.exact oldest isOldest newest isNewest minute (by omega) (by omega) center
    rw [minuteAt_spanRows base.keys inside.1 inside.2, ← whole]
    cases minuteAt s.minutes (minute, center) <;> rfl
  · rw [minuteAt_outside (by omega)]
    rfl

/-- A step of the writer keeps the closed minutes and their windows. -/
structure Feeds (s s' : RollupLoop) : Prop where
  minutes : s'.minutes = s.minutes
  newest : s'.newest = s.newest
  oldest : s'.oldest = s.oldest
  newestMarks : s'.newestMarks = s.newestMarks
  oldestMarks : s'.oldestMarks = s.oldestMarks
  ids : (s'.windows.map StoredWindow.id).Nodup
  starts : ∀ e ∈ s'.queue, ∀ row ∈ e.row, row.startTime = e.windowStart
  closed : ∀ minute, s.Closed minute → s'.Closed minute
  stored : ∀ w ∈ s.windows, w ∈ s'.windows
  frozen : ∀ before, s.Closed before → ∀ since, s'.spanWindows since before = s.spanWindows since before

theorem Feeds.spanRows (feeds : Feeds s s') (closed : s.Closed before) (since : ℤ) :
    s'.spanRows since before = s.spanRows since before := by
  rw [RollupLoop.spanRows, feeds.frozen before closed since, RollupLoop.spanRows]

theorem Feeds.exact (feeds : Feeds s s') (closed : s.Closed before) (below : minute < before)
    (exact : s.Exact minute) : s'.Exact minute := by
  intro center
  rw [feeds.minutes, feeds.spanRows (closed.mono below) minute]
  exact exact center

theorem Base.feeds (base : s.Base) (feeds : Feeds s s') : s'.Base := by
  refine ⟨feeds.ids, feeds.starts, ?_, ?_, ?_, ?_, ?_, ?_⟩
  · rw [feeds.newest]
    exact fun newest isNewest => feeds.closed newest (base.closed newest isNewest)
  · rw [feeds.newest, feeds.oldest]
    exact base.ordered
  · rw [feeds.newest, feeds.oldest]
    intro oldest isOldest newest isNewest minute above below
    have exact := base.exact oldest isOldest newest isNewest minute above below
    exact feeds.exact (base.closed newest isNewest) below exact
  · intro key absent
    rw [feeds.minutes]
    exact base.backed key fun w member => absent w (feeds.stored w member)
  · rw [feeds.newest, feeds.newestMarks]
    exact base.newestOutward
  · rw [feeds.oldest, feeds.oldestMarks]
    exact base.oldestOutward

theorem Spans.feeds {direction : RollupDirection} (spans : s.Spans since before direction) (feeds : Feeds s s') :
    s'.Spans since before direction := by
  cases direction with
  | forward closed =>
    exact ⟨feeds.newest.trans spans.1, spans.2.1, spans.2.2.1, feeds.closed closed spans.2.2.2⟩
  | backfill floor => exact ⟨feeds.oldest.trans spans.1, spans.2⟩

theorem Base.phase_feeds (base : s.Base) (feeds : Feeds s s') {phase : RollupPhase} (ok : s.PhaseOk phase) :
    s'.PhaseOk phase := by
  cases phase with
  | forwardKey closed => exact feeds.closed closed ok
  | forwardAnchor closed => exact ⟨feeds.closed closed ok.1, feeds.newest.trans ok.2⟩
  | backfillNewest floor => exact feeds.oldest.trans ok
  | backfillAnchor floor key => exact ⟨feeds.newest.trans ok.1, feeds.oldest.trans ok.2⟩
  | reading direction since before read =>
    obtain ⟨spans, rest, split⟩ := ok
    refine ⟨spans.feeds feeds, rest, ?_⟩
    rw [feeds.frozen before (base.spans_closed spans) since]
    exact split
  | folding direction since before rows =>
    obtain ⟨spans, rfl⟩ := ok
    exact ⟨spans.feeds feeds, (feeds.spanRows (base.spans_closed spans) since).symm⟩
  | marking direction since before =>
    obtain ⟨spans, exact⟩ := ok
    refine ⟨spans.feeds feeds, fun minute above below => ?_⟩
    exact feeds.exact (base.spans_closed spans) below (exact minute above below)
  | _ => trivial

/-- The queue changes, and no window lands. -/
theorem Base.feeds_queue (base : s.Base) {queue : List PendingWrite} (phase : RollupPhase)
    (starts : ∀ e ∈ queue, ∀ row ∈ e.row, row.startTime = e.windowStart)
    (late : ∀ minute, s.Closed minute → ∀ e ∈ queue, ∀ row ∈ e.row, minute ≤ minuteKey row.startTime) :
    Feeds s { s with queue, phase } :=
  ⟨rfl, rfl, rfl, rfl, rfl, base.ids, starts, fun minute closed => ⟨closed.1, late minute closed⟩,
    fun _ member => member, fun _ _ _ => rfl⟩

theorem Base.feeds_empty (base : s.Base) (phase : RollupPhase) : Feeds s { s with queue := [], phase } := by
  refine base.feeds_queue phase ?_ ?_
  · intro e queued
    cases queued
  · intro minute closed e queued
    cases queued

/-- A window that lands is not in a closed minute. -/
theorem Base.feeds_lands (base : s.Base) {id : Nat} {windowStart : ℚ} {row : WindowRow} {rest : List PendingWrite}
    (head : s.queue = ⟨windowStart, some row⟩ :: rest) (fresh : ∀ w ∈ s.windows, w.id < id) :
    Feeds s { s with windows := s.windows ++ [⟨id, row⟩], queue := ⟨windowStart, none⟩ :: rest } := by
  have queued : ⟨windowStart, some row⟩ ∈ s.queue := by rw [head]; exact List.mem_cons_self ..
  have others : ∀ e ∈ (⟨windowStart, none⟩ :: rest : List PendingWrite), ∀ r ∈ e.row, e ∈ s.queue := by
    intro e member r its
    rcases List.mem_cons.mp member with rfl | later
    · cases its
    · rw [head]
      exact List.mem_cons_of_mem _ later
  refine ⟨rfl, rfl, rfl, rfl, rfl, ?_, ?_, ?_, fun w member => List.mem_append_left _ member, ?_⟩
  · rw [List.map_append, List.nodup_append]
    refine ⟨base.ids, List.pairwise_singleton _ _, fun old member new last same => ?_⟩
    obtain ⟨w, stored, rfl⟩ := List.mem_map.mp member
    rw [List.map_singleton, List.mem_singleton] at last
    have below := fresh w stored
    rw [same, last] at below
    exact absurd below (lt_irrefl _)
  · exact fun e member r its => base.starts e (others e member r its) r its
  · exact fun minute closed => ⟨closed.1, fun e member r its => closed.2 e (others e member r its) r its⟩
  · intro before closed since
    have late := closed.2 _ queued row rfl
    rw [spanWindows, List.filter_append, List.filter_singleton]
    have outside : ¬ (⟨id, row⟩ : StoredWindow) ∈
        RollupLoop.spanWindows { s with windows := [⟨id, row⟩] } since before := by
      intro member
      have below := (mem_spanWindows.mp member).2.2
      exact absurd (lt_of_lt_of_le below late) (lt_irrefl _)
    rw [spanWindows, List.mem_filter] at outside
    simp only [List.mem_singleton_self, true_and, Bool.not_eq_true] at outside
    rw [outside, cond_false, List.append_nil, spanWindows]

/-- A mark beyond the latest one is beyond all. -/
theorem outward_cons {R : ℤ → ℤ → Prop} {marks : List ℤ} {last mark : ℤ}
    (trans : ∀ a b c, R a b → R b c → R a c) (head : marks.head? = some last) (outward : marks.Pairwise R)
    (beyond : R mark last) : (mark :: marks).Pairwise R := by
  cases marks with
  | nil => exact List.pairwise_singleton R mark
  | cons m rest =>
    obtain rfl := Option.some.inj head
    refine List.pairwise_cons.mpr ⟨fun earlier member => ?_, outward⟩
    rcases List.mem_cons.mp member with rfl | older
    · exact beyond
    · exact trans _ _ _ beyond ((List.pairwise_cons.mp outward).1 earlier older)

theorem Base.setNewest (base : s.Base) {mark : ℤ} (closed : s.Closed mark)
    (outward : ∀ newest ∈ s.newest, newest ≤ mark)
    (ordered : ∀ oldest ∈ s.oldest, oldest ≤ mark)
    (exact : ∀ oldest ∈ s.oldest, ∀ minute, oldest ≤ minute → minute < mark → s.Exact minute) :
    (s.setNewest mark).Base := by
  refine ⟨base.ids, base.starts, ?_, fun oldest isOldest => ⟨mark, rfl, ordered oldest isOldest⟩, ?_, base.backed,
    ⟨rfl, ?_⟩, base.oldestOutward⟩
  · intro newest isNewest
    obtain rfl := Option.some.inj isNewest
    exact closed
  · intro oldest isOldest newest isNewest
    obtain rfl := Option.some.inj isNewest
    exact exact oldest isOldest
  · cases last : s.newest with
    | none =>
      have none : s.newestMarks = [] := List.head?_eq_none_iff.mp (base.newestOutward.1.trans last)
      simp [RollupLoop.setNewest, none]
    | some newest =>
      refine outward_cons (fun a b c ab bc => bc.trans ab) (base.newestOutward.1.trans last) base.newestOutward.2 ?_
      exact outward newest last

theorem Base.setOldest (base : s.Base) {mark : ℤ} (outward : ∀ oldest ∈ s.oldest, mark ≤ oldest)
    (ordered : ∃ newest ∈ s.newest, mark ≤ newest)
    (exact : ∀ newest ∈ s.newest, ∀ minute, mark ≤ minute → minute < newest → s.Exact minute) :
    (s.setOldest mark).Base := by
  refine ⟨base.ids, base.starts, base.closed, ?_, ?_, base.backed, base.newestOutward, ⟨rfl, ?_⟩⟩
  · intro oldest isOldest
    obtain rfl := Option.some.inj isOldest
    exact ordered
  · intro oldest isOldest newest isNewest
    obtain rfl := Option.some.inj isOldest
    exact exact newest isNewest
  · cases last : s.oldest with
    | none =>
      have none : s.oldestMarks = [] := List.head?_eq_none_iff.mp (base.oldestOutward.1.trans last)
      simp [RollupLoop.setOldest, none]
    | some oldest =>
      refine outward_cons (fun a b c ab bc => ab.trans bc) (base.oldestOutward.1.trans last) base.oldestOutward.2 ?_
      exact outward oldest last

/-- The state after the windows of a span have been folded. -/
def folded (s : RollupLoop) (since before : ℤ) : RollupLoop :=
  { s with minutes := upsertAvgMinutes s.minutes (foldWindows (s.spanRows since before)) }

theorem Base.folded_exact (base : s.Base) (above : since ≤ minute) (below : minute < before) :
    (s.folded since before).Exact minute := by
  intro center
  change minuteAt (upsertAvgMinutes s.minutes (foldWindows (s.spanRows since before))) (minute, center) =
    minuteAt (foldWindows (s.spanRows minute (minute + 1))) (minute, center)
  rw [minuteAt_upsertAvgMinutes (foldWindows_keys_nodup _), minuteAt_spanRows base.keys above below]
  cases found : minuteAt (foldWindows (s.spanRows minute (minute + 1))) (minute, center) with
  | some m => rfl
  | none =>
    rw [Option.none_or]
    refine base.backed _ fun w member its => ?_
    have here : minuteKey w.row.startTime = minute := (Prod.mk.inj its).1
    have inSpan : w ∈ s.spanWindows minute (minute + 1) := mem_spanWindows.mpr ⟨member, by omega, by omega⟩
    have inRows : w.row ∈ (s.spanRows minute (minute + 1)).filter fun row => row.minute = (minute, center) :=
      List.mem_filter.mpr ⟨List.mem_map_of_mem (Keyset.mem_sorted.mpr inSpan), decide_eq_true its⟩
    rw [minuteAt_foldWindows, Option.map_eq_none_iff] at found
    cases rows : (s.spanRows minute (minute + 1)).filter fun row => row.minute = (minute, center) with
    | nil =>
      rw [rows] at inRows
      cases inRows
    | cons row rest =>
      rw [rows] at found
      cases found

theorem Base.folded (base : s.Base) (since before : ℤ) : (s.folded since before).Base := by
  refine ⟨base.ids, base.starts, base.closed, base.ordered, ?_, ?_, base.newestOutward, base.oldestOutward⟩
  · intro oldest isOldest newest isNewest minute above below
    by_cases inside : since ≤ minute ∧ minute < before
    · exact base.folded_exact inside.1 inside.2
    · intro center
      refine Eq.trans ?_ (base.exact oldest isOldest newest isNewest minute above below center)
      refine (minuteAt_upsertAvgMinutes (foldWindows_keys_nodup _) _).trans ?_
      rw [minuteAt_outside (by omega), Option.none_or]
  · intro key absent
    have none : minuteAt (foldWindows (s.spanRows since before)) key = none := minuteAt_eq_none absent
    refine (minuteAt_upsertAvgMinutes (foldWindows_keys_nodup _) key).trans ?_
    rw [none, Option.none_or]
    exact base.backed key absent

/-- What a statement of the loop writes. -/
theorem Base.write (base : s.Base) (ok : s.PhaseOk s.phase) : s.write.Base := by
  cases phase : s.phase with
  | forwardAnchor closed =>
    rw [phase] at ok
    have first : ∀ newest ∈ s.newest, False := fun newest isNewest => by rw [ok.2] at isNewest; cases isNewest
    have noOldest : ∀ oldest ∈ s.oldest, False := fun oldest isOldest => by
      obtain ⟨newest, isNewest, _⟩ := base.ordered oldest isOldest
      exact first newest isNewest
    have writes : s.write = s.setNewest closed := by simp only [RollupLoop.write, phase]
    rw [writes]
    exact base.setNewest ok.1 (fun newest isNewest => (first newest isNewest).elim)
      (fun oldest isOldest => (noOldest oldest isOldest).elim) fun oldest isOldest => (noOldest oldest isOldest).elim
  | backfillAnchor floor key =>
    rw [phase] at ok
    have writes : s.write = s.setOldest key := by simp only [RollupLoop.write, phase]
    rw [writes]
    refine base.setOldest (fun oldest isOldest => ?_) ⟨key, ok.1, le_rfl⟩
      fun newest isNewest minute above below => ?_
    · rw [ok.2] at isOldest
      cases isOldest
    · obtain rfl : key = newest := Option.some.inj (ok.1.symm.trans isNewest)
      omega
  | folding direction since before rows =>
    rw [phase] at ok
    obtain ⟨_, rfl⟩ := ok
    have writes : s.write = s.folded since before := by rw [RollupLoop.write, RollupLoop.folded, phase]
    rw [writes]
    exact base.folded since before
  | marking direction since before =>
    rw [phase] at ok
    obtain ⟨spans, exact⟩ := ok
    cases direction with
    | forward closed =>
      obtain ⟨newest, less, le, isClosed⟩ := spans
      have bound : ∀ oldest ∈ s.oldest, oldest ≤ since := fun oldest isOldest => by
        obtain ⟨n, isNewest, le⟩ := base.ordered oldest isOldest
        obtain rfl : since = n := Option.some.inj (newest.symm.trans isNewest)
        exact le
      have writes : s.write = s.setNewest before := by simp only [RollupLoop.write, phase]
      rw [writes]
      refine base.setNewest (isClosed.mono le) (fun n isNewest => ?_)
        (fun oldest isOldest => (bound oldest isOldest).trans less.le) fun oldest isOldest minute above below => ?_
      · obtain rfl : since = n := Option.some.inj (newest.symm.trans isNewest)
        exact less.le
      · by_cases inside : since ≤ minute
        · exact exact minute inside below
        · exact base.exact oldest isOldest since newest minute above (by omega)
    | backfill floor =>
      obtain ⟨oldest, less⟩ := spans
      obtain ⟨newest, isNewest, le⟩ := base.ordered before oldest
      have writes : s.write = s.setOldest since := by simp only [RollupLoop.write, phase]
      rw [writes]
      refine base.setOldest (fun o isOldest => ?_) ⟨newest, isNewest, less.le.trans le⟩
        fun n isN minute above below => ?_
      · obtain rfl : before = o := Option.some.inj (oldest.symm.trans isOldest)
        exact less.le
      · by_cases inside : minute < before
        · exact exact minute above inside
        · exact base.exact before oldest n isN minute (by omega) below
  | _ =>
    have writes : s.write = s := by simp only [RollupLoop.write, phase]
    rw [writes]
    exact base

theorem enterForward_ok {closed mark : ℤ} (isClosed : s.Closed closed) (newest : s.newest = some mark)
    (inTime : Bool) : s.PhaseOk (enterForward closed mark inTime) := by
  unfold enterForward
  split
  case isTrue goes =>
    refine ⟨⟨newest, ?_, min_le_right _ _, isClosed⟩, _, (List.nil_append _).symm⟩
    have span : (0 : ℤ) < rollupSpan := by decide
    exact lt_min (by omega) goes.1
  case isFalse => trivial

theorem enterBackfill_ok {floor mark : ℤ} (oldest : s.oldest = some mark) (inTime : Bool) :
    s.PhaseOk (enterBackfill floor mark inTime) := by
  unfold enterBackfill
  split
  case isTrue goes =>
    refine ⟨⟨oldest, ?_⟩, _, (List.nil_append _).symm⟩
    have span : (0 : ℤ) < rollupSpan := by decide
    exact max_lt (by omega) goes.1
  case isFalse => trivial

/-- A span without windows is exact as it is. -/
theorem Base.empty_exact (base : s.Base) (empty : s.spanWindows since before = []) (above : since ≤ minute)
    (below : minute < before) : s.Exact minute := by
  intro center
  have absent : ∀ w ∈ s.windows, w.row.minute ≠ (minute, center) := fun w member its => by
    have here : minuteKey w.row.startTime = minute := (Prod.mk.inj its).1
    have inSpan : w ∈ s.spanWindows since before := mem_spanWindows.mpr ⟨member, by omega, by omega⟩
    rw [empty] at inSpan
    cases inSpan
  rw [base.backed _ absent, minuteAt_eq_none absent]

/-- Reading goes on page by page, to all windows of the span. -/
theorem Base.reading_next (base : s.Base) {direction : RollupDirection} {read : List StoredWindow}
    (spans : s.Spans since before direction)
    (split : ∃ rest, Keyset.sorted StoredWindow.key (s.spanWindows since before) = read ++ rest)
    (phase : s.phase = .reading direction since before read) (inTime : Bool) : s.PhaseOk (s.next inTime) := by
  obtain ⟨rest, split⟩ := split
  have distinct := Keyset.map_filter_nodup
    (fun w : StoredWindow => (since : ℚ) * 60 ≤ w.row.startTime ∧ w.row.startTime < (before : ℚ) * 60) base.keys
  have page : s.page since before read = rest.take rollupChunk := Keyset.page_eq rollupChunk distinct split
  unfold RollupLoop.next
  rw [phase]
  dsimp only
  by_cases short : (s.page since before read).length < rollupChunk
  · have all : read ++ s.page since before read = Keyset.sorted StoredWindow.key (s.spanWindows since before) :=
      Keyset.page_last distinct split short
    rw [if_pos short]
    by_cases none : read ++ s.page since before read = []
    · rw [if_pos none]
      refine ⟨spans, fun minute above below => ?_⟩
      have empty : s.spanWindows since before = [] := by
        have length := (Keyset.sorted_perm StoredWindow.key (s.spanWindows since before)).length_eq
        rw [← all, none] at length
        exact List.length_eq_zero_iff.mp length.symm
      exact base.empty_exact empty above below
    · rw [if_neg none]
      exact ⟨spans, by rw [all]; rfl⟩
  · rw [if_neg short]
    refine ⟨spans, rest.drop rollupChunk, ?_⟩
    rw [page, split, List.append_assoc, List.take_append_drop]

theorem Base.next_ok (base : s.Base) (ok : s.PhaseOk s.phase) (inTime : Bool) : s.write.PhaseOk (s.next inTime) := by
  cases phase : s.phase with
  | forwardKey closed =>
    rw [phase] at ok
    simp only [RollupLoop.write, RollupLoop.next, phase]
    cases newest : s.newest with
    | none => exact ⟨ok, newest⟩
    | some since => exact enterForward_ok ok newest inTime
  | backfillKey floor =>
    simp only [RollupLoop.write, RollupLoop.next, phase]
    cases oldest : s.oldest with
    | none => exact oldest
    | some before => exact enterBackfill_ok oldest inTime
  | backfillNewest floor =>
    rw [phase] at ok
    simp only [RollupLoop.write, RollupLoop.next, phase]
    cases newest : s.newest with
    | none => trivial
    | some key => exact ⟨newest, ok⟩
  | backfillAnchor floor key =>
    simp only [RollupLoop.write, RollupLoop.next, phase]
    exact enterBackfill_ok rfl inTime
  | reading direction since before read =>
    rw [phase] at ok
    have same : s.write = s := by simp only [RollupLoop.write, phase]
    rw [same]
    exact base.reading_next ok.1 ok.2 phase inTime
  | folding direction since before rows =>
    rw [phase] at ok
    obtain ⟨spans, rfl⟩ := ok
    simp only [RollupLoop.write, RollupLoop.next, phase]
    exact ⟨spans, fun minute above below => base.folded_exact above below⟩
  | marking direction since before =>
    rw [phase] at ok
    simp only [RollupLoop.write, RollupLoop.next, phase]
    cases direction with
    | forward closed =>
      have isClosed : (s.setNewest before).Closed closed := ok.1.2.2.2
      exact enterForward_ok isClosed rfl inTime
    | backfill floor => exact enterBackfill_ok rfl inTime
  | backfillOldest =>
    simp only [RollupLoop.write, RollupLoop.next, phase]
    cases (s.windows.map fun w => w.row.startTime).min? with
    | none => trivial
    | some oldest => trivial
  | idle | forwardAnchor => simp only [RollupLoop.next, phase]; trivial

/-- The phase is not what these read. -/
theorem Base.goes (base : s.Base) (phase : RollupPhase) : { s with phase }.Base :=
  ⟨base.ids, base.starts, base.closed, base.ordered, base.exact, base.backed, base.newestOutward,
    base.oldestOutward⟩

theorem PhaseOk.goes {phase : RollupPhase} (ok : s.PhaseOk phase) : PhaseOk { s with phase } phase := by
  cases phase with
  | reading direction | folding direction | marking direction => cases direction <;> exact ok
  | _ => exact ok

theorem Base.kept (base : s.Base) {phase : RollupPhase} (ok : s.PhaseOk phase) : Kept { s with phase } :=
  ⟨base.goes phase, ok.goes⟩

theorem Base.begin (base : s.Base) {now lag : ℚ} (ordered : s.Ordered (.begin now lag)) :
    Kept { s with phase := .forwardKey (s.closed now lag), horizons := (now - lag) :: s.horizons } := by
  have still : ∀ minute, s.Closed minute → RollupLoop.Closed
      { s with phase := .forwardKey (s.closed now lag), horizons := (now - lag) :: s.horizons } minute := by
    intro minute closed
    obtain ⟨horizon, member, below⟩ := closed.1
    exact ⟨⟨horizon, List.mem_cons_of_mem _ member, below⟩, closed.2⟩
  refine ⟨⟨base.ids, base.starts, fun newest isNewest => still newest (base.closed newest isNewest), base.ordered,
    base.exact, base.backed, base.newestOutward, base.oldestOutward⟩, ⟨now - lag, List.mem_cons_self .., ?_⟩, ?_⟩
  · unfold RollupLoop.closed
    cases s.queue.head? with
    | none => exact le_rfl
    | some first => exact min_le_left _ _
  · intro e queued row its
    rw [base.starts e queued row its, RollupLoop.closed]
    cases head : s.queue.head? with
    | none =>
      rw [List.head?_eq_none_iff.mp head] at queued
      cases queued
    | some first =>
      rcases ordered first head e queued with late | behind
      · exact (min_le_left _ _).trans late
      · exact (min_le_right _ _).trans behind

theorem Kept.feeds (kept : s.Kept) (feeds : Feeds s s') (phase : s'.phase = s.phase) : s'.Kept :=
  ⟨kept.toBase.feeds feeds, by rw [phase]; exact kept.toBase.phase_feeds feeds kept.phase⟩

theorem Kept.step (kept : s.Kept) {act : Act} (assumed : s.Assumed act) (ordered : s.Ordered act)
    (goes : s.step act = some s') : s'.Kept := by
  have base := kept.toBase
  cases act <;> simp only [RollupLoop.step] at goes
  case submit row =>
    obtain rfl := Option.some.inj goes
    refine kept.feeds (base.feeds_queue s.phase ?_ ?_) rfl
    · intro e member r its
      rcases List.mem_append.mp member with old | new
      · exact base.starts e old r its
      · rw [List.mem_singleton.mp new] at its ⊢
        obtain rfl := Option.some.inj its
        rfl
    · intro minute closed e member r its
      rcases List.mem_append.mp member with old | new
      · exact closed.2 e old r its
      · rw [List.mem_singleton.mp new] at its
        obtain rfl := Option.some.inj its
        obtain ⟨horizon, begun, below⟩ := closed.1
        exact below.trans (minuteKey_mono (assumed horizon begun).le)
  case submitOther windowStart =>
    obtain rfl := Option.some.inj goes
    have old : ∀ e ∈ s.queue ++ [⟨windowStart, none⟩], ∀ r ∈ e.row, e ∈ s.queue := by
      intro e member r its
      rcases List.mem_append.mp member with old | new
      · exact old
      · rw [List.mem_singleton.mp new] at its
        cases its
    refine kept.feeds (base.feeds_queue s.phase ?_ ?_) rfl
    · exact fun e member r its => base.starts e (old e member r its) r its
    · exact fun minute closed e member r its => closed.2 e (old e member r its) r its
  case lands id =>
    split at goes
    case h_1 windowStart row rest head =>
      obtain ⟨fresh, same⟩ := Option.ite_none_right_eq_some.mp goes
      obtain rfl := Option.some.inj same
      exact kept.feeds (base.feeds_lands head fresh) rfl
    case h_2 => cases goes
  case pops =>
    obtain ⟨_, same⟩ := Option.ite_none_left_eq_some.mp goes
    obtain rfl := Option.some.inj same
    refine kept.feeds (base.feeds_queue s.phase ?_ ?_) rfl
    · exact fun e member => base.starts e (List.mem_of_mem_tail member)
    · exact fun minute closed e member => closed.2 e (List.mem_of_mem_tail member)
  case drained =>
    obtain rfl := Option.some.inj goes
    exact kept.feeds (base.feeds_empty s.phase) rfl
  case «begin» now lag =>
    obtain ⟨_, same⟩ := Option.ite_none_right_eq_some.mp goes
    obtain rfl := Option.some.inj same
    exact base.begin ordered
  case advance inTime =>
    obtain ⟨_, same⟩ := Option.ite_none_left_eq_some.mp goes
    obtain rfl := Option.some.inj same
    exact Base.kept (s := s.write) (base.write kept.phase) (base.next_ok kept.phase inTime)
  case fails applied =>
    obtain ⟨_, same⟩ := Option.ite_none_left_eq_some.mp goes
    obtain rfl := Option.some.inj same
    have written : (if applied = true then s.write else s).Base := by
      split
      case isTrue => exact base.write kept.phase
      case isFalse => exact base
    exact written.kept trivial
  case restart =>
    obtain rfl := Option.some.inj goes
    exact ⟨base.feeds (base.feeds_empty .idle), trivial⟩

theorem create_base : create.Base := by
  refine ⟨List.nodup_nil, ?_, ?_, ?_, ?_, fun _ _ => rfl, ⟨rfl, .nil⟩, ⟨rfl, .nil⟩⟩
  · exact fun e queued => (List.not_mem_nil queued).elim
  · exact fun newest isNewest => (Option.not_mem_none newest isNewest).elim
  · exact fun oldest isOldest => (Option.not_mem_none oldest isOldest).elim
  · exact fun oldest isOldest => (Option.not_mem_none oldest isOldest).elim

/-- In every run whose passes begin on an ordered queue, the rollup is exact. -/
theorem Reach.exact_rollup (reach : Reach (fun s act => s.Assumed act ∧ s.Ordered act) s) : s.ExactRollup := by
  have kept : s.Kept := by
    refine Runs.Reach.invariant ?_ (fun s act s' kept allowed goes => Kept.step kept allowed.1 allowed.2 goes) reach
    exact ⟨create_base, trivial⟩
  exact kept.toBase.exactRollup

def windowAt (startTime : ℚ) : WindowRow := ⟨startTime, 100, some 20, some 30, some (-40), some (-90), some (-80)⟩

/-- A window is stored and the first pass folds it back; then two windows are
queued, and the next pass begins before they land. -/
def queuedBehind (first second : ℚ) : List Act :=
  [.submit (windowAt 130), .lands 0, .pops, .begin 190 10, .advance true, .advance true, .advance true,
    .advance true, .advance true, .advance true, .advance true, .advance true, .advance true,
    .submit (windowAt first), .submit (windowAt second), .begin 400 10, .advance true, .advance true, .advance true,
    .advance true, .advance true, .lands 1, .pops, .lands 2, .pops]

theorem Reach.exact_rollup_queued : ∃ s, Reach (fun s act => s.Assumed act ∧ s.Ordered act) s ∧
    (s.oldest, s.newest) = (some 2, some 5) ∧ s.ExactRollup := by
  have meets : Runs.Meets step (fun s act => s.Assumed act ∧ s.Ordered act) create (queuedBehind 310 320) := by
    decide +kernel
  have final : (Runs.follow step create (queuedBehind 310 320)).map (fun s => (s.oldest, s.newest)) =
      some (some 2, some 5) := by decide +kernel
  obtain ⟨s, goes, marks⟩ := Option.map_eq_some_iff.mp final
  have reach : Reach (fun s act => s.Assumed act ∧ s.Ordered act) s := Runs.Reach.start.follow meets goes
  exact ⟨s, reach, marks, Reach.exact_rollup reach⟩

/-- The clock was set back between the two windows, so the second one is for an
earlier minute, which the pass folds without it. -/
theorem exact_rollup_fails : ∃ s, Reach Assumed s ∧ s.oldest = some 2 ∧ s.newest = some 5 ∧ ¬ s.Exact 3 ∧
    ¬ s.ExactRollup := by
  have meets : Runs.Meets step Assumed create (queuedBehind 310 200) := by decide +kernel
  have final : (Runs.follow step create (queuedBehind 310 200)).map (fun s => (s.oldest, s.newest,
      minuteAt s.minutes (3, 100), (minuteAt (foldWindows (s.spanRows 3 4)) (3, 100)).isSome)) =
      some (some 2, some 5, none, true) := by decide +kernel
  obtain ⟨s, goes, ends⟩ := Option.map_eq_some_iff.mp final
  simp only [Prod.mk.injEq] at ends
  obtain ⟨oldest, newest, stored, folds⟩ := ends
  have inexact : ¬ s.Exact 3 := by
    intro exact
    have same := exact 100
    rw [stored] at same
    rw [show (3 : ℤ) + 1 = 4 from rfl] at same
    rw [← same] at folds
    cases folds
  exact ⟨s, Runs.Reach.start.follow meets goes, oldest, newest, inexact, fun rollup =>
    inexact (rollup.exact 2 oldest 5 newest 3 (by omega) (by omega))⟩

end RollupLoop
end RFObserver
