import RFObserver.Storage.PsdDecode
import RFObserver.Storage.TieredFold

namespace RFObserver
open Tally

namespace Grid

variable {g : Grid} {level : Nat}

theorem index_mono (positive : 0 < g.bucketSec) {epoch epoch' : ℚ} (le : epoch ≤ epoch') :
    g.index epoch ≤ g.index epoch' := by
  have shifted : (epoch - g.anchor) / g.bucketSec ≤ (epoch' - g.anchor) / g.bucketSec :=
    div_le_div_of_nonneg_right (sub_le_sub_right le _) positive.le
  have floors := Int.toNat_le_toNat (Int.floor_le_floor shifted)
  unfold index
  omega

theorem index_lt (nonempty : 0 < g.n) (epoch : ℚ) : g.index epoch < g.n := by
  unfold index
  omega

theorem create_n_pos (since until_ bucketSec : ℚ) : 0 < (create since until_ bucketSec).n :=
  lt_of_lt_of_le Nat.one_pos (le_max_left ..)

/-- Buckets are whole numbers of tier periods. -/
def Aligned (level : Nat) (g : Grid) : Prop :=
  ∃ m : Nat, 0 < m ∧ g.bucketSec = m * level ∧ ∃ j : ℤ, g.anchor = j * g.bucketSec

theorem create_aligned {m : Nat} (positive : 0 < m) (since until_ : ℚ) :
    (create since until_ (m * level)).Aligned level := ⟨m, positive, rfl, _, rfl⟩

theorem Aligned.bucketSec_pos (aligned : g.Aligned level) (positive : 0 < level) : 0 < g.bucketSec := by
  obtain ⟨m, pos, eq, -⟩ := aligned
  rw [eq]
  positivity

/-- All of a tier period is in one bucket. -/
theorem index_period (positive : 0 < level) (aligned : g.Aligned level) {epoch : ℚ} {bucket : ℤ}
    (period : bucketEpoch level epoch = bucket) : g.index epoch = g.index bucket := by
  obtain ⟨m, mPos, sec, j, anchor⟩ := aligned
  have levelNe : (level : ℚ) ≠ 0 := by exact_mod_cast positive.ne'
  have mNe : (m : ℚ) ≠ 0 := by exact_mod_cast mPos.ne'
  have floors : ∀ epoch : ℚ, ⌊(epoch - g.anchor) / g.bucketSec⌋ = (⌊epoch / level⌋ - j * m) / m := by
    intro epoch
    have shift : (epoch - g.anchor) / g.bucketSec = (epoch / level - ((j * m : ℤ) : ℚ)) / (m : ℕ) := by
      rw [anchor, sec]
      push_cast
      field_simp
    rw [shift, Int.floor_div_natCast, Int.floor_sub_intCast]
  have same : ⌊(bucket : ℚ) / level⌋ = ⌊epoch / level⌋ := by
    rw [← period, bucketEpoch]
    push_cast
    rw [mul_div_assoc, div_self levelNe, mul_one, Int.floor_intCast]
  rw [index, index, floors, floors, same]

end Grid

namespace Observes

variable {φ M : Type*} {addWindows : List AvgWindow → φ → φ} {addTiers : List StoredRow → φ → φ} {ok : φ → Prop}
  {op : M → M → M} {e : M} {get : φ → Nat → M} {f : AvgWindow → M} {g : StoredRow → M} {grid : Grid}
  [Std.Associative op] [Std.LawfulIdentity op e]

theorem sorted_windows (positive : 0 < grid.bucketSec) {rows : List AvgWindow}
    (sorted : rows.Pairwise fun v w => v.startTime ≤ w.startTime) :
    rows.Pairwise fun v w => grid.index v.startTime ≤ grid.index w.startTime :=
  sorted.imp fun le => Grid.index_mono positive le

theorem sorted_rows (positive : 0 < grid.bucketSec) {rows : List StoredRow}
    (sorted : rows.Pairwise fun r r' => r.bucketEpoch ≤ r'.bucketEpoch) :
    rows.Pairwise fun r r' => grid.index r.bucketEpoch ≤ grid.index r'.bucketEpoch :=
  sorted.imp fun le => Grid.index_mono positive (by exact_mod_cast le)

/-- A field per bucket that the runs of some of the rows are added to, where
the other rows would add nothing. -/
theorem ofRuns (positive : 0 < grid.bucketSec) {p : AvgWindow → Bool} {q : StoredRow → Bool}
    (keeps : ∀ rows fold, ok fold → ok (addWindows rows fold)) (keeps' : ∀ rows fold, ok fold → ok (addTiers rows fold))
    (silent : ∀ w, p w = false → f w = e) (silent' : ∀ r, q r = false → g r = e)
    (windows : ∀ rows fold, ok fold → rows.Pairwise (fun v w => v.startTime ≤ w.startTime) →
      get (addWindows rows fold) =
        addRuns op f (runs (fun w : AvgWindow => grid.index w.startTime) (rows.filter p)) (get fold))
    (tiers : ∀ rows fold, ok fold → get (addTiers rows fold) =
      addRuns op g (runs (fun r : StoredRow => grid.index r.bucketEpoch) (rows.filter q)) (get fold)) :
    Observes addWindows addTiers ok (pointwise op) (fun _ => e) get
      (fun w => single e (grid.index w.startTime) (f w)) fun r => single e (grid.index r.bucketEpoch) (g r) where
  windows := fun rows fold isOk sorted => by
    refine ⟨keeps rows fold isOk, ?_⟩
    rw [windows rows fold isOk sorted, addRuns_eq op e f ((sorted_windows positive sorted).filter p),
      tally_filter (pointwise op) fun _ => e]
    refine congrArg _ (tally_congr (pointwise op) (fun _ => e) fun w _ => ?_)
    by_cases kept : p w = true
    · rw [if_pos kept]
    · rw [if_neg kept, silent w (Bool.eq_false_of_not_eq_true kept)]
      funext i
      exact (ite_self e).symm
  tiers := fun rows fold isOk sorted => by
    refine ⟨keeps' rows fold isOk, ?_⟩
    rw [tiers rows fold isOk, addRuns_eq op e g ((sorted_rows positive sorted).filter q),
      tally_filter (pointwise op) fun _ => e]
    refine congrArg _ (tally_congr (pointwise op) (fun _ => e) fun r _ => ?_)
    by_cases kept : q r = true
    · rw [if_pos kept]
    · rw [if_neg kept, silent' r (Bool.eq_false_of_not_eq_true kept)]
      funext i
      exact (ite_self e).symm

theorem ofRows (positive : 0 < grid.bucketSec)
    (keeps : ∀ rows fold, ok fold → ok (addWindows rows fold)) (keeps' : ∀ rows fold, ok fold → ok (addTiers rows fold))
    (windows : ∀ rows fold, ok fold → rows.Pairwise (fun v w => v.startTime ≤ w.startTime) →
      get (addWindows rows fold) =
        addRuns op f (runs (fun w : AvgWindow => grid.index w.startTime) rows) (get fold))
    (tiers : ∀ rows fold, ok fold → get (addTiers rows fold) =
      addRuns op g (runs (fun r : StoredRow => grid.index r.bucketEpoch) rows) (get fold)) :
    Observes addWindows addTiers ok (pointwise op) (fun _ => e) get
      (fun w => single e (grid.index w.startTime) (f w)) fun r => single e (grid.index r.bucketEpoch) (g r) := by
  refine ofRuns (p := fun _ => true) (q := fun _ => true) positive keeps keeps' (fun _ no => by cases no)
    (fun _ no => by cases no) (fun rows fold isOk sorted => ?_) fun rows fold isOk => ?_
  · rw [List.filter_true]
    exact windows rows fold isOk sorted
  · rw [List.filter_true]
    exact tiers rows fold isOk

/-- A stored row adds to its bucket what its windows would. -/
theorem row_bucket {level : Nat} (positive : 0 < level) (aligned : grid.Aligned level) {r : StoredRow}
    (exact : r.Exact level) (sums : g r = tally op e f r.windows) :
    single e (grid.index r.bucketEpoch) (g r) =
      tally (pointwise op) (fun _ => e) (fun w : AvgWindow => single e (grid.index w.startTime) (f w)) r.windows := by
  rw [sums]
  exact (tally_single op e fun w member => Grid.index_period positive aligned (TierRow.Exact.period exact w member)).symm

/-- A field per bucket is the same read from the tier when each stored row
adds what its windows would. -/
theorem buckets_eq [Std.Commutative op]
    (observes : Observes addWindows addTiers ok (pointwise op) (fun _ => e) get
      (fun w => single e (grid.index w.startTime) (f w)) fun r => single e (grid.index r.bucketEpoch) (g r))
    {db : SensorDatabase} {level : Nat} {since : ℚ} (covers : db.Covers level since) (aligned : grid.Aligned level)
    (filter : TuningFilter) (until_ : ℚ)
    (sums : ∀ r ∈ db.tierRange filter since until_ level, g r = tally op e f r.windows) {fold : φ} (isOk : ok fold) :
    get (db.foldTiered addWindows addTiers filter since until_ level fold) =
      get (db.foldWindows addWindows filter since until_ fold) :=
  observes.foldTiered_eq covers filter until_ (fun r member => row_bucket covers.positive aligned
    (covers.kept.stored r (SensorDatabase.mem_tierRange.mp member).1) (sums r member)) isOk

end Observes

namespace Observes

variable {φ : Type*} {addWindows : List AvgWindow → φ → φ} {addTiers : List StoredRow → φ → φ} {ok : φ → Prop}
  {get : φ → Nat → Nat} {f : AvgWindow → Nat} {g : StoredRow → Nat} {grid : Grid}

/-- All buckets together. -/
theorem total (observes : Observes addWindows addTiers ok (pointwise (· + ·)) (fun _ => 0) get
      (fun w => single 0 (grid.index w.startTime) (f w)) fun r => single 0 (grid.index r.bucketEpoch) (g r))
    (nonempty : 0 < grid.n) :
    Observes addWindows addTiers ok (· + ·) 0 (fun fold => ∑ i ∈ Finset.range grid.n, get fold i) f g := by
  have sum := observes.map (h := fun a => ∑ i ∈ Finset.range grid.n, a i) fun a b => Finset.sum_add_distrib
  have inside : ∀ epoch x, (∑ i ∈ Finset.range grid.n, single 0 (grid.index epoch) x i) = x := fun epoch x => by
    unfold single
    rw [Finset.sum_ite_eq' , if_pos (Finset.mem_range.mpr (Grid.index_lt nonempty epoch))]
  simpa only [inside, Finset.sum_const_zero] using sum

/-- The windows of a range counted bucket by bucket. -/
theorem foldWindows_count (observes : Observes addWindows addTiers ok (pointwise (· + ·)) (fun _ => 0) get
      (fun w => single 0 (grid.index w.startTime) 1) fun r => single 0 (grid.index r.bucketEpoch) (g r))
    (db : SensorDatabase) (filter : TuningFilter) (a b : ℚ) {fold : φ} (isOk : ok fold) (i : Nat) :
    get (db.foldWindows addWindows filter a b fold) i =
      get fold i + ((db.rangeWindows filter a b).filter fun w => grid.index w.startTime = i).length := by
  rw [(observes.foldWindows db filter a b isOk).2, length_eq_tally, tally_filter]
  refine congrArg (get fold i + ·) ((tally_apply _ _ _ _ i).trans (tally_congr _ _ fun w _ => ?_))
  simp only [single, decide_eq_true_eq, @eq_comm _ i]

end Observes
end RFObserver
