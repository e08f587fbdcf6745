import RFObserver.Storage.TieredReads

namespace RFObserver
open Tally

variable {φ M M' : Type*}

theorem chunks_flatten {β : Type*} {size : Nat} (positive : 0 < size) {fuel : Nat} {rows : List β}
    (enough : rows.length ≤ fuel) : (chunks size fuel rows).flatten = rows := by
  induction fuel generalizing rows with
  | zero =>
    obtain rfl := List.eq_nil_of_length_eq_zero (Nat.le_zero.mp enough)
    rfl
  | succ fuel ih =>
    unfold chunks
    split
    · rename_i none
      rw [none]
      rfl
    · rename_i some
      have nonempty := List.length_pos_iff.mpr some
      rw [List.flatten_cons, ih (by rw [List.length_drop]; omega), List.take_append_drop]

/-- A field of a fold that windows add `f` to, and tier rows `g`. -/
structure Observes (addWindows : List AvgWindow → φ → φ) (addTiers : List StoredRow → φ → φ) (ok : φ → Prop)
    (op : M → M → M) (e : M) (get : φ → M) (f : AvgWindow → M) (g : StoredRow → M) : Prop where
  windows : ∀ rows fold, ok fold → rows.Pairwise (fun v w => v.startTime ≤ w.startTime) →
    ok (addWindows rows fold) ∧ get (addWindows rows fold) = op (get fold) (tally op e f rows)
  tiers : ∀ rows fold, ok fold → rows.Pairwise (fun r r' => r.bucketEpoch ≤ r'.bucketEpoch) →
    ok (addTiers rows fold) ∧ get (addTiers rows fold) = op (get fold) (tally op e g rows)

namespace Observes

variable {addWindows : List AvgWindow → φ → φ} {addTiers : List StoredRow → φ → φ} {ok : φ → Prop}
  {op : M → M → M} {e : M} {get : φ → M} {f : AvgWindow → M} {g : StoredRow → M}

/-- What is computed from the field is observed too. -/
theorem map (observes : Observes addWindows addTiers ok op e get f g) {op' : M' → M' → M'} {h : M → M'}
    (respects : ∀ a b, h (op a b) = op' (h a) (h b)) :
    Observes addWindows addTiers ok op' (h e) (fun fold => h (get fold)) (fun w => h (f w)) fun r => h (g r) where
  windows := fun rows fold isOk sorted => by
    obtain ⟨isOk, added⟩ := observes.windows rows fold isOk sorted
    refine ⟨isOk, ?_⟩
    rw [added, respects, tally_hom op e respects]
  tiers := fun rows fold isOk sorted => by
    obtain ⟨isOk, added⟩ := observes.tiers rows fold isOk sorted
    refine ⟨isOk, ?_⟩
    rw [added, respects, tally_hom op e respects]

variable [Std.Associative op] [Std.LawfulIdentity op e]

theorem chunked (observes : Observes addWindows addTiers ok op e get f g) {parts : List (List AvgWindow)} {fold : φ}
    (isOk : ok fold) (sorted : parts.flatten.Pairwise fun v w => v.startTime ≤ w.startTime) :
    ok (parts.foldl (fun fold chunk => addWindows chunk fold) fold) ∧
      get (parts.foldl (fun fold chunk => addWindows chunk fold) fold) = op (get fold) (tally op e f parts.flatten) := by
  induction parts generalizing fold with
  | nil => exact ⟨isOk, (op_id op e _).symm⟩
  | cons part parts ih =>
    rw [List.flatten_cons, List.pairwise_append] at sorted
    obtain ⟨isOk, added⟩ := observes.windows part fold isOk sorted.1
    obtain ⟨isOk, rest⟩ := ih isOk sorted.2.1
    refine ⟨isOk, ?_⟩
    rw [List.foldl_cons, rest, added, List.flatten_cons, tally_append, op_assoc op]

variable [Std.Commutative op]

theorem foldWindows (observes : Observes addWindows addTiers ok op e get f g) (db : SensorDatabase)
    (filter : TuningFilter) (a b : ℚ) {fold : φ} (isOk : ok fold) :
    ok (db.foldWindows addWindows filter a b fold) ∧ get (db.foldWindows addWindows filter a b fold) =
      op (get fold) (tally op e f (db.rangeWindows filter a b)) := by
  unfold SensorDatabase.foldWindows
  split
  · rename_i empty
    have none : db.rangeWindows filter a b = [] := List.filter_eq_nil_iff.mpr fun w _ inRange => by
      have inRange := of_decide_eq_true inRange
      exact absurd (lt_of_le_of_lt inRange.1 inRange.2.1) (not_lt.mpr empty)
    rw [none]
    exact ⟨isOk, (op_id op e _).symm⟩
  · have total : Std.Total fun v w : AvgWindow => v.startTime ≤ w.startTime := ⟨fun v w => le_total ..⟩
    have trans : IsTrans AvgWindow fun v w => v.startTime ≤ w.startTime := ⟨fun _ _ _ => le_trans⟩
    have whole := chunks_flatten (show 0 < scanChunk by decide) (le_refl (db.scanAvgWindows filter a b).length)
    have sorted : (db.scanAvgWindows filter a b).Pairwise fun v w => v.startTime ≤ w.startTime :=
      List.pairwise_insertionSort ..
    obtain ⟨isOk, added⟩ := observes.chunked isOk (by rwa [whole])
    refine ⟨isOk, added.trans ?_⟩
    rw [whole]
    exact congrArg _ (tally_perm op e (List.perm_insertionSort ..))

/-- Reading a range from the tier gives what its windows give, where each
stored row gives what the windows it holds give. -/
theorem foldTiered (observes : Observes addWindows addTiers ok op e get f g) {db : SensorDatabase} {level : Nat}
    {since : ℚ} (covers : db.Covers level since) (filter : TuningFilter) (until_ : ℚ)
    (rows : ∀ r ∈ db.tierRange filter since until_ level, g r = tally op e f r.windows) {fold : φ} (isOk : ok fold) :
    ok (db.foldTiered addWindows addTiers filter since until_ level fold) ∧
      get (db.foldTiered addWindows addTiers filter since until_ level fold) =
        op (get fold) (tally op e f (db.rangeWindows filter since until_)) := by
  have split := covers.tiered_windows filter until_
  obtain ⟨isOk, head⟩ := observes.foldWindows db filter since (min (SensorDatabase.lo since level) until_) isOk
  obtain ⟨isOk, mid⟩ := observes.tiers _ _ isOk (SensorDatabase.tierRange_sorted db filter since until_ level)
  obtain ⟨isOk, tail⟩ := observes.foldWindows db filter (max (max (db.coverEnd filter since until_ level)
    (SensorDatabase.lo since level) : ℤ) since) until_ isOk
  rw [tally_flatMap op e rows] at mid
  refine ⟨isOk, tail.trans ?_⟩
  rw [mid, head, ← tally_perm op e split, tally_append, tally_append]
  simp only [op_assoc op]

theorem foldTiered_eq (observes : Observes addWindows addTiers ok op e get f g) {db : SensorDatabase} {level : Nat}
    {since : ℚ} (covers : db.Covers level since) (filter : TuningFilter) (until_ : ℚ)
    (rows : ∀ r ∈ db.tierRange filter since until_ level, g r = tally op e f r.windows) {fold : φ} (isOk : ok fold) :
    get (db.foldTiered addWindows addTiers filter since until_ level fold) =
      get (db.foldWindows addWindows filter since until_ fold) := by
  rw [(observes.foldTiered covers filter until_ rows isOk).2,
    (observes.foldWindows db filter since until_ isOk).2]

end Observes
end RFObserver
